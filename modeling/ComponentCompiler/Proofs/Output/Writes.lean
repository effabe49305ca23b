import ComponentCompiler.Proofs.Files.Join
import ComponentCompiler.Proofs.Output.Cache

/-! What the writing of output does to a tree, however far it went. -/

namespace ComponentCompiler

open List

namespace FileTree

open Path

/-- `Rewritten paths tree tree'`: writing to some of the paths, with success or without, makes `tree'` of `tree`. -/
inductive Rewritten (paths : Path → Prop) (tree : FileTree) : FileTree → Prop where
  | refl : Rewritten paths tree tree
  | write {tree' p} (before : Rewritten paths tree tree') (member : paths p) (content : FileContent) :
      Rewritten paths tree (tree'.writeDeep p content).2

def Writable (p : Path) : Prop := ∃ tree content tree', FileTree.write tree p content = .ok tree'

variable {tree : FileTree} {p : Path} {location : Location}

theorem writable_of_writeDeep (h : tree.writeDeep p content = (.ok (), tree')) : Writable p := by
  unfold writeDeep at h
  split at h
  · split at h
    · rename_i written
      exact ⟨_, _, _, written⟩
    · cases h
  · rename_i failed
    exact absurd h (failed () tree')

namespace Rewritten

theorem mono (rewritten : Rewritten paths tree tree') (inside : ∀ p, paths p → paths' p) :
    Rewritten paths' tree tree' := by
  induction rewritten with
  | refl => exact .refl
  | write _ mem content ih => exact ih.write (inside _ mem) content

theorem item?_file (rewritten : Rewritten paths tree tree')
    (other : ∀ p, paths p → Writable p → location ≠ p.location) (held) :
    tree'.item? location = some (.file held) ↔ tree.item? location = some (.file held) := by
  induction rewritten with
  | refl => exact Iff.rfl
  | @write middle p _ mem content ih =>
    rw [← ih]
    by_cases written : Writable p
    · exact item?_writeDeep_file (other p mem written)
    · cases h : middle.writeDeep p content with
      | mk result after =>
        cases result with
        | ok done => exact absurd (writable_of_writeDeep h) written
        | error failure => exact (grown_writeDeep_error h).item?_file location held

end Rewritten

theorem isName_of_mem_wayFrom (named : ∀ name ∈ start, IsName name) (plain : ∀ segment ∈ segments, IsSegment segment)
    (mem : location ∈ wayFrom start segments) : ∀ name ∈ location, IsName name := by
  induction segments generalizing start with
  | nil =>
    rw [mem_singleton.mp mem]
    exact named
  | cons segment rest ih =>
    rcases mem_cons.mp mem with rfl | later
    · exact named
    · apply ih _ (fun segment mem => plain segment (mem_cons_of_mem _ mem)) later
      unfold advance
      split
      · exact named
      · rename_i nontrivial
        split
        · exact fun name mem => named name (dropLast_subset _ mem)
        · rename_i notUp
          intro name mem
          rcases mem_append.mp mem with old | new
          · exact named name old
          · rw [mem_singleton.mp new]
            exact ⟨plain segment mem_cons_self, by simpa using nontrivial, by simpa using notUp⟩

theorem isName_of_mem_way (mem : location ∈ p.way) : ∀ name ∈ location, IsName name :=
  isName_of_mem_wayFrom (fun _ none => absurd none not_mem_nil) (fun _ => isSegment_of_mem_body) mem

theorem Named.writeDeep (named : tree.Named) (p) (content) :
    (tree.writeDeep p content).2.Named := by
  intro location held
  by_cases passed : location ∈ p.way
  · exact isName_of_mem_way passed
  · rw [item?_writeDeep fun mem => absurd mem passed] at held
    exact named location held

theorem Rewritten.named (rewritten : Rewritten paths tree tree') (named : tree.Named) : tree'.Named := by
  induction rewritten with
  | refl => exact named
  | write _ _ content ih => exact ih.writeDeep _ content

end FileTree

namespace Output

/-- What holds before an action holds after it, whether it succeeds or not. -/
def Keeps {α : Type} (holds : OutputState → Prop) (action : Output α) : Prop :=
  ∀ s, holds s → holds (action.run s).2

variable {α β : Type} {next : α → Output β}

theorem Keeps.pure (a : α) : Keeps holds (Pure.pure a : Output α) := fun _ held => held

theorem run_bind_ok {action : Output α} (h : action.run s = (.ok a, s')) :
    (action >>= next).run s = (next a).run s' := by
  show (ExceptT.bindCont next (action.run s).1) (action.run s).2 = (next a).run s'
  rw [h]
  rfl

theorem run_bind_error {action : Output α} (h : action.run s = (.error e, s')) :
    (action >>= next).run s = (.error e, s') := by
  show (ExceptT.bindCont next (action.run s).1) (action.run s).2 = (.error e, s')
  rw [h]
  rfl

theorem Keeps.bind (first : Keeps holds action) (second : ∀ a, Keeps holds (next a)) :
    Keeps holds (action >>= next) := by
  intro s held
  have after := first s held
  cases h : action.run s with
  | mk result s' =>
    rw [h] at after
    cases result with
    | ok a =>
      rw [run_bind_ok h]
      exact second a s' after
    | error e =>
      rw [run_bind_error h]
      exact after

theorem Keeps.map (f : α → β) (kept : Keeps holds action) : Keeps holds (f <$> action) := by
  rw [← bind_pure_comp]
  exact kept.bind fun _ => .pure _

theorem Keeps.files_bind {next : FileTree → Output β} (second : ∀ s, holds s → Keeps holds (next s.files)) :
    Keeps holds (files >>= next) := by
  intro s held
  have read : files.run s = (.ok s.files, s) := rfl
  rw [run_bind_ok read]
  exact second s held s held

theorem Keeps.writeAll {dir : Path}
    (write : ∀ artifact ∈ artifacts, Keeps holds (write (dir.join artifact.1) (.text artifact.2))) :
    Keeps holds (writeAll dir artifacts) := by
  induction artifacts with
  | nil => exact .pure _
  | cons artifact rest ih =>
    apply Keeps.bind (write artifact mem_cons_self)
    intro isNew
    apply Keeps.bind (ih fun other mem => write other (mem_cons_of_mem _ mem))
    exact fun _ => .pure _

end Output

namespace Asset

open Output

variable {holds : OutputState → Prop} {source target : Path}

/-- A file is written to its place below the target with the content that it has at that time. -/
def KeepsCopy (holds : OutputState → Prop) (source target path : Path) : Prop :=
  ∀ s, holds s → ∀ relative content, path.relativeTo? source = some relative → s.files.read path = .ok content →
    Keeps holds (write (target.join relative) content)

theorem keeps_copyFile (copy : KeepsCopy holds source target path) : Keeps holds (copyFile source target path) := by
  unfold copyFile
  split
  · exact .pure _
  · rename_i relative below
    apply Keeps.files_bind
    intro s held
    split
    · rename_i content read
      exact copy s held relative content below read
    · exact fun _ held => held

theorem keeps_copyFiles {paths : List Path} (copy : ∀ path ∈ paths, KeepsCopy holds source target path) :
    Keeps holds (copyFiles source target paths) := by
  induction paths with
  | nil => exact .pure _
  | cons path rest ih =>
    apply Keeps.bind (keeps_copyFile (copy path mem_cons_self))
    intro isNew
    apply Keeps.bind (ih fun other mem => copy other (mem_cons_of_mem _ mem))
    exact fun _ => .pure _

theorem keeps_copyAll (copy : ∀ s, holds s → ∀ asset ∈ assets, ∀ path ∈ paths s.files (source.join asset),
      KeepsCopy holds source target path) : Keeps holds (copyAll source target assets) := by
  induction assets with
  | nil => exact .pure _
  | cons asset rest ih =>
    apply Keeps.files_bind
    intro s held
    apply Keeps.bind (keeps_copyFiles (copy s held asset mem_cons_self))
    intro first
    apply Keeps.bind (ih fun s held other mem => copy s held other (mem_cons_of_mem _ mem))
    exact fun _ => .pure _

end Asset

namespace Output

open FileTree

variable {paths : Path → Prop} {tree : FileTree} {place : Path}

/-- The cache is kept at a place, and only the paths have been written to. -/
def Confined (paths : Path → Prop) (tree : FileTree) (place : Path) (s : OutputState) : Prop :=
  s.cache.path = place ∧ Rewritten paths tree s.files

theorem keeps_confined_write (mem : paths p) (content) :
    Keeps (Confined paths tree place) (write p content) := by
  rintro s ⟨kept, before⟩
  have after := before.write mem content
  show Confined paths tree place (s.write p content).2
  cases h : s.write p content with
  | mk result s' =>
    cases result with
    | error e =>
      obtain ⟨cache, failure, written⟩ := OutputState.write_error h
      rw [written] at after
      exact ⟨by rw [cache, kept], after⟩
    | ok isNew =>
      cases isNew with
      | false =>
        rw [(OutputState.write_ok_false h).1]
        exact ⟨kept, before⟩
      | true =>
        obtain ⟨cache, written⟩ := OutputState.write_ok_true h
        rw [written] at after
        exact ⟨by rw [cache]; exact kept, after⟩

theorem keeps_confined_save (mem : paths place) : Keeps (Confined paths tree place) save := by
  rintro s ⟨rfl, before⟩
  exact ⟨rfl, before.write mem _⟩

end Output

end ComponentCompiler
