import ComponentCompiler.Files.Tree
import ComponentCompiler.Proofs.Files.Path

/-! The ways of paths: which locations a path passes and where it ends, whatever a tree holds. -/

namespace ComponentCompiler

open List

namespace Path

def advance (location : Location) (segment : String) : Location :=
  if isTrivial segment then location else if segment == ".." then location.dropLast else location ++ [segment]

def wayFrom (location : Location) : List String → List Location
  | [] => [location]
  | segment :: rest => location :: wayFrom (advance location segment) rest

def way (p : Path) : List Location := wayFrom [] p.body

def location (p : Path) : Location := p.body.foldl advance []

variable {segment : String}

theorem advance_trivial (trivial : isTrivial segment) (location) :
    advance location segment = location := by
  rw [advance, if_pos trivial]

theorem advance_name (nontrivial : isTrivial segment = false) (notUp : segment ≠ "..") (location) :
    advance location segment = location ++ [segment] := by
  simp [advance, nontrivial, notUp]

theorem foldl_advance_trivial {segments : List String} (trivial : ∀ segment ∈ segments, isTrivial segment)
    (location) : segments.foldl advance location = location := by
  induction segments with
  | nil => rfl
  | cons segment rest ih =>
    rw [foldl_cons, advance_trivial (trivial segment mem_cons_self)]
    exact ih fun later mem => trivial later (mem_cons_of_mem _ mem)

theorem mem_wayFrom_start (location) (segments) : location ∈ wayFrom location segments := by
  cases segments with
  | nil => exact mem_singleton_self _
  | cons segment rest => exact mem_cons_self

theorem mem_wayFrom_end (location) (segments : List String) :
    segments.foldl advance location ∈ wayFrom location segments := by
  induction segments generalizing location with
  | nil => exact mem_singleton_self _
  | cons segment rest ih => exact mem_cons_of_mem _ (ih _)

theorem location_mem_way (p : Path) : p.location ∈ p.way := mem_wayFrom_end [] p.body

theorem wayFrom_append (location) (segments more) :
    ∀ passed, passed ∈ wayFrom location (segments ++ more) ↔
      passed ∈ wayFrom location segments ∨ passed ∈ wayFrom (segments.foldl advance location) more := by
  induction segments generalizing location with
  | nil =>
    intro passed
    have start := mem_wayFrom_start location more
    constructor
    · exact .inr
    · rintro (first | later)
      · rw [mem_singleton.mp first]
        exact start
      · exact later
  | cons segment rest ih =>
    intro passed
    rw [cons_append, wayFrom, wayFrom, mem_cons, mem_cons, ih, or_assoc]
    rfl

end Path

namespace FileTree

open Path

variable {tree tree' : FileTree} {segment : String} {next : Location}

theorem segments?_ok (h : segments? p = .ok segments) : p.isAbsolute ∧ segments = p.body := by
  unfold segments? at h
  split at h
  · cases h
  · split at h
    · rename_i absolute
      cases h
      exact ⟨absolute, rfl⟩
    · cases h

theorem step_advance (h : tree.step start segment = .ok next) :
    tree.hasDirectory start ∧ next = advance start segment := by
  unfold step at h
  split at h
  · cases h
  · rename_i directory
    refine ⟨by simpa using directory, ?_⟩
    unfold advance
    split at h
    · cases h
      rename_i trivial
      rw [if_pos trivial]
    · rename_i nontrivial
      rw [if_neg nontrivial]
      split at h
      · cases h
        rename_i up
        rw [if_pos up]
      · rename_i notUp
        rw [if_neg notUp]
        split at h
        · cases h
        · split at h
          · cases h
            rfl
          · cases h

theorem follow_cons_ok (h : tree.follow start (segment :: segments) = .ok next) :
    tree.step start segment = .ok (advance start segment) ∧ tree.follow (advance start segment) segments = .ok next := by
  rw [follow] at h
  cases taken : tree.step start segment with
  | error cause =>
    rw [taken] at h
    cases h
  | ok reached =>
    rw [taken] at h
    obtain ⟨-, rfl⟩ := step_advance taken
    exact ⟨rfl, h⟩

theorem follow_advance (h : tree.follow start segments = .ok next) : next = segments.foldl advance start := by
  induction segments generalizing start with
  | nil =>
    cases h
    rfl
  | cons segment rest ih => exact ih (follow_cons_ok h).2

theorem follow_append_ok :
    tree.follow start (segments ++ more) = .ok next ↔
      tree.follow start segments = .ok (segments.foldl advance start) ∧
        tree.follow (segments.foldl advance start) more = .ok next := by
  induction segments generalizing start with
  | nil => simp [follow]
  | cons segment rest ih =>
    rw [cons_append, foldl_cons]
    constructor
    · intro h
      obtain ⟨taken, later⟩ := follow_cons_ok h
      obtain ⟨first, second⟩ := ih.mp later
      refine ⟨?_, second⟩
      rw [follow, taken]
      exact first
    · rintro ⟨first, second⟩
      obtain ⟨taken, later⟩ := follow_cons_ok first
      rw [follow, taken]
      exact ih.mpr ⟨later, second⟩

theorem locate_location {location : Location} (h : tree.locate p = .ok location) : location = p.location := by
  unfold locate at h
  cases split : segments? p with
  | error cause =>
    rw [split] at h
    cases h
  | ok segments =>
    rw [split] at h
    rw [(segments?_ok split).2] at h
    exact follow_advance h

theorem lookup_eq_ok :
    tree.lookup p = .ok entry ↔ tree.locate p = .ok p.location ∧ tree.item? p.location = some entry := by
  unfold lookup
  cases found : tree.locate p with
  | error cause => simp [bind, Except.bind]
  | ok location =>
    rw [locate_location found]
    simp only [bind, Except.bind, true_and]
    cases tree.item? p.location with
    | none => simp
    | some held => simp

theorem isFile_eq_true : tree.isFile p ↔ ∃ content, tree.lookup p = .ok (.file content) := by
  unfold isFile
  split
  · rename_i content found
    simp [found]
  · rename_i other
    constructor
    · intro absurd
      cases absurd
    · rintro ⟨content, found⟩
      exact (other content found).elim

theorem read_eq_ok : tree.read p = .ok content ↔ tree.lookup p = .ok (.file content) := by
  unfold read
  cases found : tree.lookup p with
  | error cause => simp [bind, Except.bind]
  | ok entry => cases entry <;> simp [bind, Except.bind]

theorem readText_eq_ok {text : String} :
    tree.readText p = .ok text ↔ tree.lookup p = .ok (.file (.text text)) := by
  rw [← read_eq_ok]
  unfold readText
  cases found : tree.read p with
  | error cause => simp [bind, Except.bind]
  | ok content => cases content <;> simp [bind, Except.bind]

/-- The second tree has a directory where the first one has, and a file where it has one. -/
structure Extends (tree tree' : FileTree) : Prop where
  directory : ∀ {location}, tree.item? location = some .directory → tree'.item? location = some .directory
  file : ∀ {location content}, tree.item? location = some (.file content) →
    ∃ content', tree'.item? location = some (.file content')

namespace Extends

section

variable (extend : Extends tree tree')
include extend

theorem isSome_item? {location : Location} (held : (tree.item? location).isSome) :
    (tree'.item? location).isSome := by
  obtain ⟨entry, held⟩ := Option.isSome_iff_exists.mp held
  cases entry with
  | directory => rw [extend.directory held, Option.isSome_some]
  | file content =>
    obtain ⟨content', held'⟩ := extend.file held
    rw [held', Option.isSome_some]

theorem hasDirectory {location : Location} (held : tree.hasDirectory location) :
    tree'.hasDirectory location := by
  unfold FileTree.hasDirectory at held ⊢
  split at held
  · rename_i here
    rw [extend.directory here]
  · cases held

theorem step (h : tree.step start segment = .ok next) :
    tree'.step start segment = .ok next := by
  have directory := extend.hasDirectory (step_advance h).1
  unfold FileTree.step at h ⊢
  rw [directory]
  split at h
  · cases h
  · rw [if_neg (by simp)]
    split at h
    · rename_i trivial
      rw [if_pos trivial]
      exact h
    · rename_i nontrivial
      rw [if_neg nontrivial]
      split at h
      · rename_i up
        rw [if_pos up]
        exact h
      · rename_i notUp
        rw [if_neg notUp]
        split at h
        · cases h
        · rename_i short
          rw [if_neg short]
          split at h
          · rename_i held
            rw [if_pos (extend.isSome_item? held)]
            exact h
          · cases h

theorem follow (h : tree.follow start segments = .ok next) :
    tree'.follow start segments = .ok next := by
  induction segments generalizing start with
  | nil => exact h
  | cons segment rest ih =>
    obtain ⟨taken, later⟩ := follow_cons_ok h
    rw [FileTree.follow, extend.step taken]
    exact ih later

end

end Extends

end FileTree

end ComponentCompiler
