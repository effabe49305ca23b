import ComponentCompiler.Proofs.Graph.Recheck

/-!
Import errors that are up to date. A session is `Consistent` when the log has those import errors of
compiled files that the names which their targets export call for.
-/

namespace ComponentCompiler.Session

open Option FileGraph

variable {tree : FileTree} {c c' s : Session} {a b r target : FileRecord} {d : Diagnostic} {i t index : Nat}

structure Named (s : Session) (i : Nat) (r : FileRecord) : Prop where
  file : ∀ {j q}, s.graph.get? j = some q → q.key = r.key → j = i
  package : s.registry.packages.contains r.key = false

structure Checkable (s : Session) (i : Nat) (r : FileRecord) (t : Nat) (target : FileRecord) : Prop where
  present : s.graph.get? i = some r
  compiled : r.isCompiled
  named : s.Named i r
  imports : some t ∈ r.importTargets
  there : s.graph.get? t = some target
  targetCompiled : target.isCompiled
  targetNamed : s.Named t target
  closed : (s.exportSurface t).isOpen = false

/-- The import errors of a file about another are those of the names that it asks for and the other does not
export, one for each import that asks for such names. -/
def Reported (s : Session) (r : FileRecord) (t : Nat) (target : FileRecord) : Prop :=
  ∀ d, d.code = .importNotExported → d.context = some target.key →
    (d ∈ s.log.forFile r.key ↔ ∃ index, r.importTarget? index = some t ∧ s.absentNames r index t ≠ [] ∧
      d = notExported r (s.absentNames r index t) target.key)

def Consistent (s : Session) : Prop := ∀ i r t target, s.Checkable i r t target → s.Reported r t target

instance (s : Session) (i : Nat) (r : FileRecord) : Decidable (s.Named i r) :=
  decidable_of_iff
    ((∀ j < s.graph.size, ∀ q ∈ s.graph.get? j, q.key = r.key → j = i) ∧ s.registry.packages.contains r.key = false)
    ⟨fun ⟨file, package⟩ => ⟨fun there => file _ (get?_eq_some_lt there) _ there, package⟩,
      fun named => ⟨fun _ _ _ there => named.file there, named.package⟩⟩

theorem exists_checkable_iff {P : FileRecord → FileRecord → Prop} :
    (∃ r target, s.Checkable i r t target ∧ P r target) ↔
      ∃ r ∈ s.graph.get? i, ∃ target ∈ s.graph.get? t, (r.isCompiled ∧ s.Named i r ∧ some t ∈ r.importTargets ∧
        target.isCompiled ∧ s.Named t target ∧ (s.exportSurface t).isOpen = false) ∧ P r target := by
  constructor
  · rintro ⟨r, target, ⟨held, compiled, named, imports, there, compiled', named', closed⟩, holds⟩
    exact ⟨r, held, target, there, ⟨compiled, named, imports, compiled', named', closed⟩, holds⟩
  · rintro ⟨r, held, target, there, ⟨compiled, named, imports, compiled', named', closed⟩, holds⟩
    exact ⟨r, target, ⟨held, compiled, named, imports, there, compiled', named', closed⟩, holds⟩

instance (s : Session) (i t : Nat) (P : FileRecord → FileRecord → Prop) [∀ r target, Decidable (P r target)] :
    Decidable (∃ r target, s.Checkable i r t target ∧ P r target) := decidable_of_iff _ exists_checkable_iff.symm

def Clean (s : Session) : Prop :=
  s.log.isEmpty = true ∧ ∀ r ∈ s.graph.records, ∀ index < r.importTargets.length, ∀ t ∈ r.importTarget? index,
    s.absentNames r index t = []

instance (s : Session) : Decidable s.Clean := inferInstanceAs (Decidable (_ ∧ _))

theorem Clean.consistent (clean : s.Clean) : s.Consistent := by
  intro i r t target link d code context
  rw [DiagnosticLog.forFile_of_isEmpty clean.1]
  refine ⟨fun reported => absurd reported List.not_mem_nil, ?_⟩
  rintro ⟨index, leads, something, -⟩
  have mem := mem_records_iff.mpr ⟨i, link.present⟩
  exact absurd (clean.2 r mem index (FileRecord.lt_of_importTarget? leads) t leads) something

theorem state_ne_of_isCompiled (compiled : r.isCompiled) : r.state ≠ .failed := by
  intro failed
  simp [FileRecord.isCompiled, failed] at compiled

theorem continues_log (log) : Continues c { c with log := log } :=
  ⟨rfl, rfl, fun held => ⟨_, held, rfl⟩, id, id⟩

theorem continues_forget (id) (path) : Continues c (c.forget id path) where
  resolver := rfl
  library := rfl
  place held := get?_update_of_get? (f := FileRecord.blank) (fun _ => rfl) held
  lookup known := known
  packages known := known

namespace Continues

section

variable (onwards : Continues c s)
include onwards

theorem key_eq (before : c.graph.get? i = some a) (last : s.graph.get? i = some r) :
    r.key = a.key := by
  rw [FileRecord.key, FileRecord.key, (FileRecord.blank_eq_iff.mp (onwards.blank_eq before last)).2.1]

theorem named (named : s.Named i r) (same : a.key = r.key) : c.Named i a where
  file {j q} held key := by
    obtain ⟨q', last, -⟩ := onwards.place held
    exact named.file last ((onwards.key_eq held last).trans (key.trans same))
  package := by
    rw [same, ← Bool.not_eq_true]
    intro known
    cases (onwards.contains_package known).symm.trans named.package

theorem importedPackage?_eq (noted : Noted c) (before : c.graph.get? x = some a) :
    s.importedPackage? a index = c.importedPackage? a index := by
  unfold importedPackage?
  cases resolved : a.resolved? index with
  | none => rfl
  | some found =>
    cases package : found.package? with
    | none => simp [package]
    | some name =>
      obtain ⟨p, known⟩ := isSome_iff_exists.mp (noted x a index found name before resolved package)
      simp [package, known, onwards.packages known]

theorem sameExports (noted : Noted c) (before : c.graph.get? x = some a)
    (last : s.graph.get? x = some a) : SameExports c s x a a where
  before := before
  last := last
  surface := rfl
  target _ _ := rfl
  package _ _ _ := onwards.importedPackage?_eq noted before

theorem sameSurface (noted : Noted c)
    (kept : ∀ x, s.graph.StarReaches t x → ∃ a, c.graph.get? x = some a ∧ s.graph.get? x = some a) :
    SameSurface s c t := by
  refine Session.sameSurface fun x reached => ?_
  obtain ⟨a, before, last⟩ := kept x reached
  exact ⟨a, a, (onwards.sameExports noted before last).symm⟩

end

end Continues

section

variable (held : c.graph.get? i = some a) (there : c.graph.get? t = some b) (named : c.Named t b)
  (fine : b.state ≠ .failed) (closed : (c.exportSurface t).isOpen = false)
  (inside : ∀ {t'}, a.importTarget? index = some t' → t' < c.graph.size) (context : d.context = some b.key)
include held there named fine closed inside context

theorem importError?_iff : c.importError? i index = some d ↔
    a.importTarget? index = some t ∧ c.absentNames a index t ≠ [] ∧
      d = notExported a (c.absentNames a index t) b.key := by
  cases leads : a.importTarget? index with
  | none => simp [importError?, held, leads]
  | some t' =>
    by_cases here : t' = t
    · subst here
      rw [importError?_eq held leads there, missingNames_of_closed there fine closed]
      split
      · rename_i nothing
        simp [List.isEmpty_iff.mp nothing]
      · rename_i something
        simp only [List.isEmpty_iff] at something
        simp [something, eq_comm]
    · -- an error about another file does not name this one
      obtain ⟨b', there'⟩ := get?_of_lt (inside leads)
      rw [importError?_eq held leads there']
      constructor
      · intro reported
        split at reported
        · cases reported
        · cases reported
          exact absurd (named.file there' (some.inj context)) here
      · rintro ⟨same, -⟩
        exact absurd (some.inj same) here

theorem recheckError?_iff : c.recheckError? i index = some d ↔
    a.importTarget? index = some t ∧ c.absentNames a index t ≠ [] ∧
      d = notExported a (c.absentNames a index t) b.key := by
  rw [recheckError?, held, bind_some]
  split
  · exact importError?_iff held there named fine closed inside context
  · rename_i unlinked
    constructor
    · intro reported
      obtain ⟨package, -, reported⟩ := bind_eq_some_iff.mp reported
      split at reported
      · obtain ⟨-, about, known⟩ := packageError?_eq_some held reported
        cases context.symm.trans about
        cases known.symm.trans named.package
      · cases reported
    · rintro ⟨leads, -⟩
      exact absurd (isSome_iff_exists.mpr ⟨t, leads⟩) unlinked

end

theorem Check.file_of_error? {check : Check} (held : check.session.graph.get? check.importer = some a)
    (reported : check.error? = some d) : d.file = a.key := by
  unfold Check.error? at reported
  split at reported
  · exact file_of_importError? held reported
  · exact (packageError?_eq_some held reported).1

section

variable {check : Check} {own : Option Nat} (traced : check.Traced tree c c' own) (onwards : Continues c' s)
include traced onwards

theorem Check.Traced.importer_eq (named : s.Named i r) (reported : check.error? = some d) (file : d.file = r.key) :
    check.importer = i := by
  obtain ⟨a, held, -⟩ := traced.sound
  obtain ⟨q, last, -⟩ := (traced.after.toContinues.trans onwards).place held
  have key := (traced.after.toContinues.trans onwards).key_eq held last
  exact named.file last (by rw [key, ← file_of_error? held reported, file])

/-- What a check of a run says about a file, if the run does not reach the files that its star re-exports lead to, or
reaches only the importer, and this one has no star re-exports. -/
theorem Check.Traced.error?_iff (coherent : c.graph.Coherent) (link : s.Checkable check.importer r t target)
    (settled : Settled tree s r) (surface : r.surface = some m) (there : own ≠ some t ∧ c.graph.get? t = some target)
    (kept : ∀ x, s.graph.StarReaches t x → own ≠ some x ∧ (∃ a, c.graph.get? x = some a ∧ s.graph.get? x = some a) ∨
      x = check.importer ∧ starImports r.exports = []) (context : d.context = some target.key) :
    check.error? = some d ↔ check.package = none ∧ r.importTarget? check.index = some t ∧
      s.absentNames r check.index t ≠ [] ∧ d = notExported r (s.absentNames r check.index t) target.key := by
  have since := traced.after.toContinues.trans onwards
  obtain ⟨a, held, sound⟩ := traced.sound
  have path : r.path = a.path := (FileRecord.blank_eq_iff.mp (since.blank_eq held link.present)).2.1
  have key : r.key = a.key := since.key_eq held link.present
  have there := traced.keeps there.2 there.1
  have named : check.session.Named t target := since.named link.targetNamed rfl
  unfold Check.error?
  cases package : check.package with
  | some name =>
    simp only [reduceCtorEq, false_and, iff_false]
    intro reported
    obtain ⟨-, about, known⟩ := packageError?_eq_some held reported
    cases context.symm.trans about
    cases known.symm.trans named.package
  | none =>
    obtain ⟨m', statement, t', surface', loaded, statementAt, slot, leads⟩ := sound package
    obtain ⟨loaded', -, slots⟩ := settled.outcome.slots surface
    cases (path ▸ loaded').symm.trans loaded
    have same : SameSurface s check.session t := sameSurface fun x reached => by
      rcases kept x reached with ⟨other, b, before, last⟩ | ⟨rfl, none⟩
      · exact ⟨b, b, (since.sameExports traced.noted (traced.keeps before other) last).symm⟩
      · exact ⟨r, a, link.present, held, surface'.trans surface.symm, by simp [none], by simp [none]⟩
    have filled : r.importTarget? check.index = some t' := by
      rw [(slots statementAt).2, path]
      exact since.importSlot_of_some slot
    have absent : check.session.absentNames a check.index t = s.absentNames r check.index t := by
      rw [same.absentNames, absentNames, absentNames,
        FileRecord.requestedNames_of_surface (surface'.trans surface.symm)]
    have inside : ∀ {t''}, a.importTarget? check.index = some t'' → t'' < check.session.graph.size := by
      intro t'' leads'
      cases leads.symm.trans leads'
      obtain ⟨p, -, known⟩ := bind_eq_some_iff.mp slot
      exact (traced.before.coherent coherent).lookup?_lt known
    rw [importError?_iff held there named (state_ne_of_isCompiled link.targetCompiled) (same.isOpen ▸ link.closed)
      inside context, leads, filled, absent, notExported, notExported, key]
    simp

end

end ComponentCompiler.Session
