import ComponentCompiler.Proofs.Graph.Consistency
import ComponentCompiler.Proofs.Graph.Placement

/-!
Import errors after a file has been compiled again. Main statement: `edit_revalidates_imports`;
`star_hides_removed_name` is an edit that leaves a session inconsistent.
-/

namespace ComponentCompiler.Session

open List
open FileGraph (get?_of_lt get?_eq_some_lt mem_records_iff)

variable {tree : FileTree} {s s₁ s' : Session} {r : FileRecord} {d : Diagnostic} {path : Path} {i id t x : Nat}
  {checks later : List Check}

/-- What a file passes on is known when an import of it is checked: its star re-exports lead to files before the number
`size` only, and to the edited file `id` only if it is the importer itself and has no star re-exports. -/
def Unaffected (s : Session) (size id i : Nat) (r : FileRecord) (t : Nat) : Prop :=
  ∀ x, s.graph.StarReaches t x → x < size ∧ (x = id → i = id ∧ starImports r.exports = [])

/-! ### Errors have files -/

def Owned (s : Session) : Prop :=
  ∀ d file, d.code = .importNotExported → d ∈ s.log.forFile file → ∃ i r, s.graph.get? i = some r ∧ r.key = file

theorem Owned.checked (owned : Owned s) (grows : Grows s s') (traced : ∀ check ∈ checks, check.Traced tree s s' own)
    (errors : ∀ {d file}, d.code = .importNotExported → (d ∈ s'.log.forFile file ↔
      d ∈ s.log.forFile file ∨ file = d.file ∧ ∃ check ∈ checks, check.error? = some d)) : Owned s' := by
  intro d file code reported
  rcases (errors code).mp reported with old | ⟨rfl, check, mem, error⟩
  · obtain ⟨i, r, held, key⟩ := owned d file code old
    obtain ⟨r', last, -⟩ := grows.place held
    exact ⟨i, r', last, (grows.key_eq held last).trans key⟩
  · obtain ⟨a, held, -⟩ := (traced check mem).sound
    obtain ⟨r', last, -⟩ := (traced check mem).after.place held
    have key := (traced check mem).after.key_eq held last
    exact ⟨check.importer, r', last, key.trans (Check.file_of_error? held error).symm⟩

theorem Owned.forget (owned : Owned s) (id) (path) : Owned (s.forget id path) := by
  intro d file code reported
  have old : d ∈ s.log.forFile file := by
    rw [Session.forget, DiagnosticLog.forFile_clearFile] at reported
    split at reported
    · cases reported
    · exact reported
  obtain ⟨i, r, held, key⟩ := owned d file code old
  obtain ⟨r', last, -⟩ := (continues_forget id path).place held
  exact ⟨i, r', last, ((continues_forget id path).key_eq held last).trans key⟩

theorem Owned.recheckImports (owned : Owned s) (j) : Owned (s.recheckImports j) := by
  intro d file code reported
  obtain ⟨log, same⟩ := recheckImports_log s j
  have graph : (s.recheckImports j).graph = s.graph := by rw [same]
  rw [graph]
  cases held : s.graph.get? j with
  | none =>
    rw [Session.recheckImports, held] at reported
    exact owned d file code reported
  | some q =>
    rw [mem_recheckImports held code] at reported
    split at reported
    · rename_i here
      exact ⟨j, q, held, here.symm⟩
    · exact owned d file code reported

theorem Owned.recheck (owned : Owned s) (importers : List Nat) :
    Owned (importers.foldl Session.recheckImports s) := by
  induction importers generalizing s with
  | nil => exact owned
  | cons j rest ih => exact ih (owned.recheckImports j)

/-! ### Between compilations -/

/-- A session between compilations, with what its log and its registry have of its files. -/
structure Steady (s : Session) : Prop where
  resting : Resting s
  noted : Noted s
  owned : Owned s

theorem compileEntry_steady (resolver) (library) (globals)
    (tree) (entry) : Steady ((new resolver library globals).compileEntry tree entry).1 := by
  obtain ⟨resting, -⟩ := compileEntry_resting resolver library globals tree entry
  have owned : Owned (new resolver library globals) := fun _ _ _ reported => by cases reported
  obtain ⟨checks, builds⟩ := compileEntry_builds (requested_new resolver library globals tree) entry
  obtain ⟨noted, traced⟩ := builds.traced
  exact ⟨resting, noted, owned.checked builds.grows traced builds.mem_importErrors⟩

/-! ### The steps of a recompilation -/

/-- A file is compiled again, and then the files that import it are checked again, which changes the log alone. -/
structure Recompiles (tree : FileTree) (path : Path) (id : Nat) (s s₁ : Session) (log : DiagnosticLog) (s' : Session)
    (checks later : List Check) : Prop where
  steady : Steady s
  known : s.graph.lookup? path.clean = some id
  run : Runs tree (.record id) (s.forget id path.clean) checks s₁
  shaped : ShapedBut none s₁
  rechecked : (s₁.graph.importersOf id).foldl recheckImports s₁ = { s₁ with log := log }
  drains : Drains tree 0 { s₁ with log := log } later s'

theorem Steady.recompiles (steady : Steady s) (compiled : s.recompile tree path = some (s', id)) :
    ∃ s₁ log checks later, Recompiles tree path id s s₁ log s' checks later := by
  obtain ⟨known, checks, later, run, drains⟩ := steady.resting.recompile_steps compiled
  obtain ⟨-, -, shaped, -⟩ := steady.resting.compileRecord_forget tree known
  generalize (s.forget id path.clean).compileRecord tree (compileFile tree) id = s₁ at *
  obtain ⟨log, rechecked⟩ := foldl_log recheckImports_log (s₁.graph.importersOf id) s₁
  exact ⟨s₁, log, checks, later, steady, known, run, shaped, rechecked, rechecked ▸ drains⟩

theorem size_forget (id) (path) : (s.forget id path).graph.size = s.graph.size := FileGraph.size_update

namespace Recompiles

variable {log : DiagnosticLog} (steps : Recompiles tree path id s s₁ log s' checks later)
include steps

theorem coherent_forget : (s.forget id path.clean).graph.Coherent := steps.steady.resting.coherent.update fun _ => rfl

theorem noted_forget : Noted (s.forget id path.clean) := by
  intro i r k found name held resolved package
  rw [get?_forget] at held
  split at held
  · obtain ⟨old, -, rfl⟩ := Option.map_eq_some_iff.mp held
    cases resolved
  · exact steps.steady.noted i r k found name held resolved package

theorem get?_edited : ∃ q, s.graph.get? id = some q ∧ q.path = path.clean ∧
    (s.forget id path.clean).graph.get? id = some q.blank := by
  obtain ⟨q, own, same⟩ := steps.steady.resting.coherent.get?_of_lookup? (Path.clean_clean path) steps.known
  refine ⟨q, own, same, ?_⟩
  rw [get?_forget, if_pos rfl, own]
  rfl

theorem coherent : s₁.graph.Coherent := steps.run.grows.coherent steps.coherent_forget

theorem traced : Noted s₁ ∧ ∀ check ∈ checks, check.Traced tree (s.forget id path.clean) s₁ (some id) :=
  steps.run.traced steps.coherent_forget steps.noted_forget trivial

theorem traced_later : Noted s' ∧ ∀ check ∈ later, check.Traced tree { s₁ with log := log } s' none :=
  steps.drains.traced steps.coherent steps.traced.1

theorem kept (before : s₁.graph.get? x = some r) : s'.graph.get? x = some r :=
  steps.drains.keeps steps.coherent before

theorem kept_old (before : s.graph.get? x = some r) (other : x ≠ id) :
    (s.forget id path.clean).graph.get? x = some r ∧ s₁.graph.get? x = some r := by
  have forgotten : (s.forget id path.clean).graph.get? x = some r := by rwa [get?_forget, if_neg other]
  exact ⟨forgotten, steps.run.keeps steps.coherent_forget forgotten (by simpa [Task.own?] using Ne.symm other)⟩

theorem continues : Continues s₁ s' := (continues_log log).trans steps.drains.grows.toContinues

theorem continues_forget : Continues (s.forget id path.clean) s' := steps.run.grows.toContinues.trans steps.continues

theorem continues_old : Continues s s' := (Session.continues_forget id path.clean).trans steps.continues_forget

theorem size_le : s.graph.size ≤ s₁.graph.size := size_forget (s := s) id path.clean ▸ steps.run.grows.size_le

theorem owned : Owned s' := by
  obtain ⟨-, traced⟩ := steps.traced
  obtain ⟨-, traced'⟩ := steps.traced_later
  have forgotten := steps.steady.owned.forget id path.clean
  have owned := forgotten.checked steps.run.grows traced steps.run.mem_importErrors
  exact (steps.rechecked ▸ owned.recheck _).checked steps.drains.grows traced' steps.drains.mem_importErrors

theorem settled (held : s'.graph.get? i = some r) (touched : i = id ∨ s.graph.size ≤ i) : Settled tree s' r := by
  by_cases early : i < s₁.graph.size
  · obtain ⟨r', before⟩ := get?_of_lt early
    cases held.symm.trans (steps.kept before)
    obtain ⟨q, -, -, blank⟩ := steps.get?_edited
    have settled : Settled tree s₁ r := by
      rcases touched with rfl | new
      · obtain ⟨r', last, -, settled⟩ := steps.run.settles_record steps.coherent_forget blank
        cases before.symm.trans last
        exact settled
      · refine steps.run.settles steps.coherent_forget ?_ i r (by rwa [size_forget]) before
        intro j own
        cases own
        exact get?_eq_some_lt blank
    exact (settled.withLog log).mono steps.drains.grows
  · exact steps.drains.settles steps.coherent (settledFrom_size tree _) i r (Nat.not_lt.mp early) held

/-! ### The errors of a file -/

theorem mem_importersOf (held : s₁.graph.get? i = some r) :
    i ∈ s₁.graph.importersOf id ↔ some id ∈ r.importTargets := by
  simp only [FileGraph.importersOf, mem_map, mem_filter, contains_iff_mem]
  constructor
  · rintro ⟨q, ⟨mem, imports⟩, number⟩
    obtain ⟨j, there⟩ := mem_records_iff.mp mem
    rw [steps.coherent.ids there] at number
    subst number
    cases held.symm.trans there
    exact imports
  · intro imports
    exact ⟨r, ⟨mem_records_iff.mpr ⟨i, held⟩, imports⟩, steps.coherent.ids held⟩

theorem no_later_error (named : s'.Named i r) (early : i < s₁.graph.size) (file : r.key = d.file) :
    ¬∃ check ∈ later, check.error? = some d := by
  rintro ⟨check, mem, error⟩
  have traced := steps.traced_later.2 check mem
  have here := traced.importer_eq (Grows.refl s').toContinues named error file.symm
  rcases traced.importer with own | new
  · cases own
  · have new : s₁.graph.size ≤ check.importer := new
    omega

theorem mem_other (named : s'.Named i r) (outside : i ∉ s₁.graph.importersOf id) (code : d.code = .importNotExported) :
    d ∈ s'.log.forFile r.key ↔ d ∈ (s.forget id path.clean).log.forFile r.key ∨
      r.key = d.file ∧ ∃ check ∈ checks ++ later, check.error? = some d := by
  rw [steps.drains.mem_importErrors code, ← steps.rechecked, mem_recheck_other _ code, steps.run.mem_importErrors code]
  · simp only [mem_append, or_and_right, exists_or, and_or_left, or_assoc]
  · intro j mem q there key
    have here := (steps.continues.named named rfl).file there key
    exact outside (here ▸ mem)

theorem mem_old (named : s'.Named i r) (early : i < s.graph.size) (other : i ≠ id)
    (outside : i ∉ s₁.graph.importersOf id) (code : d.code = .importNotExported) :
    d ∈ s'.log.forFile r.key ↔ d ∈ s.log.forFile r.key := by
  rw [steps.mem_other named outside code, Session.forget, DiagnosticLog.forFile_clearFile]
  have unchecked : ¬(r.key = d.file ∧ ∃ check ∈ checks ++ later, check.error? = some d) := by
    rintro ⟨file, check, mem, error⟩
    rcases mem_append.mp mem with first | last
    · have traced := steps.traced.2 check first
      have here := traced.importer_eq steps.continues named error file.symm
      rcases traced.importer with own | new
      · exact other (here.symm.trans (Option.some.inj own).symm)
      · rw [size_forget] at new
        omega
    · exact steps.no_later_error named (Nat.lt_of_lt_of_le early steps.size_le) file ⟨check, last, error⟩
  have apart : r.key ≠ path.clean.key := by
    intro same
    obtain ⟨q, own, place, -⟩ := steps.get?_edited
    exact other ((steps.continues_old.named named rfl).file own (by rw [same, FileRecord.key, place])).symm
  rw [if_neg apart, or_iff_left unchecked]

/-! ### What is up to date -/

theorem target_lt (held : s₁.graph.get? x = some r) (leads : r.importTarget? index = some t) : t < s₁.graph.size :=
  (steps.shaped x r held (by simp)).targets t
    (mem_of_getElem? (FileRecord.importTarget?_eq_some_iff.mp leads))

theorem sameSurface (there : s₁.graph.get? t = some target) : SameSurface s₁ s' t := by
  refine Session.sameSurface fun x star => ?_
  have held : ∃ a, s₁.graph.get? x = some a := by
    cases star with
    | refl => exact ⟨target, there⟩
    | tail _ step =>
      obtain ⟨b, before, index, -, leads⟩ := step
      exact get?_of_lt (steps.target_lt before leads)
  obtain ⟨a, before⟩ := held
  exact ⟨a, a, steps.continues.sameExports steps.traced.1 before (steps.kept before)⟩

theorem reported_importer (link : s'.Checkable i r t target) (early : i < s₁.graph.size)
    (imports : some id ∈ r.importTargets) : s'.Reported r t target := by
  intro d code context
  obtain ⟨r', held⟩ := get?_of_lt early
  cases link.present.symm.trans (steps.kept held)
  obtain ⟨b, there⟩ := get?_of_lt ((steps.shaped i r held (by simp)).targets t link.imports)
  cases link.there.symm.trans (steps.kept there)
  have same := steps.sameSurface there
  have error? (index : Nat) : s₁.recheckError? i index = some d ↔ r.importTarget? index = some t ∧
      s'.absentNames r index t ≠ [] ∧ d = notExported r (s'.absentNames r index t) target.key := by
    rw [recheckError?_iff held there (steps.continues.named link.targetNamed rfl)
      (state_ne_of_isCompiled link.targetCompiled) (same.isOpen.trans link.closed) (steps.target_lt held) context,
      same.absentNames]
  have unchecked : ¬(r.key = d.file ∧ ∃ check ∈ later, check.error? = some d) := by
    rintro ⟨file, error⟩
    exact steps.no_later_error link.named early file error
  rw [steps.drains.mem_importErrors code, or_iff_left unchecked, ← steps.rechecked,
    mem_recheck_own ((steps.mem_importersOf held).mpr imports) held code]
  · constructor
    · rintro ⟨index, -, error⟩
      exact ⟨index, (error? index).mp error⟩
    · rintro ⟨index, leads, something⟩
      exact ⟨index, FileRecord.lt_of_importTarget? leads, (error? index).mpr ⟨leads, something⟩⟩
  · intro j _ q there' key
    exact (steps.continues.named link.named rfl).file there' key

theorem kept_unaffected (unaffected : s'.Unaffected s.graph.size id i r t) (reached : s'.graph.StarReaches t x) :
    (∃ a, s.graph.get? x = some a ∧ (s.forget id path.clean).graph.get? x = some a ∧
      s₁.graph.get? x = some a ∧ s'.graph.get? x = some a) ∧ some id ≠ some x ∨
    x = id ∧ i = id ∧ starImports r.exports = [] := by
  obtain ⟨early, edited⟩ := unaffected x reached
  by_cases own : x = id
  · exact .inr ⟨own, edited own⟩
  · obtain ⟨a, before⟩ := get?_of_lt early
    obtain ⟨forgotten, there⟩ := steps.kept_old before own
    exact .inl ⟨⟨a, before, forgotten, there, steps.kept there⟩, fun same => own (Option.some.inj same).symm⟩

theorem reported_old (consistent : s.Consistent) (unaffected : s'.Unaffected s.graph.size id i r t)
    (link : s'.Checkable i r t target) (early : i < s.graph.size) (other : i ≠ id)
    (outside : i ∉ s₁.graph.importersOf id) : s'.Reported r t target := by
  intro d code context
  have kept : ∀ x, s'.graph.StarReaches t x → ∃ a, s.graph.get? x = some a ∧ s'.graph.get? x = some a := by
    intro x reached
    rcases steps.kept_unaffected unaffected reached with ⟨⟨a, before, -, -, last⟩, -⟩ | ⟨-, own, -⟩
    · exact ⟨a, before, last⟩
    · exact absurd own other
  obtain ⟨r', present⟩ := get?_of_lt early
  cases link.present.symm.trans (steps.kept (steps.kept_old present other).2)
  obtain ⟨b, there, last⟩ := kept t .refl
  cases link.there.symm.trans last
  have same : SameSurface s' s t := steps.continues_old.sameSurface steps.steady.noted kept
  have link' : s.Checkable i r t target :=
    { link with
      present := present
      named := steps.continues_old.named link.named rfl
      there := there
      targetNamed := steps.continues_old.named link.targetNamed rfl
      closed := same.isOpen ▸ link.closed }
  rw [steps.mem_old link.named early other outside code, consistent i r t target link' d code context]
  simp only [same.absentNames]

section

variable (touched : i = id ∨ s.graph.size ≤ i)
include touched

theorem checked (held : s'.graph.get? i = some r) (leads : r.importTarget? index = some t) :
    ∃ check ∈ checks ++ later, check.About i index := by
  have unlinked : ¬(s.forget id path.clean).Linked i index := by
    rintro ⟨a, t, before, filled⟩
    rcases touched with rfl | new
    · obtain ⟨q, -, -, blank⟩ := steps.get?_edited
      cases before.symm.trans blank
      cases filled
    · have early := get?_eq_some_lt before
      rw [size_forget] at early
      omega
  rcases steps.drains.checked ⟨r, t, held, leads⟩ with before | ⟨check, mem, about⟩
  · obtain ⟨check, mem, about⟩ := (steps.run.checked before).resolve_left unlinked
    exact ⟨check, mem_append_left _ mem, about⟩
  · exact ⟨check, mem_append_right _ mem, about⟩

theorem not_mem_forget (held : s'.graph.get? i = some r) (named : s'.Named i r)
    (code : d.code = .importNotExported) : d ∉ (s.forget id path.clean).log.forFile r.key := by
  intro reported
  rcases touched with rfl | new
  · obtain ⟨q, own, place, -⟩ := steps.get?_edited
    have key : r.key = path.clean.key := by rw [steps.continues_old.key_eq own held, FileRecord.key, place]
    rw [Session.forget, DiagnosticLog.forFile_clearFile, if_pos key] at reported
    cases reported
  · obtain ⟨j, q, there, key⟩ := steps.steady.owned.forget id path.clean d r.key code reported
    have early := get?_eq_some_lt there
    rw [(steps.continues_forget.named named rfl).file there key, size_forget] at early
    omega

theorem error?_iff (unaffected : s'.Unaffected s.graph.size id i r t) (link : s'.Checkable i r t target)
    (stranger : t ≠ id) (mem : check ∈ checks ++ later) (here : check.importer = i)
    (context : d.context = some target.key) :
    check.error? = some d ↔ check.package = none ∧ r.importTarget? check.index = some t ∧
      s'.absentNames r check.index t ≠ [] ∧ d = notExported r (s'.absentNames r check.index t) target.key := by
  subst here
  have settled := steps.settled link.present touched
  have shaped := settled.shaped (steps.drains.grows.coherent steps.coherent)
  obtain ⟨m, surface, -⟩ := shaped.compiled link.compiled
  obtain ⟨early, -⟩ := unaffected t .refl
  obtain ⟨b, before⟩ := get?_of_lt early
  obtain ⟨forgotten, there⟩ := steps.kept_old before stranger
  cases link.there.symm.trans (steps.kept there)
  rcases mem_append.mp mem with first | last
  · refine (steps.traced.2 check first).error?_iff steps.continues steps.coherent_forget link settled surface
      ⟨fun same => stranger (Option.some.inj same).symm, forgotten⟩ (fun x reached => ?_) context
    rcases steps.kept_unaffected unaffected reached with ⟨⟨a, -, forgotten, -, last⟩, other⟩ | ⟨rfl, own, none⟩
    · exact .inl ⟨other, a, forgotten, last⟩
    · exact .inr ⟨own.symm, none⟩
  · refine (steps.traced_later.2 check last).error?_iff (Grows.refl s').toContinues steps.coherent link settled surface
      ⟨by simp, there⟩ (fun x reached => ?_) context
    rcases steps.kept_unaffected unaffected reached with ⟨⟨a, -, -, there, last⟩, -⟩ | ⟨rfl, own, none⟩
    · exact .inl ⟨by simp, a, there, last⟩
    · exact .inr ⟨own.symm, none⟩

theorem reported_compiled (unaffected : s'.Unaffected s.graph.size id i r t) (link : s'.Checkable i r t target)
    (stranger : t ≠ id) (outside : i ∉ s₁.graph.importersOf id) : s'.Reported r t target := by
  intro d code context
  have fresh := steps.not_mem_forget touched link.present link.named code
  rw [steps.mem_other link.named outside code, or_iff_right fresh]
  constructor
  · rintro ⟨file, check, mem, error⟩
    have here : check.importer = i := by
      rcases mem_append.mp mem with first | last
      · exact (steps.traced.2 check first).importer_eq steps.continues link.named error file.symm
      · exact (steps.traced_later.2 check last).importer_eq (Grows.refl s').toContinues link.named error file.symm
    exact ⟨check.index, ((steps.error?_iff touched unaffected link stranger mem here context).mp error).2⟩
  · rintro ⟨index, leads, something, rfl⟩
    obtain ⟨check, mem, here, rfl, file⟩ := steps.checked touched link.present leads
    exact ⟨rfl, check, mem,
      (steps.error?_iff touched unaffected link stranger mem here context).mpr ⟨file, leads, something, rfl⟩⟩

end

theorem reported_unaffected (consistent : s.Consistent) (unaffected : s'.Unaffected s.graph.size id i r t)
    (link : s'.Checkable i r t target) : s'.Reported r t target := by
  by_cases importer : i ∈ s₁.graph.importersOf id
  · obtain ⟨q, mem, number⟩ := mem_map.mp importer
    obtain ⟨j, there⟩ := mem_records_iff.mp (mem_filter.mp mem).1
    cases (steps.coherent.ids there).symm.trans number
    cases link.present.symm.trans (steps.kept there)
    exact steps.reported_importer link (get?_eq_some_lt there) ((steps.mem_importersOf there).mp importer)
  · by_cases touched : i = id ∨ s.graph.size ≤ i
    · refine steps.reported_compiled touched unaffected link ?_ importer
      -- an edited file that imports itself has been checked again
      rintro rfl
      obtain ⟨early, edited⟩ := unaffected t .refl
      obtain ⟨r', there⟩ := get?_of_lt (Nat.lt_of_lt_of_le early steps.size_le)
      cases (edited rfl).1
      cases link.present.symm.trans (steps.kept there)
      exact importer ((steps.mem_importersOf there).mpr link.imports)
    · rw [not_or, Nat.not_le] at touched
      exact steps.reported_old consistent unaffected link touched.2 touched.1 importer

end Recompiles

/-! ### Edits -/

theorem edit_steady (steady : Steady s) (e) : Steady (s.edit e) := by
  unfold edit
  cases compiled : s.recompile e.tree e.path with
  | none => exact steady
  | some outcome =>
    obtain ⟨s₁, log, checks, later, steps⟩ := steady.recompiles compiled
    exact ⟨(recompile_resting steady.resting compiled).1, steps.traced_later.1, steps.owned⟩

theorem edits_steady (edits : List Edit) (steady : Steady s) : Steady (edits.foldl edit s) := by
  induction edits generalizing s with
  | nil => exact steady
  | cons e rest ih => exact ih (edit_steady steady e)

theorem Steady.edit_steps (steady : Steady s) {e : Edit} (known : s.graph.lookup? e.path.clean = some id) :
    ∃ s₁ log checks later, Recompiles e.tree e.path id s s₁ log (s.edit e) checks later := by
  have compiled : s.recompile e.tree e.path = some (s.edit e, id) := by simp [edit, recompile, known]
  exact steady.recompiles compiled

/-- However a session has been edited, if its import errors are up to date and one of its files is compiled again,
then the errors of the files that import this file are up to date again, and so are all errors about files whose star
re-exports lead neither to this file nor to a new one. A file that was there before and does not import the edited
file keeps the import errors that it had, whether they are still right or not. -/
theorem edit_revalidates_imports (resolver : Resolver) (library : Bool) (globals : SortedMap String String)
    (tree : FileTree) (entry : Path) (edits : List Edit) (e : Edit) (id : Nat) :
    let s := edits.foldl edit ((new resolver library globals).compileEntry tree entry).1
    let s' := s.edit e
    s.Consistent → s.graph.lookup? e.path.clean = some id →
      (∀ i r t target, s'.Checkable i r t target →
        i < s.graph.size ∧ some id ∈ r.importTargets ∨ s'.Unaffected s.graph.size id i r t →
        s'.Reported r t target) ∧
      ∀ i r d, s'.graph.get? i = some r → s'.Named i r → i < s.graph.size → i ≠ id → some id ∉ r.importTargets →
        d.code = .importNotExported → (d ∈ s'.log.forFile r.key ↔ d ∈ s.log.forFile r.key) := by
  intro s s' consistent known
  have steady : Steady s := edits_steady edits (compileEntry_steady resolver library globals tree entry)
  obtain ⟨s₁, log, checks, later, steps⟩ := steady.edit_steps known
  refine ⟨fun i r t target link reason => ?_, fun i r d present named early other stranger code => ?_⟩
  · rcases reason with ⟨early, imports⟩ | unaffected
    · exact steps.reported_importer link (Nat.lt_of_lt_of_le early steps.size_le) imports
    · exact steps.reported_unaffected consistent unaffected link
  · obtain ⟨r', before⟩ := get?_of_lt early
    have there := (steps.kept_old before other).2
    cases present.symm.trans (steps.kept there)
    exact steps.mem_old named early other (fun importer => stranger ((steps.mem_importersOf there).mp importer)) code

/-- `mid.js` imports a name from `leaf.js` and passes on all that `leaf.js` exports, and `top.js` imports the name from
`mid.js`. -/
def chainTree (leaf : String) : FileTree where
  entries := .ofList
    [(["w"], .directory),
      (["w", "top.js"], .file (.text "import \x7bx\x7d from './mid.js'")),
      (["w", "mid.js"], .file (.text "import \x7bx\x7d from './leaf.js'\nexport * from './leaf.js'")),
      (["w", "leaf.js"], .file (.text leaf))]

def chainBuild : Session :=
  ((new ⟨⟨"/w"⟩, [], []⟩ false ∅).compileEntry (chainTree "export let x") ⟨"/w/top.js"⟩).1

def chainEdit : Edit := ⟨chainTree "export let y", ⟨"/w/leaf.js"⟩⟩

theorem chainEdit_errors :
    let s' := chainBuild.edit chainEdit
    chainBuild.Clean ∧ chainBuild.graph.lookup? chainEdit.path.clean = some 2 ∧
      (∃ r target, s'.Checkable 1 r 2 target ∧ (1 < chainBuild.graph.size ∧ some 2 ∈ r.importTargets) ∧
        s'.log.forFile r.key = [notExported r ["x"] target.key]) ∧
      ∃ r target, s'.Checkable 0 r 1 target ∧ r.importTarget? 0 = some 1 ∧ s'.absentNames r 0 1 = ["x"] ∧
        s'.log.forFile r.key = [] := by
  decide +kernel

/-- The error of `mid.js`, which has been checked again. -/
theorem importer_of_edited_revalidated :
    let s' := chainBuild.edit chainEdit
    chainBuild.Consistent ∧ chainBuild.graph.lookup? chainEdit.path.clean = some 2 ∧
      ∃ r target, s'.Checkable 1 r 2 target ∧ s'.Reported r 2 target ∧
        s'.log.forFile r.key = [notExported r ["x"] target.key] := by
  obtain ⟨clean, known, ⟨r, target, link, importer, log⟩, -⟩ := chainEdit_errors
  have revalidated := edit_revalidates_imports ⟨⟨"/w"⟩, [], []⟩ false ∅ (chainTree "export let x") ⟨"/w/top.js"⟩ []
    chainEdit 2
  rw [foldl_nil, ← chainBuild] at revalidated
  refine ⟨clean.consistent, known, r, target, link, ?_, log⟩
  exact (revalidated clean.consistent known).1 1 r 2 target link (.inl importer)

/-- The missing error of `top.js`, which imports the name through the star re-export. -/
theorem star_hides_removed_name :
    let s' := chainBuild.edit chainEdit
    chainBuild.Consistent ∧ chainBuild.graph.lookup? chainEdit.path.clean = some 2 ∧ ¬s'.Consistent ∧
      ∃ r target, s'.Checkable 0 r 1 target ∧ r.importTarget? 0 = some 1 ∧ s'.absentNames r 0 1 = ["x"] ∧
        s'.log.forFile r.key = [] := by
  obtain ⟨clean, known, -, r, target, link, leads, absent, log⟩ := chainEdit_errors
  refine ⟨clean.consistent, known, fun consistent => ?_, r, target, link, leads, absent, log⟩
  have reported := (consistent 0 r 1 target link (notExported r ["x"] target.key) rfl rfl).mpr
    ⟨0, leads, by simp [absent], by rw [absent]⟩
  rw [log] at reported
  cases reported

end ComponentCompiler.Session
