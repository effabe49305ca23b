import ComponentCompiler.Proofs.Graph.Run
import ComponentCompiler.Proofs.SourceModule.Extract

/-!
Import errors come from checks of imports and from nothing else. Main statement:
`Builds.mem_importErrors`, the import errors in the log of a build are those that the checks of its
run report.
-/

namespace ComponentCompiler

open List

theorem Registry.code_of_register (r : Registry) (definition) :
    ∀ d ∈ (r.register definition).diagnostics, d.code = .duplicateRegistration ∨ d.code = .elementSelector := by
  intro d mem
  unfold register at mem
  split at mem
  · rw [mem_singleton.mp mem]
    exact .inl rfl
  · rw [Option.mem_toList] at mem
    unfold selectorDiagnostic? at mem
    split at mem
    · cases mem
    · split at mem
      · split at mem
        · cases mem
          exact .inr rfl
        · cases mem
      · cases mem
        exact .inr rfl

namespace Session

variable {s s' : Session}
variable {d : Diagnostic} {file : String}

theorem code_of_loadSurface (loaded : s.loadSurface tree r = .ok m) :
    ∀ d ∈ m.diagnostics, d.code = .annotationTarget := by
  unfold loadSurface at loaded
  split at loaded
  · cases loaded
  · split at loaded
    · rename_i extracted
      cases loaded
      exact (SourceModule.sound_of_extract extracted).unattached
    · cases loaded

def fatalCodes : List DiagnosticCode := [.importResolution, .malformedScript, .duplicateDeclaration]

theorem code_mem_fatalCodes (failed : s.loadSurface tree r = .error d) : d.code ∈ fatalCodes := by
  unfold loadSurface at failed
  split at failed
  · cases failed
    simp [fatalCodes]
  · split at failed
    · cases failed
    · rename_i refused
      cases failed
      rcases SourceModule.code_of_extract_error refused with code | code <;> simp [code, fatalCodes]

def SameImportErrors (s s' : Session) : Prop :=
  ∀ d file, d.code = .importNotExported → (d ∈ s'.log.forFile file ↔ d ∈ s.log.forFile file)

theorem SameImportErrors.trans (first : SameImportErrors s t) (second : SameImportErrors t u) :
    SameImportErrors s u := fun d file code => (second d file code).trans (first d file code)

theorem sameImportErrors_of_log_eq (same : s'.log = s.log) : SameImportErrors s s' := by
  intro d file _
  rw [same]

theorem sameImportErrors_report (other : d.code ≠ .importNotExported) : SameImportErrors s (s.report d) := by
  intro e file code
  rw [report, DiagnosticLog.mem_forFile_push]
  constructor
  · rintro (old | ⟨-, rfl⟩)
    · exact old
    · exact absurd code other
  · exact .inl

theorem sameImportErrors_extend (registry) (others : ∀ d ∈ ds, d.code ≠ .importNotExported) :
    SameImportErrors s { s with registry := registry, log := s.log.extend ds } := by
  intro e file code
  rw [DiagnosticLog.mem_forFile_extend]
  constructor
  · rintro (old | ⟨mem, -⟩)
    · exact old
    · exact absurd code (others e mem)
  · exact .inl

theorem sameImportErrors_foldl {α : Type} {f : Session → α → Session} (step : ∀ s a, SameImportErrors s (f s a))
    (items : List α) (s) : SameImportErrors s (items.foldl f s) := by
  induction items generalizing s with
  | nil => exact sameImportErrors_of_log_eq rfl
  | cons first rest ih => exact (step s first).trans (ih (f s first))

theorem log_fail (id) : (s.fail id).log = s.log := by
  unfold fail
  split <;> rfl

theorem log_noteImport (tree) (r) (index) (found) :
    (s.noteImport tree r index found).log = s.log := by
  unfold noteImport
  dsimp only
  split
  · unfold registerPackage
    split
    · rfl
    · split <;> rfl
  · rfl

theorem sameImportErrors_registerBlock (id) (r) (m) (s)
    (block) : SameImportErrors s (registerBlock id r m s block) := by
  unfold registerBlock
  dsimp only
  split
  · exact sameImportErrors_of_log_eq rfl
  · have codes := s.registry.code_of_register (blockDefinition r m block)
    have kept := sameImportErrors_extend (s := s) (s.registry.register (blockDefinition r m block)).registry
      fun d mem => by rcases codes d mem with code | code <;> simp [code]
    split
    · exact kept.trans (sameImportErrors_of_log_eq rfl)
    · exact kept

theorem sameImportErrors_begin {id : Nat} {m : SourceModule} (codes : ∀ d ∈ m.diagnostics, d.code = .annotationTarget) :
    SameImportErrors s (s.begin id r m) := by
  unfold begin
  dsimp only
  have logged : SameImportErrors s { s with log := s.log.extend m.diagnostics } :=
    sameImportErrors_extend s.registry fun d mem => by simp [codes d mem]
  exact (logged.trans (sameImportErrors_foldl (sameImportErrors_registerBlock id r m) m.annotations _)).trans
    (sameImportErrors_of_log_eq rfl)

theorem sameImportErrors_requestLazy (tree) (r) (s) (load : LazyLoad) :
    SameImportErrors s (requestLazy tree r s load) := by
  unfold requestLazy
  dsimp only
  split
  · exact sameImportErrors_of_log_eq rfl
  · exact (sameImportErrors_report (by simp [unresolvedLazy])).trans (sameImportErrors_of_log_eq rfl)

theorem sameImportErrors_finish (tree) (r) (m) :
    SameImportErrors s (s.finish tree r m) :=
  (sameImportErrors_foldl (sameImportErrors_requestLazy tree r) m.lazyLoads s).trans (sameImportErrors_of_log_eq rfl)

theorem mem_forFile_reportAny :
    d ∈ (s.reportAny e?).log.forFile file ↔ d ∈ s.log.forFile file ∨ file = d.file ∧ e? = some d := by
  cases e? with
  | none => simp [reportAny]
  | some e =>
    rw [reportAny, report, DiagnosticLog.mem_forFile_push]
    constructor
    · rintro (old | ⟨here, rfl⟩)
      · exact .inl old
      · exact .inr ⟨here, rfl⟩
    · rintro (old | ⟨here, same⟩)
      · exact .inl old
      · cases same
        exact .inr ⟨here, rfl⟩

theorem Runs.mem_importErrors (run : Runs tree task s checks s') (code : d.code = .importNotExported) :
    d ∈ s'.log.forFile file ↔ d ∈ s.log.forFile file ∨ file = d.file ∧ ∃ check ∈ checks, check.error? = some d := by
  induction run with
  | visited => simp
  | entered _ _ ih => exact ih
  | unread _ failed =>
    have fatal := code_mem_fatalCodes failed
    rw [log_fail, sameImportErrors_report (fun same => by simp [same, fatalCodes] at fatal) d file code]
    simp
  | stopped _ loaded _ ih => rw [log_fail, ih, sameImportErrors_begin (code_of_loadSurface loaded) d file code]
  | finished _ loaded _ ih =>
    rw [sameImportErrors_finish _ _ _ d file code, ih, sameImportErrors_begin (code_of_loadSurface loaded) d file code]
  | followed => simp
  | unresolved =>
    rw [sameImportErrors_report (by simp [unresolvedImport]) d file code]
    simp
  | outside _ _ _ ih =>
    rw [ih, checkPackageImport, mem_forFile_reportAny, log_noteImport]
    simp only [mem_cons, exists_eq_or_imp, Check.error?, and_or_left, or_assoc]
  | linked _ _ _ _ fileIh restIh =>
    rw [restIh, checkImport, mem_forFile_reportAny]
    simp only [setTarget, Session.update]
    rw [fileIh, log_noteImport]
    simp only [mem_append, mem_cons, or_and_right, exists_or, exists_eq_left, Check.error?, and_or_left,
      or_assoc]

theorem Drains.mem_importErrors (drains : Drains tree cursor s checks s') (code : d.code = .importNotExported) :
    d ∈ s'.log.forFile file ↔ d ∈ s.log.forFile file ∨ file = d.file ∧ ∃ check ∈ checks, check.error? = some d := by
  induction drains with
  | done => simp
  | known _ _ _ ih => exact ih
  | chunk _ _ run _ ih =>
    rw [ih, run.mem_importErrors code]
    simp only [mem_append, or_and_right, exists_or, and_or_left, or_assoc]

theorem Builds.mem_importErrors {id : Nat} (builds : Builds tree entry s id checks s')
    (code : d.code = .importNotExported) :
    d ∈ s'.log.forFile file ↔ d ∈ s.log.forFile file ∨ file = d.file ∧ ∃ check ∈ checks, check.error? = some d := by
  obtain ⟨run, drains⟩ := builds
  rw [drains.mem_importErrors code, run.mem_importErrors code]
  simp only [mem_append, or_and_right, exists_or, and_or_left, or_assoc]

end Session

end ComponentCompiler
