import ComponentCompiler.Proofs.Graph.ExportClosure

/-!
Checks of imports that are made again. Only the log changes, so that all of them see the same files.
-/

namespace ComponentCompiler.Session

open List

variable {s : Session} {r : FileRecord} {d : Diagnostic} {index : Nat}

theorem collectExports_withLog (s : Session) (log : DiagnosticLog) (fuel : Nat) :
    ({ s with log := log } : Session).collectExports fuel = s.collectExports fuel := by
  induction fuel with
  | zero => rfl
  | succ fuel ih =>
    funext walk id
    simp only [collectExports, ih]
    rfl

theorem exportSurface_withLog (s : Session) (log : DiagnosticLog) (id : Nat) :
    ({ s with log := log } : Session).exportSurface id = s.exportSurface id := by
  unfold exportSurface
  rw [collectExports_withLog]

theorem importError?_withLog (s : Session) (log : DiagnosticLog) (importer index : Nat) :
    ({ s with log := log } : Session).importError? importer index = s.importError? importer index := by
  unfold importError? missingNames
  simp only [exportSurface_withLog]

def recheckError? (s : Session) (importer index : Nat) : Option Diagnostic :=
  (s.graph.get? importer).bind fun r =>
    if (r.importTarget? index).isSome then s.importError? importer index
    else ((r.resolved? index).bind (·.package?)).bind fun package =>
      if s.library then s.packageError? importer index package else none

theorem recheckError?_withLog (s : Session) (log : DiagnosticLog) (importer index : Nat) :
    ({ s with log := log } : Session).recheckError? importer index = s.recheckError? importer index := by
  unfold recheckError?
  rw [importError?_withLog]
  rfl

theorem recheckImport_eq (importer) (s) (index) :
    recheckImport importer s index = s.reportAny (s.recheckError? importer index) := by
  unfold recheckImport recheckError?
  cases s.graph.get? importer with
  | none => rfl
  | some r =>
    rw [Option.bind_some]
    dsimp only
    split
    · rfl
    · cases (r.resolved? index).bind (·.package?) with
      | none => rfl
      | some package =>
        rw [Option.bind_some]
        dsimp only
        split <;> rfl

section

variable (held : s.graph.get? i = some r)
include held

theorem file_of_importError? (reported : s.importError? i index = some d) :
    d.file = r.key := by
  simp only [importError?, held, Option.bind_eq_bind, Option.bind_some, Option.bind_eq_some_iff] at reported
  obtain ⟨target, -, reported⟩ := reported
  split at reported
  · cases reported
  · cases reported
    rfl

theorem packageError?_eq_some (reported : s.packageError? i index package = some d) :
    d.file = r.key ∧ d.context = some package ∧ s.registry.packages.contains package := by
  simp only [packageError?, held, Option.bind_eq_bind, Option.bind_some, Option.bind_eq_some_iff] at reported
  obtain ⟨p, known, reported⟩ := reported
  split at reported
  · cases reported
  · cases reported
    exact ⟨rfl, rfl, Option.isSome_iff_exists.mpr ⟨p, known⟩⟩

theorem file_of_recheckError? (reported : s.recheckError? i index = some d) :
    d.file = r.key := by
  simp only [recheckError?, held, Option.bind_some] at reported
  split at reported
  · exact file_of_importError? held reported
  · obtain ⟨package, -, reported⟩ := Option.bind_eq_some_iff.mp reported
    split at reported
    · exact (packageError?_eq_some held reported).1
    · cases reported

theorem mem_foldl_recheckImport (indices : List Nat) (log : DiagnosticLog) :
    d ∈ (indices.foldl (recheckImport i) { s with log := log }).log.forFile file ↔
      d ∈ log.forFile file ∨ file = r.key ∧ ∃ index ∈ indices, s.recheckError? i index = some d := by
  induction indices generalizing log with
  | nil => simp
  | cons index rest ih =>
    rw [foldl_cons, recheckImport_eq, recheckError?_withLog]
    obtain ⟨log', same⟩ := reportAny_log { s with log := log } (s.recheckError? i index)
    have reported : d ∈ (({ s with log := log } : Session).reportAny (s.recheckError? i index)).log.forFile file ↔
        d ∈ log.forFile file ∨ file = d.file ∧ s.recheckError? i index = some d := mem_forFile_reportAny
    rw [same] at reported ⊢
    rw [ih log', reported]
    have owned : file = d.file ∧ s.recheckError? i index = some d ↔ file = r.key ∧ s.recheckError? i index = some d :=
      and_congr_left fun here => by rw [file_of_recheckError? held here]
    simp only [owned, mem_cons, exists_eq_or_imp, and_or_left, or_assoc]

theorem mem_recheckImports (code : d.code = .importNotExported) :
    d ∈ (s.recheckImports i).log.forFile file ↔
      if file = r.key then ∃ index < r.importTargets.length, s.recheckError? i index = some d
      else d ∈ s.log.forFile file := by
  unfold recheckImports
  rw [held]
  dsimp only
  rw [mem_foldl_recheckImport held, DiagnosticLog.forFile_clearFileCodes]
  split
  · rename_i here
    simp [DiagnosticLog.mem_without, code, here]
  · rename_i apart
    simp [apart]

end

theorem mem_recheck_other (importers : List Nat) (code : d.code = .importNotExported)
    (apart : ∀ j ∈ importers, ∀ q, s.graph.get? j = some q → q.key ≠ file) :
    d ∈ (importers.foldl recheckImports s).log.forFile file ↔ d ∈ s.log.forFile file := by
  induction importers generalizing s with
  | nil => rfl
  | cons j rest ih =>
    obtain ⟨log, same⟩ := recheckImports_log s j
    have later : ∀ k ∈ rest, ∀ q, (s.recheckImports j).graph.get? k = some q → q.key ≠ file := by
      rw [same]
      exact fun k mem => apart k (mem_cons_of_mem _ mem)
    rw [foldl_cons, ih later]
    cases held : s.graph.get? j with
    | none => rw [recheckImports, held]
    | some q => rw [mem_recheckImports held code, if_neg (Ne.symm (apart j mem_cons_self q held))]

theorem mem_recheck_own {importers : List Nat} (mem : i ∈ importers) (held : s.graph.get? i = some r)
    (code : d.code = .importNotExported)
    (apart : ∀ j ∈ importers, ∀ q, s.graph.get? j = some q → q.key = r.key → j = i) :
    d ∈ (importers.foldl recheckImports s).log.forFile r.key ↔
      ∃ index < r.importTargets.length, s.recheckError? i index = some d := by
  induction importers generalizing s with
  | nil => cases mem
  | cons j rest ih =>
    obtain ⟨log, same⟩ := recheckImports_log s j
    have held' : (s.recheckImports j).graph.get? i = some r := by
      rw [same]
      exact held
    rw [foldl_cons]
    by_cases again : i ∈ rest
    · have later : ∀ k ∈ rest, ∀ q, (s.recheckImports j).graph.get? k = some q → q.key = r.key → k = i := by
        rw [same]
        exact fun k inside => apart k (mem_cons_of_mem _ inside)
      rw [ih again held' later, same]
      simp only [recheckError?_withLog]
    · -- the file is checked here for the last time
      have here : i = j := (mem_cons.mp mem).resolve_right again
      subst here
      rw [mem_recheck_other rest code, mem_recheckImports held code, if_pos rfl]
      intro k inside q there key
      rw [same] at there
      have equal := apart k (mem_cons_of_mem _ inside) q there key
      exact again (equal ▸ inside)

end ComponentCompiler.Session
