import ComponentCompiler.Diagnostic.Log
import ComponentCompiler.Proofs.Collection.SortedMap

/-! What a log holds for a file after a report, and after diagnostics have been dropped. -/

namespace ComponentCompiler.DiagnosticLog

open List Option SortedMap

variable {log log' : DiagnosticLog}

theorem forFile_push (log : DiagnosticLog) (d) (file) :
    (log.push d).forFile file =
      if file = d.file ∧ d ∉ log.forFile file then log.forFile file ++ [d] else log.forFile file := by
  unfold push
  by_cases known : d ∈ log.forFile d.file
  · have same : ¬ (file = d.file ∧ d ∉ log.forFile file) := by
      rintro ⟨rfl, absent⟩
      exact absent known
    simp [known, same]
  · have inserted : ∀ bucket, (⟨log.entries.insert d.file bucket⟩ : DiagnosticLog).forFile file =
        if file = d.file then bucket else log.forFile file := by
      intro bucket
      by_cases same : file = d.file <;> simp [forFile, get?_insert, same]
    by_cases same : file = d.file
    · subst same
      simp [known, inserted]
    · simp [known, same, inserted]

@[simp]
theorem mem_forFile_push : e ∈ (log.push d).forFile file ↔ e ∈ log.forFile file ∨ file = d.file ∧ e = d := by
  rw [forFile_push]
  split
  · rename_i added
    simp [added.1]
  · rename_i kept
    constructor
    · exact .inl
    · rintro (old | ⟨here, rfl⟩)
      · exact old
      · exact Decidable.byContradiction fun absent => kept ⟨here, absent⟩

theorem mem_forFile_extend : e ∈ (log.extend ds).forFile file ↔ e ∈ log.forFile file ∨ e ∈ ds ∧ file = e.file := by
  induction ds generalizing log with
  | nil => simp [extend]
  | cons d rest ih =>
    have next : log.extend (d :: rest) = (log.push d).extend rest := rfl
    rw [next, ih, mem_forFile_push, mem_cons]
    constructor
    · rintro ((old | ⟨here, rfl⟩) | ⟨later, here⟩)
      · exact .inl old
      · exact .inr ⟨.inl rfl, here⟩
      · exact .inr ⟨.inr later, here⟩
    · rintro (old | ⟨rfl | later, here⟩)
      · exact .inl (.inl old)
      · exact .inl (.inr ⟨here, rfl⟩)
      · exact .inr ⟨later, here⟩

theorem nodup_forFile_extend (single : ∀ file, (log.forFile file).Nodup) (ds) (file) :
    ((log.extend ds).forFile file).Nodup := by
  induction ds generalizing log with
  | nil => exact single file
  | cons d rest ih =>
    refine @ih (log.push d) fun file => ?_
    rw [forFile_push]
    split
    · rename_i added
      refine nodup_append.mpr ⟨single file, pairwise_singleton _ d, ?_⟩
      rintro old mem _ new rfl
      exact added.2 (mem_singleton.mp new ▸ mem)
    · exact single file

theorem forFile_of_isEmpty (empty : log.isEmpty) (file) : log.forFile file = [] := by
  unfold forFile get?
  rw [List.isEmpty_iff.mp empty]
  rfl

theorem mem_without {bucket : List Diagnostic} : d ∈ without codes bucket ↔ d ∈ bucket ∧ d.code ∉ codes := by
  simp [without]

theorem get?_clearCodes (log : DiagnosticLog) (codes) (file) :
    (log.clearCodes codes).entries.get? file =
      if without codes (log.forFile file) = [] then none else some (without codes (log.forFile file)) := by
  unfold clearCodes forFile
  rw [get?_filter, get?_map]
  cases log.entries.get? file with
  | none => rfl
  | some bucket =>
    rw [map_some, filter_some, getD_some]
    cases without codes bucket <;> rfl

theorem forFile_clearCodes (log : DiagnosticLog) (codes) (file) :
    (log.clearCodes codes).forFile file = without codes (log.forFile file) := by
  rw [forFile, get?_clearCodes]
  split <;> simp_all

theorem forFile_clearFile (log : DiagnosticLog) (cleared file) :
    (log.clearFile cleared).forFile file = if file = cleared then [] else log.forFile file := by
  unfold clearFile forFile
  rw [get?_erase]
  split <;> rfl

theorem forFile_clearFileCodes (log : DiagnosticLog) (cleared) (codes) (file) :
    (log.clearFileCodes cleared codes).forFile file =
      if file = cleared then without codes (log.forFile file) else log.forFile file := by
  unfold clearFileCodes
  split
  · rename_i absent
    by_cases same : file = cleared
    · simp [same, forFile, absent, without]
    · simp [same]
  · rename_i bucket present
    by_cases same : file = cleared
    · have held : log.forFile file = bucket := by simp [forFile, same, present]
      rw [if_pos same, held]
      cases kept : without codes bucket with
      | nil => simp [forFile_clearFile, same]
      | cons first rest => simp [forFile, get?_insert, same]
    · dsimp only
      split
      · simp [forFile_clearFile, same]
      · simp [forFile, get?_insert, same]

theorem clearCodes_congr (same : ∀ file, without codes (log.forFile file) = without codes (log'.forFile file)) :
    log.clearCodes codes = log'.clearCodes codes := by
  have entries : (log.clearCodes codes).entries = (log'.clearCodes codes).entries := by
    apply ext_get?
    intro file
    rw [get?_clearCodes, get?_clearCodes, same]
  exact congrArg DiagnosticLog.mk entries

theorem without_append (codes) (bucket more) :
    without codes (bucket ++ more) = without codes bucket ++ without codes more := filter_append ..

theorem without_forFile_extend (dropped : ∀ d ∈ ds, d.code ∈ codes) (log : DiagnosticLog) (file) :
    without codes ((log.extend ds).forFile file) = without codes (log.forFile file) := by
  induction ds generalizing log with
  | nil => rfl
  | cons d rest ih =>
    have gone : without codes [d] = [] := by
      simp [without, dropped d mem_cons_self]
    have next : log.extend (d :: rest) = (log.push d).extend rest := rfl
    rw [next, ih (fun e mem => dropped e (mem_cons_of_mem _ mem)), forFile_push]
    split
    · rw [without_append, gone, append_nil]
    · rfl

theorem forFile_clearCodes_clearCodes (log : DiagnosticLog) (codes) :
    (log.clearCodes codes).clearCodes codes = log.clearCodes codes := by
  apply clearCodes_congr
  intro file
  rw [forFile_clearCodes]
  simp [without]

theorem clearCodes_extend_congr (same : log'.clearCodes codes = log.clearCodes codes) (ds) :
    (log'.extend ds).clearCodes codes = (log.extend ds).clearCodes codes := by
  induction ds generalizing log log' with
  | nil => exact same
  | cons d rest ih =>
    have next : ∀ log : DiagnosticLog, log.extend (d :: rest) = (log.push d).extend rest := fun _ => rfl
    rw [next, next]
    apply ih
    apply clearCodes_congr
    intro file
    have left : without codes (log'.forFile file) = without codes (log.forFile file) := by
      rw [← forFile_clearCodes, ← forFile_clearCodes, same]
    by_cases dropped : d.code ∈ codes
    · have gone : ∀ ds, without codes (ds ++ [d]) = without codes ds := by
        intro ds
        rw [without_append]
        simp [without, dropped]
      rw [forFile_push, forFile_push]
      split <;> split <;> simp only [gone, left]
    · -- whether the diagnostic is there already shows in what is left
      have known : ∀ log : DiagnosticLog, d ∈ log.forFile file ↔ d ∈ without codes (log.forFile file) := by
        intro log
        simp [without, dropped]
      simp only [forFile_push, known log', known log, left]
      split
      · rw [without_append, without_append, left]
      · exact left

end ComponentCompiler.DiagnosticLog
