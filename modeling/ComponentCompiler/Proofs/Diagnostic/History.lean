import ComponentCompiler.Proofs.Diagnostic.Log
import Mathlib.Data.List.Induction

/-! What a log holds after any changes. Main statement: `changes_leave_standing`. -/

namespace ComponentCompiler.DiagnosticLog

open List SortedMap

variable {log log' : DiagnosticLog} {ds pushed : List Diagnostic} {file : String}

/-! ### First occurrences -/

theorem eraseDups_concat (ds : List Diagnostic) (d) :
    (ds ++ [d]).eraseDups = if d ∈ ds then ds.eraseDups else ds.eraseDups ++ [d] := by
  have alone : [d].eraseDups = [d] := by simp [eraseDups_cons]
  rw [eraseDups_append]
  split <;> simp_all [removeAll]

theorem nodup_eraseDups (ds : List Diagnostic) : ds.eraseDups.Nodup := by
  induction ds using reverseRecOn with
  | nil => exact .nil
  | append_singleton ds d ih =>
    rw [eraseDups_concat]
    split
    · exact ih
    · rename_i new
      refine nodup_append.mpr ⟨ih, pairwise_singleton _ d, ?_⟩
      rintro old held _ last rfl
      exact new (mem_singleton.mp last ▸ mem_eraseDups.mp held)

theorem eraseDups_of_nodup (single : ds.Nodup) : ds.eraseDups = ds := by
  induction ds using reverseRecOn with
  | nil => rfl
  | append_singleton ds d ih =>
    obtain ⟨single, -, new⟩ := nodup_append.mp single
    rw [eraseDups_concat, if_neg fun old => new d old d mem_cons_self rfl, ih single]

theorem filter_eraseDups (p) (ds : List Diagnostic) : ds.eraseDups.filter p = (ds.filter p).eraseDups := by
  induction ds using reverseRecOn with
  | nil => rfl
  | append_singleton ds d ih =>
    rw [eraseDups_concat, filter_append]
    cases holds : p d with
    | true =>
      rw [filter_cons_of_pos holds, filter_nil, eraseDups_concat, ← ih]
      by_cases old : d ∈ ds <;> simp [old, holds]
    | false =>
      rw [filter_cons_of_neg (by simp [holds]), filter_nil, append_nil, ← ih]
      split <;> simp [holds]

/-- The diagnostics of a file, each where it comes first. -/
def bucket (file : String) (ds : List Diagnostic) : List Diagnostic := (ds.filter (·.file = file)).eraseDups

theorem mem_bucket : d ∈ bucket file ds ↔ d ∈ ds ∧ d.file = file := by
  simp [bucket]

theorem bucket_concat (file) (ds) (d) : bucket file (ds ++ [d]) =
    if file = d.file ∧ d ∉ bucket file ds then bucket file ds ++ [d] else bucket file ds := by
  by_cases here : d.file = file
  · simp [bucket, here, eraseDups_concat, ite_not]
  · simp [bucket, here, Ne.symm here]

theorem filter_bucket (p) (file) (ds) : (bucket file ds).filter p = bucket file (ds.filter p) := by
  rw [bucket, filter_eraseDups, filter_filter, bucket, filter_filter]
  simp only [Bool.and_comm]

/-! ### Changes -/

inductive Change where
  | push (d : Diagnostic)
  | extend (ds : List Diagnostic)
  | clearFile (file : String)
  | clearCodes (codes : List DiagnosticCode)
  | clearFileCodes (file : String) (codes : List DiagnosticCode)

def change (log : DiagnosticLog) : Change → DiagnosticLog
  | .push d => log.push d
  | .extend ds => log.extend ds
  | .clearFile file => log.clearFile file
  | .clearCodes codes => log.clearCodes codes
  | .clearFileCodes file codes => log.clearFileCodes file codes

namespace Change

def pushes : Change → List Diagnostic
  | push d => [d]
  | extend ds => ds
  | clearFile _ | clearCodes _ | clearFileCodes _ _ => []

def clears : Change → Diagnostic → Bool
  | push _, _ | extend _, _ => false
  | clearFile file, d => d.file == file
  | clearCodes codes, d => codes.contains d.code
  | clearFileCodes file codes, d => d.file == file && codes.contains d.code

/-- The diagnostics that were pushed and not cleared since, one for each push. -/
def standing : List Change → List Diagnostic
  | [] => []
  | c :: later => (c.pushes.filter fun d => !later.any (·.clears d)) ++ standing later

theorem standing_concat (past) (c : Change) :
    standing (past ++ [c]) = (standing past).filter (!c.clears ·) ++ c.pushes := by
  induction past with
  | nil => simp [standing]
  | cons first past ih => simp [standing, ih, filter_filter, Bool.and_comm]

end Change

theorem forFile_extend (held : log.forFile file = bucket file pushed) (ds) :
    (log.extend ds).forFile file = bucket file (pushed ++ ds) := by
  induction ds using reverseRecOn with
  | nil => rwa [append_nil]
  | append_singleton ds d ih =>
    have last : log.extend (ds ++ [d]) = (log.extend ds).push d := foldl_append ..
    rw [last, forFile_push, ih, ← append_assoc, bucket_concat]

theorem forFile_change (held : log.forFile file = bucket file pushed) (c : Change) :
    (log.change c).forFile file = bucket file (pushed.filter (!c.clears ·) ++ c.pushes) := by
  have own : ∀ d ∈ bucket file pushed, d.file = file := fun d mem => (mem_bucket.mp mem).2
  have all : pushed.filter (fun _ => !false) = pushed := filter_eq_self.mpr fun _ _ => rfl
  cases c with
  | push d => exact all.symm ▸ forFile_extend held [d]
  | extend ds => exact all.symm ▸ forFile_extend held ds
  | clearFile other =>
    refine (forFile_clearFile ..).trans ?_
    rw [Change.pushes, append_nil, ← filter_bucket, held]
    split
    · exact (filter_eq_nil_iff.mpr fun d mem => by simp_all [Change.clears]).symm
    · exact (filter_eq_self.mpr fun d mem => by simp_all [Change.clears]).symm
  | clearCodes codes =>
    rw [Change.pushes, append_nil, ← filter_bucket, ← held]
    exact forFile_clearCodes ..
  | clearFileCodes other codes =>
    refine (forFile_clearFileCodes ..).trans ?_
    rw [Change.pushes, append_nil, ← filter_bucket, held]
    split
    · exact filter_congr fun d mem => by simp_all [Change.clears]
    · exact (filter_eq_self.mpr fun d mem => by simp_all [Change.clears]).symm

theorem forFile_changes (changes) (file) : (changes.foldl change ∅).forFile file = bucket file (Change.standing changes) := by
  induction changes using reverseRecOn with
  | nil => rfl
  | append_singleton past c ih => rw [foldl_append, foldl_cons, foldl_nil, forFile_change ih, Change.standing_concat]

/-! ### Logs without empty buckets -/

def Filled (log : DiagnosticLog) : Prop := ∀ file, log.entries.get? file ≠ some []

theorem filled_push (filled : log.Filled) (d) : (log.push d).Filled := by
  unfold push
  dsimp only
  split
  · exact filled
  · intro file
    rw [get?_insert]
    split
    · simp
    · exact filled file

theorem filled_extend (filled : log.Filled) (ds) : (log.extend ds).Filled := by
  induction ds generalizing log with
  | nil => exact filled
  | cons d rest ih => exact ih (filled_push filled d)

theorem filled_clearFile (filled : log.Filled) (cleared) : (log.clearFile cleared).Filled := by
  intro file
  rw [clearFile, get?_erase]
  split
  · simp
  · exact filled file

theorem filled_clearCodes (log : DiagnosticLog) (codes) : (log.clearCodes codes).Filled := by
  intro file
  rw [get?_clearCodes]
  split <;> simp_all

theorem filled_change (filled : log.Filled) (c : Change) : (log.change c).Filled := by
  cases c with
  | push d => exact filled_push filled d
  | extend ds => exact filled_extend filled ds
  | clearFile file => exact filled_clearFile filled file
  | clearCodes codes => exact filled_clearCodes log codes
  | clearFileCodes cleared codes =>
    rw [change, clearFileCodes]
    split
    · exact filled
    · dsimp only
      split
      · exact filled_clearFile filled cleared
      · intro file
        rw [get?_insert]
        split
        · simp_all
        · exact filled file

theorem filled_changes (changes : List Change) : (changes.foldl change ∅).Filled := by
  induction changes using reverseRecOn with
  | nil =>
    intro file
    rw [foldl_nil, show (∅ : DiagnosticLog).entries = ∅ from rfl, get?_empty]
    simp
  | append_singleton past c ih => exact foldl_append .. ▸ filled_change ih c

theorem Filled.get? (filled : log.Filled) (file) :
    log.entries.get? file = if log.forFile file = [] then none else some (log.forFile file) := by
  have := filled file
  unfold forFile
  cases held : log.entries.get? file <;> simp_all

theorem Filled.ext (filled : log.Filled) (filled' : log'.Filled) (same : ∀ file, log.forFile file = log'.forFile file) : log = log' := by
  have entries : log.entries = log'.entries := ext_get? fun file => by rw [filled.get?, filled'.get?, same]
  exact congrArg mk entries

theorem Filled.isEmpty_iff (filled : log.Filled) : log.isEmpty ↔ log.size = 0 := by
  unfold isEmpty SortedMap.isEmpty size toList values
  cases held : log.entries.entries with
  | nil => simp
  | cons entry rest =>
    have first : log.entries.get? entry.1 = some entry.2 := get?_eq_some_iff.mpr (held ▸ mem_cons_self)
    have := filled entry.1
    rw [first] at this
    simp_all

theorem nodup_toList (single : ∀ file, (log.forFile file).Nodup) (own : ∀ file, ∀ d ∈ log.forFile file, d.file = file) :
    log.toList.Nodup := by
  have stored : ∀ {entry}, entry ∈ log.entries.entries → log.forFile entry.1 = entry.2 := fun mem => by
    rw [forFile, get?_eq_some_iff.mpr mem]
    rfl
  refine pairwise_flatten.mpr ⟨fun ds mem => ?_, pairwise_map.mpr (log.entries.sorted.imp_of_mem ?_)⟩
  · obtain ⟨entry, listed, rfl⟩ := mem_map.mp mem
    exact stored listed ▸ single entry.1
  · rintro a b first second less d here _ there rfl
    rw [← own a.1 d (stored first ▸ here), own b.1 d (stored second ▸ there), Std.ReflOrd.compare_self] at less
    cases less

/-- After any changes a log holds, for each file, the diagnostics that were pushed and not cleared since, each where it was
pushed first; no bucket is empty. Diagnostics that are cleared by their codes and pushed again are restored if they were the
last ones of their files. -/
theorem changes_leave_standing (changes : List Change) :
    let log := changes.foldl change ∅
    (∀ file ds, log.entries.get? file = some ds → ds ≠ [] ∧ ∀ d ∈ ds, d.file = file) ∧ log.toList.Nodup ∧
      (log.isEmpty ↔ log.size = 0) ∧ (∀ file, log.forFile file = bucket file (Change.standing changes)) ∧
      ∀ codes ds, (∀ file, ds.filter (·.file = file) = (log.forFile file).filter (codes.contains ·.code)) →
        ((log.clearCodes codes).extend ds = log ↔
          ∀ file, log.forFile file = without codes (log.forFile file) ++ ds.filter (·.file = file)) := by
  intro log
  have filled : log.Filled := filled_changes changes
  have held := forFile_changes changes
  have single : ∀ file, (log.forFile file).Nodup := fun file => held file ▸ nodup_eraseDups _
  have own : ∀ file, ∀ d ∈ log.forFile file, d.file = file := fun file d mem => (mem_bucket.mp (held file ▸ mem)).2
  refine ⟨fun file ds stored => ?_, nodup_toList single own, filled.isEmpty_iff, held, fun codes ds same => ?_⟩
  · have here : log.forFile file = ds := by rw [forFile, stored]; rfl
    exact ⟨fun empty => filled file (empty ▸ stored), here ▸ own file⟩
  · have again : ∀ file, ((log.clearCodes codes).extend ds).forFile file =
        without codes (log.forFile file) ++ ds.filter (·.file = file) := by
      intro file
      have each : (without codes (log.forFile file) ++ ds.filter (·.file = file)).Nodup := by
        rw [same, perm_append_comm.nodup_iff]
        exact (filter_append_perm _ _).nodup_iff.mpr (single file)
      have left : (without codes (log.forFile file)).filter (·.file = file) = without codes (log.forFile file) :=
        filter_eq_self.mpr fun d mem => decide_eq_true (own file d (mem_without.mp mem).1)
      have cleared : (log.clearCodes codes).forFile file = bucket file (without codes (log.forFile file)) := by
        rw [forFile_clearCodes, bucket, left, eraseDups_of_nodup (nodup_append.mp each).1]
      rw [forFile_extend cleared, bucket, filter_append, left, eraseDups_of_nodup each]
    constructor
    · intro restored file
      rw [← again, restored]
    · exact fun last => (filled_extend (filled_clearCodes log codes) ds).ext filled fun file => (again file).trans (last file).symm

end ComponentCompiler.DiagnosticLog
