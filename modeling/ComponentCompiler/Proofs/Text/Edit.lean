import ComponentCompiler.Proofs.Text.Bytes
import ComponentCompiler.Text.Edit

/-!
Which of several edits take effect. Main statement: `applyAll_applied`, a text is changed by the
edits that take effect alone.
-/

namespace ComponentCompiler

namespace Chars

theorem takeBytes_append (before after) : takeBytes (byteLength before) (before ++ after) = before := by
  induction before with
  | nil => cases after <;> rfl
  | cons c before ih =>
    obtain ⟨bytes, size, less⟩ := byteLength_cons c before
    rw [size, List.cons_append, takeBytes, less, ih]

theorem dropBytes_append (before after) : dropBytes (byteLength before) (before ++ after) = after := by
  induction before with
  | nil => cases after <;> rfl
  | cons c before ih =>
    obtain ⟨bytes, size, less⟩ := byteLength_cons c before
    rw [size, List.cons_append, dropBytes, less, ih]

end Chars

namespace Edit

/-- The edits that take effect on the text from an offset on. -/
def appliedFrom (offset : Nat) : List Edit → List Edit
  | [] => []
  | edit :: rest =>
    if edit.span.start < offset then appliedFrom offset rest else edit :: appliedFrom edit.span.stop rest

def applied (edits : List Edit) : List Edit := appliedFrom 0 (sortBy le edits)

theorem applyFrom_appliedFrom (offset) (text) (edits) :
    applyFrom offset text (appliedFrom offset edits) = applyFrom offset text edits := by
  induction edits generalizing offset text with
  | nil => rfl
  | cons edit rest ih =>
    by_cases inside : edit.span.start < offset
    · simp only [appliedFrom, applyFrom, if_pos inside]
      exact ih offset text
    · simp only [appliedFrom, applyFrom, if_neg inside]
      rw [ih]

theorem applyAll_applied (edits) (text) :
    applyAll edits text = .ofList (applyFrom 0 text.toList (applied edits)) := by
  rw [applied, applyFrom_appliedFrom, applyAll]

end Edit

end ComponentCompiler
