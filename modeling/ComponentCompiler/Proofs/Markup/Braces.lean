import ComponentCompiler.Expression.Interpolation
import ComponentCompiler.Markup.Normalize

/-!
The two ways to find the brace that closes an interpolation. Main statement: `interpolations_agree`,
they find the same brace unless a backslash outside quotes hides a brace or a quote.
-/

namespace ComponentCompiler.Markup

def isMark (c : Char) : Bool := c = '\x7b' || c = '\x7d' || Expression.isQuote c

/-- Whether a backslash outside quotes hides a mark before the braces are closed. Of two backslashes the first one hides
the second. -/
def hidesMark (quote : Option Char) (depth : Nat) : List Char → Bool
  | [] => false
  | c :: rest =>
    if c = '\\' then
      match rest with
      | [] => false
      | hidden :: rest =>
        match quote with
        | some q => hidesMark (some q) depth rest
        | none => isMark hidden || hidesMark none depth rest
    else
      match quote with
      | some q => hidesMark (if c = q then none else some q) depth rest
      | none =>
        if c = '\x7d' && depth = 1 then false
        else
          hidesMark (if Expression.isQuote c then some c else none)
            (if c = '\x7b' then depth + 1 else if c = '\x7d' then depth - 1 else depth) rest

theorem closeFrom_plain (plain : isMark c = false) (depth) (rest) :
    Interpolation.closeFrom none depth (c :: rest) =
      (Interpolation.closeFrom none depth rest).map fun found => (c :: found.1, found.2) := by
  simp only [isMark, Bool.or_eq_false_iff, decide_eq_false_iff_not] at plain
  obtain ⟨⟨opening, closing⟩, quote⟩ := plain
  rw [Interpolation.closeFrom]
  simp [opening, closing, quote]

theorem closeFrom_quoted (other : ¬c = '\\') (depth) (rest) :
    Interpolation.closeFrom (some q) depth (c :: rest) =
      (Interpolation.closeFrom (if c = q then none else some q) depth rest).map fun found => (c :: found.1, found.2) := by
  rw [Interpolation.closeFrom.eq_def]
  dsimp only
  rw [if_neg other]

theorem closeFrom_agree (plain : hidesMark quote depth text = false) :
    closeFrom quote depth text = Interpolation.closeFrom quote depth text := by
  fun_induction closeFrom quote depth text with
  | case1 => rw [Interpolation.closeFrom]
  | case2 quote =>
    cases quote with
    | some q => rw [Interpolation.closeFrom, if_pos rfl]
    | none =>
      rw [closeFrom_plain (by decide), Interpolation.closeFrom]
      rfl
  | case3 quote depth hidden rest ih =>
    rw [hidesMark.eq_def] at plain
    cases quote with
    | some q => rw [ih plain, Interpolation.closeFrom, if_pos rfl]
    | none =>
      -- outside quotes neither the backslash nor what it hides is a mark
      obtain ⟨here, later⟩ := Bool.or_eq_false_iff.mp plain
      rw [ih later, closeFrom_plain (by decide), closeFrom_plain here, Option.map_map]
      rfl
  | case4 depth c rest other q ih =>
    rw [hidesMark.eq_def] at plain
    dsimp only at plain
    rw [if_neg other] at plain
    rw [ih plain, closeFrom_quoted other]
  | case5 depth c rest other closes => rw [Interpolation.closeFrom, if_pos closes]
  | case6 depth c rest other closes inner ih =>
    rw [hidesMark.eq_def] at plain
    dsimp only at plain
    rw [if_neg other, if_neg closes] at plain
    rw [ih plain, Interpolation.closeFrom, if_neg closes]

/-- Unless a backslash outside quotes hides a brace or a quote, the scan of markup and the cutting of texts close braces at
the same place or not at all, and what the scan protects is what is cut out as an expression, with its marks. -/
theorem interpolations_agree (rest : List Char) (plain : hidesMark none 1 rest = false) :
    closeBrace? rest = Interpolation.closeBrace? rest ∧
    interpolation? ('\x7b' :: rest) = (Interpolation.leading? true ('\x7b' :: rest)).map
      (fun found => ('\x7b' :: found.1 ++ ['\x7d'], found.2)) ∧
    ∀ bare, interpolation? ('$' :: '\x7b' :: rest) = (Interpolation.leading? bare ('$' :: '\x7b' :: rest)).map
      fun found => ('$' :: '\x7b' :: found.1 ++ ['\x7d'], found.2) := by
  have same : closeBrace? rest = Interpolation.closeBrace? rest := closeFrom_agree plain
  refine ⟨same, ?_, fun bare => ?_⟩
  · rw [interpolation?, Interpolation.leading?, same]
    rfl
  · rw [interpolation?, Interpolation.leading?, same]

/-- A backslash in a quote hides nothing that the two ways differ in. -/
theorem quoted_braces_agree :
    closeBrace? "f('\\'\x7d')\x7d.".toList = some ("f('\\'\x7d')".toList, ['.']) ∧
      closeBrace? "f('\\'\x7d')\x7d.".toList = Interpolation.closeBrace? "f('\\'\x7d')\x7d.".toList :=
  ⟨by cbv, (interpolations_agree "f('\\'\x7d')\x7d.".toList (by cbv)).1⟩

/-- A regular expression with a hidden brace is protected as a whole and cut in the middle. -/
theorem hidden_brace_cut :
    closeBrace? "/\\\x7d/.test(a)\x7d".toList = some ("/\\\x7d/.test(a)".toList, []) ∧
      Interpolation.closeBrace? "/\\\x7d/.test(a)\x7d".toList = some ("/\\".toList, "/.test(a)\x7d".toList) := by
  constructor
  · cbv
  · cbv

end ComponentCompiler.Markup
