import ComponentCompiler.Proofs.Text.Bytes
import ComponentCompiler.Rendering.Evaluate

/-!
Evaluation answers every text. Main statement: `value?_answers`, no text is cut inside a character or
behind its end, and each text that is evaluated for another is shorter than that one.
-/

namespace ComponentCompiler.Evaluate

open Chars Option Bool

variable {scope : Scope} {text rest : List Char} {i stop : Nat}

theorem isSome_bind {α β : Type} {x : Option α} {f : α → Option β} (answered : x.isSome)
    (next : ∀ a, x = some a → (f a).isSome) : (x >>= f).isSome := by
  obtain ⟨a, rfl⟩ := isSome_iff_exists.mp answered
  exact next a rfl

/-! ### Cuts next to ASCII characters -/

def Marks (mark : Char) (i : Nat) (text : List Char) : Prop := ∃ b, (bytes text)[i]? = some b ∧ Char.ofUInt8 b = mark

theorem Marks.cuts (marks : Marks mark i text) (ascii : isAscii mark) :
    IsCut i text ∧ IsCut (i + 1) text ∧ i < byteLength text := by
  obtain ⟨b, found, rfl⟩ := marks
  obtain ⟨before, after, rfl, length⟩ := splits_at_ascii found ascii
  have one := utf8Size_of_isAscii ascii
  refine ⟨⟨before, _, rfl, length⟩, ⟨before ++ [.ofUInt8 b], after, by simp, ?_⟩, ?_⟩
  · rw [byteLength_append, byteLength, byteLength, one, length]
  · rw [byteLength_append, byteLength, one]
    omega

theorem isCut_cons (ascii : isAscii c) (cut : IsCut i rest) : IsCut (1 + i) (c :: rest) := by
  obtain ⟨before, after, rfl, rfl⟩ := cut
  exact ⟨c :: before, after, rfl, by rw [byteLength, utf8Size_of_isAscii ascii]⟩

theorem isCut_ends (ascii : isAscii quote) (first : text.head? = some quote) (last : text.getLast? = some quote) :
    IsCut 1 text ∧ IsCut (byteLength text - 1) text := by
  have one := utf8Size_of_isAscii ascii
  constructor
  · obtain ⟨rest, rfl⟩ := List.head?_eq_some_iff.mp first
    exact isCut_cons ascii (isCut_zero rest)
  · obtain ⟨before, rfl⟩ := List.getLast?_eq_some_iff.mp last
    exact ⟨before, [quote], rfl, by simp [byteLength_append, byteLength, one]⟩

/-! ### Literals -/

theorem isSome_stringLiteral? (text) : (stringLiteral? text).isSome := by
  have sliced {quote : Char} (ascii : isAscii quote) (first : text.head? = some quote) (last : text.getLast? = some quote)
      (long : ¬ byteLength text < 2) : (slice? 1 (byteLength text - 1) text).isSome ∧ (slice? 0 1 text).isSome := by
    obtain ⟨begins, ends⟩ := isCut_ends ascii first last
    obtain ⟨_, inside, -⟩ := exists_slice? begins ends (by omega)
    obtain ⟨_, quote, -⟩ := exists_slice? (isCut_zero text) begins (by omega)
    simp [inside, quote]
  rw [stringLiteral?]
  simp only [or_eq_true, and_eq_true, beq_iff_eq]
  split
  · rfl
  rename_i long
  split
  · rename_i quoted
    obtain ⟨inside, quote⟩ : (slice? 1 (byteLength text - 1) text).isSome ∧ (slice? 0 1 text).isSome := by
      rcases quoted with ⟨first, last⟩ | ⟨first, last⟩
      · exact sliced rfl first last long
      · exact sliced rfl first last long
    exact isSome_bind inside fun _ _ => isSome_bind quote fun _ _ => rfl
  split
  · rename_i quoted
    exact isSome_bind (sliced rfl quoted.1 quoted.2 long).1 fun _ _ => rfl
  · rfl

/-! ### Paths -/

theorem isAscii_of_isPathChar (name : isPathChar c) : isAscii c := by
  simp only [isPathChar, startsPath, or_eq_true, beq_iff_eq] at name
  rcases name with ((letter | rfl) | rfl) | digit
  · exact decide_eq_true (isAscii_of_alphanumeric (by simp [isAsciiAlphanumeric, letter]))
  · rfl
  · rfl
  · exact decide_eq_true (isAscii_of_alphanumeric (by simp [isAsciiAlphanumeric, digit]))

theorem isCut_nameSize (text) : IsCut (nameSize (bytes text)) text := by
  rw [nameSize]
  let inName (b : UInt8) : Bool := isPathChar (.ofUInt8 b)
  show IsCut ((bytes text).takeWhile inName).length text
  cases size : ((bytes text).takeWhile inName).length with
  | zero => exact isCut_zero text
  | succ last =>
    obtain ⟨b, found⟩ : ∃ b, ((bytes text).takeWhile inName)[last]? = some b := ⟨_, List.getElem?_eq_getElem (by omega)⟩
    have name : inName b := List.all_eq_true.mp List.all_takeWhile b (List.mem_of_getElem? found)
    have here : (bytes text)[last]? = some b := by
      rw [← List.takeWhile_append_dropWhile (p := inName) (l := bytes text), List.getElem?_append_left (by omega), found]
    exact (Marks.cuts ⟨b, here, rfl⟩ (isAscii_of_isPathChar name)).2.1

theorem find?_splits (found : find? mark text = some i) :
    ∃ before after, text = before ++ mark :: after ∧ byteLength before = i := by
  induction text generalizing i with
  | nil => contradiction
  | cons c rest ih =>
    rw [find?] at found
    split at found
    · rename_i same
      obtain rfl := some.inj found
      exact ⟨[], rest, by rw [same]; rfl, rfl⟩
    · obtain ⟨offset, later, rfl⟩ := map_eq_some_iff.mp found
      obtain ⟨before, after, rfl, rfl⟩ := ih later
      exact ⟨c :: before, after, rfl, rfl⟩

theorem find?_cuts (rest) (found : find? ']' ('[' :: rest) = some stop) :
    IsCut 1 ('[' :: rest) ∧ IsCut stop ('[' :: rest) ∧ IsCut (stop + 1) ('[' :: rest) ∧ 1 ≤ stop := by
  obtain ⟨before, after, whole, rfl⟩ := find?_splits found
  cases before with
  | nil => simp at whole
  | cons c before =>
    refine ⟨isCut_cons rfl (isCut_zero rest), ⟨_, _, whole, rfl⟩, ⟨c :: before ++ [']'], after, by simp [whole], ?_⟩, ?_⟩
    · rw [byteLength_append]
      rfl
    · rw [byteLength]
      have := c.utf8Size_pos
      omega

theorem isSome_segments? (text) : (segments? text).isSome := by
  rw [segments?.eq_def]
  split
  · rfl
  · rename_i rest
    have one : IsCut 1 ('.' :: rest) := isCut_cons rfl (isCut_zero rest)
    have ends : IsCut (1 + nameSize (bytes rest)) ('.' :: rest) := isCut_cons rfl (isCut_nameSize rest)
    obtain ⟨name, inside, -⟩ := exists_slice? one ends (by omega)
    obtain ⟨after, behind, length⟩ := exists_slice? ends (isCut_byteLength _) ends.le
    have shorter : byteLength after < byteLength ('.' :: rest) := by
      have := ends.le
      omega
    dsimp only
    split
    · rfl
    · rw [inside, behind]
      simp only [bind_eq_bind, bind_some]
      refine isSome_bind (isSome_segments? after) fun more _ => ?_
      cases more <;> rfl
  · rename_i rest
    dsimp only
    split
    · rename_i stop found
      obtain ⟨one, stops, behindStop, le⟩ := find?_cuts rest found
      obtain ⟨inner, inside, -⟩ := exists_slice? one stops le
      obtain ⟨after, behind, length⟩ := exists_slice? behindStop (isCut_byteLength _) behindStop.le
      have shorter : byteLength after < byteLength ('[' :: rest) := by
        have := behindStop.le
        omega
      rw [inside, behind]
      simp only [bind_eq_bind, bind_some]
      split
      · refine isSome_bind (isSome_segments? after) fun more _ => ?_
        cases more <;> rfl
      · rfl
    · rfl
  · rfl
termination_by byteLength text

theorem isSome_path? (text) : (path? text).isSome := by
  have ends := isCut_nameSize text
  rw [path?]
  split
  · obtain ⟨_, name, -⟩ := exists_slice? (isCut_zero text) ends (Nat.zero_le _)
    obtain ⟨after, behind, -⟩ := exists_slice? ends (isCut_byteLength text) ends.le
    rw [length_bytes]
    refine isSome_bind (by simp [name]) fun _ _ => isSome_bind (by simp [behind]) fun after _ => ?_
    refine isSome_bind (isSome_segments? after) fun more _ => ?_
    cases more <;> rfl
  · rfl

/-! ### Conditionals -/

theorem conditionalMarks?_marks {s : ConditionalScan} (here : (bytes text).drop i = bs)
    (asked : ∀ q, s.question = some q → Marks '?' q text ∧ q < i)
    (found : conditionalMarks? s i bs = some (question, colon)) :
    Marks '?' question text ∧ Marks ':' colon text ∧ question < colon := by
  have head {b : UInt8} {bs : List UInt8} {i : Nat} (here : (bytes text).drop i = b :: bs) :
      (bytes text)[i]? = some b ∧ (bytes text).drop (i + 1) = bs := by
    rw [← List.head?_drop, ← List.drop_drop, here]
    exact ⟨rfl, rfl⟩
  have later {s : ConditionalScan} {i j : Nat} (asked : ∀ q, s.question = some q → Marks '?' q text ∧ q < i) (le : i ≤ j) :
      ∀ q, s.question = some q → Marks '?' q text ∧ q < j :=
    fun q is => ⟨(asked q is).1, Nat.lt_of_lt_of_le (asked q is).2 le⟩
  fun_induction conditionalMarks? s i bs with
  | case1 | case3 => contradiction
  | case4 =>
    rename_i ih
    exact ih (head (head here).2).2 (later asked (by omega)) found
  | case8 =>
    rename_i mark _ ih
    refine ih (head here).2 (fun q is => ?_) found
    obtain rfl := some.inj is
    simp only [and_eq_true, decide_eq_true_eq] at mark
    exact ⟨⟨_, (head here).1, mark.1⟩, by omega⟩
  | case11 =>
    rename_i mark _ _ is
    simp only [and_eq_true, decide_eq_true_eq] at mark
    simp only [some.injEq, Prod.mk.injEq] at found
    obtain ⟨rfl, rfl⟩ := found
    exact ⟨(asked _ is).1, ⟨_, (head here).1, mark.1⟩, (asked _ is).2⟩
  | case2 | case5 | case6 | case7 | case9 | case10 | case12 | case13 | case14 =>
    rename_i ih
    exact ih (head here).2 (later asked (Nat.le_succ _)) found

theorem conditional?_cases (text) :
    conditional? text = some none ∨
      ∃ condition yes no, conditional? text = some (some (condition, yes, no)) ∧
        ∀ part ∈ [condition, yes, no], byteLength part < byteLength text := by
  rw [conditional?]
  split
  · exact .inl rfl
  · rename_i question colon found
    obtain ⟨asks, parts, before⟩ :=
      conditionalMarks?_marks (List.drop_zero ..) (fun q is => by contradiction) found
    obtain ⟨cut, behind, -⟩ := asks.cuts rfl
    obtain ⟨cut', behind', le⟩ := parts.cuts rfl
    obtain ⟨condition, first, length⟩ := exists_slice? (isCut_zero text) cut (Nat.zero_le _)
    obtain ⟨yes, second, length'⟩ := exists_slice? behind cut' before
    obtain ⟨no, third, length''⟩ := exists_slice? behind' (isCut_byteLength text) le
    refine .inr ⟨condition, yes, no, by rw [first, second, third]; rfl, ?_⟩
    simp only [List.forall_mem_cons]
    exact ⟨by omega, by omega, by omega, by simp⟩

/-! ### Sums -/

theorem dropPrefix?_eq_some_iff : dropPrefix? pattern text = some after ↔ text = pattern ++ after := by
  induction pattern generalizing text with
  | nil => simp [dropPrefix?]
  | cons p pattern ih =>
    cases text with
    | nil => simp [dropPrefix?]
    | cons c text =>
      rw [dropPrefix?]
      split
      · rename_i same
        simp [ih, same]
      · rename_i other
        simp [Ne.symm other]

theorem startsWith_iff : startsWith pattern text ↔ ∃ after, text = pattern ++ after := by
  simp only [startsWith, isSome_iff_exists, dropPrefix?_eq_some_iff]

theorem splitOnPattern_ne_nil (pattern) (skip) (text) : splitOnPattern pattern skip text ≠ [] := by
  fun_induction splitOnPattern pattern skip text <;> simp_all

theorem byteLength_of_mem_splitOnPattern (proper : pattern ≠ []) (skip) (text)
    (mem : piece ∈ splitOnPattern pattern skip text) :
    byteLength piece ≤ byteLength (text.drop skip) ∧
      (contains pattern (text.drop skip) → byteLength piece + byteLength pattern ≤ byteLength (text.drop skip)) := by
  fun_induction splitOnPattern pattern skip text generalizing piece with
  | case1 skip =>
    obtain rfl := List.mem_singleton.mp mem
    simp [contains, proper]
  | case2 skip c rest ih => exact ih mem
  | case3 c rest starts ih =>
    obtain ⟨after, whole⟩ := startsWith_iff.mp starts
    obtain ⟨p, more, rfl⟩ := List.exists_cons_of_ne_nil proper
    have behind : rest.drop ((p :: more).length - 1) = after := by
      rw [(List.cons.inj whole).2]
      simp
    rw [List.drop_zero, whole, byteLength_append]
    rcases List.mem_cons.mp mem with rfl | mem
    · simp only [byteLength]
      omega
    · obtain ⟨le, -⟩ := ih mem
      rw [behind] at le
      omega
  | case4 c rest starts none => exact absurd none (splitOnPattern_ne_nil pattern 0 rest)
  | case5 c rest starts first more pieces ih =>
    simp only [List.drop_zero] at ih ⊢
    rw [contains, or_eq_true, or_iff_right starts, byteLength]
    rw [pieces] at ih
    rcases List.mem_cons.mp mem with rfl | mem
    · obtain ⟨le, found⟩ := ih List.mem_cons_self
      exact ⟨by rw [byteLength]; omega, fun has => by have := found has; rw [byteLength]; omega⟩
    · obtain ⟨le, found⟩ := ih (List.mem_cons_of_mem _ mem)
      exact ⟨by omega, fun has => by have := found has; omega⟩

theorem byteLength_operand (found : operands? text = some operands) (mem : operand ∈ operands) :
    byteLength operand < byteLength text := by
  rw [operands?] at found
  split at found
  · rename_i has
    obtain rfl := some.inj found
    have less := (byteLength_of_mem_splitOnPattern (by decide) 0 text mem).2 has
    have three : byteLength " + ".toList = 3 := by decide
    rw [three, List.drop_zero] at less
    omega
  · contradiction

/-! ### Inserted values -/

theorem closing?_le (found : closing? depth text = some stop) : stop ≤ text.length := by
  induction text generalizing depth stop with
  | nil =>
    cases depth with
    | zero => exact Nat.le_of_eq (some.inj found).symm
    | succ depth => contradiction
  | cons c rest ih =>
    cases depth with
    | zero =>
      obtain rfl := some.inj found
      exact Nat.zero_le _
    | succ depth =>
      rw [closing?] at found
      obtain ⟨before, inner, rfl⟩ := map_eq_some_iff.mp found
      exact Nat.succ_le_succ (ih inner)

theorem between?_eq_some_iff {inner : List Char} : between? first last text = some inner ↔ text = first :: (inner ++ [last]) := by
  cases text with
  | nil => simp [between?]
  | cons c rest =>
    rw [between?]
    simp only [and_eq_true, decide_eq_true_eq]
    split
    · rename_i ends
      obtain ⟨rfl, last⟩ := ends
      obtain ⟨before, rfl⟩ := List.getLast?_eq_some_iff.mp last
      simp
    · rename_i ends
      simp only [reduceCtorEq, false_iff, List.cons.injEq]
      rintro ⟨rfl, rfl⟩
      simp at ends

/-! ### Parts -/

inductive Part (text : List Char) : List Char → Prop
  | conditional {condition yes no part : List Char} (found : conditional? text = some (some (condition, yes, no)))
      (member : part ∈ [condition, yes, no]) : Part text part
  | operand {operands : List (List Char)} {part : List Char} (found : operands? text = some operands)
      (member : part ∈ operands) : Part text part
  | inserted {before rest : List Char} {stop : Nat} (found : between? '\x60' '\x60' text = some (before ++ '$' :: '\x7b' :: rest))
      (closed : closing? 1 rest = some stop) : Part text (rest.take (stop - 1))
  | negated {part : List Char} (found : dropPrefix? ['!'] text = some part) : Part text part
  | enclosed {part : List Char} (found : between? '(' ')' text = some part) : Part text part

theorem Part.shorter (is : Part text part) : byteLength part < byteLength text := by
  cases is with
  | conditional found mem =>
    rcases conditional?_cases text with none | ⟨condition, yes, no, same, shorter⟩
    · simp [none] at found
    · rw [found] at same
      simp only [some.injEq, Prod.mk.injEq] at same
      obtain ⟨rfl, rfl, rfl⟩ := same
      exact shorter part mem
  | operand found mem => exact byteLength_operand found mem
  | @inserted before rest stop found closed =>
    have taken := byteLength_le_of_sublist (List.take_sublist (stop - 1) rest)
    rw [between?_eq_some_iff.mp found]
    simp only [byteLength, byteLength_append]
    have := Char.utf8Size_pos '$'
    omega
  | negated found =>
    rw [dropPrefix?_eq_some_iff.mp found, byteLength_append]
    exact Nat.lt_add_of_pos_left (by decide)
  | enclosed found =>
    rw [between?_eq_some_iff.mp found]
    simp only [byteLength, byteLength_append]
    have := Char.utf8Size_pos '('
    omega

theorem trim_sublist (text) : (trim text).Sublist text := by
  have kept : (trimEnd (trimStart text)).Sublist (trimStart text) := by
    simpa [trimEnd] using (List.dropWhile_sublist isBlank (l := (trimStart text).reverse)).reverse
  exact kept.trans (List.dropWhile_sublist isBlank)

theorem byteLength_normalize_le (source) : byteLength (normalize source) ≤ byteLength source := by
  apply byteLength_le_of_sublist
  rw [normalize]
  refine (trim_sublist _).trans (List.Sublist.trans ?_ (trim_sublist source))
  let trailing (c : Char) : Bool := c == ';' || isBlank c
  let body := ((trim source).reverse.dropWhile trailing).reverse
  have kept : body.Sublist (trim source) := by
    simpa [body] using (List.dropWhile_sublist trailing (l := (trim source).reverse)).reverse
  show ((dropPrefix? (Expression.contextParameter ++ ".").toList body).getD body).Sublist (trim source)
  cases dropped : dropPrefix? (Expression.contextParameter ++ ".").toList body with
  | none => exact kept
  | some after =>
    have split : body = _ ++ after := dropPrefix?_eq_some_iff.mp dropped
    exact (split ▸ List.sublist_append_right _ after).trans kept

/-! ### Answers -/

section

variable (answered : ∀ part, Part text part → (value? scope part).isSome)
include answered

theorem isSome_conditionalValue? : (conditionalValue? scope text).isSome := by
  rw [conditionalValue?]
  rcases conditional?_cases text with none | ⟨condition, yes, no, found, -⟩
  · rw [none]
    rfl
  · simp only [found, bind_eq_bind, bind_some]
    have each (part : List Char) (mem : part ∈ [condition, yes, no]) : (value? scope part).isSome :=
      answered part (.conditional found mem)
    refine isSome_bind (each condition (by simp)) fun value _ => ?_
    cases value with
    | none => rfl
    | some value =>
      by_cases holds : value.truthy
      · simpa [holds] using each yes (by simp)
      · simpa [holds] using each no (by simp)

theorem isSome_sumValue? : (sumValue? scope text).isSome := by
  rw [sumValue?]
  split
  · rename_i operands found
    have each (part : List Char) (mem : part ∈ operands) : (value? scope part).isSome :=
      answered part (.operand found mem)
    refine isSome_bind ?_ fun values _ => by cases values <;> rfl
    clear found
    induction operands with
    | nil =>
      rw [values?]
      rfl
    | cons operand more ih =>
      rw [values?]
      refine isSome_bind (each operand List.mem_cons_self) fun value _ => ?_
      cases value with
      | none => rfl
      | some value =>
        refine isSome_bind (ih fun part mem => each part (List.mem_cons_of_mem _ mem)) fun values _ => ?_
        cases values <;> rfl
  · rfl

theorem isSome_templateText? {before tail : List Char} (found : between? '\x60' '\x60' text = some (before ++ tail)) :
    (templateText? scope tail).isSome := by
  rw [templateText?.eq_def]
  split
  · rfl
  · rename_i rest
    split
    · rename_i stop closed
      have fits := closing?_le closed
      simp only [first?, if_pos (show stop - 1 ≤ rest.length by omega), bind_eq_bind, bind_some]
      refine isSome_bind (answered _ (.inserted found closed)) fun value _ => ?_
      cases value with
      | none => rfl
      | some value =>
        have onward : (before ++ '$' :: '\x7b' :: rest.take stop) ++ rest.drop stop = before ++ '$' :: '\x7b' :: rest := by simp
        refine isSome_bind (isSome_templateText? (onward ▸ found)) fun more _ => ?_
        cases more <;> rfl
    · rfl
  · rename_i c rest _
    have onward : (before ++ [c]) ++ rest = before ++ c :: rest := by simp
    refine isSome_bind (isSome_templateText? (onward ▸ found)) fun more _ => ?_
    cases more <;> rfl
termination_by tail.length

theorem isSome_templateValue? : (templateValue? scope text).isSome := by
  rw [templateValue?]
  split
  · rename_i inner found
    refine isSome_bind (isSome_templateText? answered (show _ = some ([] ++ inner) from found)) fun more _ => ?_
    cases more <;> rfl
  · rfl

end

theorem isSome_value?_of_parts (answered : ∀ part, Part (normalize source) part → (value? scope part).isSome) :
    (value? scope source).isSome := by
  rw [value?]
  split
  · rfl
  refine isSome_bind (isSome_stringLiteral? _) fun literal _ => ?_
  cases literal with
  | some literal => rfl
  | none =>
  dsimp only
  split
  · rfl
  split
  · rfl
  refine isSome_bind (isSome_path? _) fun path _ => ?_
  cases path with
  | some path => rfl
  | none =>
  refine isSome_bind (isSome_conditionalValue? answered) fun value _ => ?_
  cases value with
  | some value => rfl
  | none =>
  refine isSome_bind (isSome_sumValue? answered) fun value _ => ?_
  cases value with
  | some value => rfl
  | none =>
  refine isSome_bind (isSome_templateValue? answered) fun value _ => ?_
  cases value with
  | some value => rfl
  | none =>
  dsimp only
  split
  · rename_i operand found
    exact isSome_bind (answered operand (.negated found)) fun _ _ => rfl
  split
  · rename_i inner found
    exact answered inner (.enclosed found)
  · rfl

theorem value?_answers (scope : Scope) (source : List Char) :
    (∃ answer, value? scope source = some answer) ∧
      ∀ part, Part (normalize source) part → byteLength part < byteLength source := by
  have shorter (source part : List Char) (is : Part (normalize source) part) : byteLength part < byteLength source :=
    Nat.lt_of_lt_of_le is.shorter (byteLength_normalize_le source)
  refine ⟨isSome_iff_exists.mp ?_, shorter source⟩
  induction size : byteLength source using Nat.strongRecOn generalizing source with
  | ind n ih =>
    subst size
    exact isSome_value?_of_parts fun part is => ih _ (shorter source part is) part rfl

end ComponentCompiler.Evaluate
