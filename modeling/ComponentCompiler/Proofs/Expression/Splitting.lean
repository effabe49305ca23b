import ComponentCompiler.Expression.Basic
import ComponentCompiler.Proofs.Text.Bytes

/-! Where an expression is cut into filters, and a filter into arguments. Main statement: `splitTopLevel_cuts`. -/

namespace ComponentCompiler.Expression

open Chars List

variable {separator : Separator} {scan : Scan} {done text before after : List Char}

/-- What a text leaves open: a string, with whether its last character hides the next one, and brackets. -/
structure Reading where
  string : Option (Char × Bool)
  depth : Int

def Reading.step (r : Reading) (c : Char) : Reading :=
  match r.string with
  | some (quote, true) => { r with string := some (quote, false) }
  | some (quote, false) =>
    if c = '\\' then { r with string := some (quote, true) } else if c = quote then { r with string := none } else r
  | none =>
    if isQuote c then { r with string := some (c, false) }
    else if isOpening c then { r with depth := r.depth + 1 }
    else if isClosing c then { r with depth := r.depth - 1 }
    else r

def reading (text : List Char) : Reading := text.foldl .step ⟨none, 0⟩

/-- Whether a separator between two texts is outside strings and brackets. Bars next to another bar are none, and behind
a question mark a colon is part of a conditional. -/
def TopLevel (separator : Separator) (before after : List Char) : Prop :=
  (reading before).string = none ∧ (reading before).depth = 0 ∧
    match separator with
    | .filter => before.getLast? ≠ some '|' ∧ after.head? ≠ some '|'
    | .argument => '?' ∉ before

/-- The texts before and behind each cut between parts. -/
def cuts (mark : Char) : List (List Char) → List (List Char × List Char)
  | part :: next :: more =>
    (part, join [mark] (next :: more)) :: (cuts mark (next :: more)).map fun cut => (part ++ mark :: cut.1, cut.2)
  | _ => []

/-! ### The scan -/

structure Scan.Follows (scan : Scan) (done : List Char) : Prop where
  state : reading done = ⟨scan.quote.map (·, false), scan.depth⟩
  question : scan.question = decide ('?' ∈ done)
  bar : scan.bar = (done.getLast? == some '|')

theorem start_follows : Scan.start.Follows [] := ⟨rfl, rfl, rfl⟩

theorem reading_concat (done) (c) : reading (done ++ [c]) = (reading done).step c := by
  rw [reading, foldl_append, reading]
  rfl

theorem question_concat (done) (c : Char) : decide ('?' ∈ done ++ [c]) = (decide ('?' ∈ done) || c == '?') := by
  simp [Bool.decide_or, Bool.beq_eq_decide_eq, eq_comm]

namespace Scan.Follows

theorem string (follows : scan.Follows done) (inside : scan.quote = some q) : (reading done).string = some (q, false) := by
  rw [follows.state, inside]
  rfl

theorem pass (follows : scan.Follows done) (outside : scan.quote = none) (c) : (scan.pass c).Follows (done ++ [c]) where
  state := by
    rw [reading_concat, follows.state, outside, Scan.pass]
    dsimp only [Reading.step]
    by_cases quote : isQuote c
    · have plain : isOpening c = false ∧ isClosing c = false := by
        simp only [isQuote, Bool.or_eq_true, beq_iff_eq] at quote
        rcases quote with (rfl | rfl) | rfl <;> exact ⟨rfl, rfl⟩
      simp [quote, plain]
    · simp only [quote]
      by_cases opens : isOpening c
      · simp [opens]
      · by_cases closes : isClosing c <;> simp [opens, closes]
  question := by rw [question_concat, Scan.pass, follows.question]
  bar := by simp [Scan.pass]

theorem passQuoted (follows : scan.Follows done) (inside : scan.quote = some q) (plain : c ≠ '\\') :
    (scan.passQuoted q c).Follows (done ++ [c]) where
  state := by
    rw [reading_concat, follows.state, inside, Scan.passQuoted]
    dsimp only [Reading.step, Option.map_some]
    rw [if_neg plain]
    split <;> rfl
  question := by rw [question_concat, Scan.passQuoted, follows.question]
  bar := by simp [Scan.passQuoted]

theorem escape (follows : scan.Follows done) (inside : scan.quote = some q) (c) :
    (scan.passEscaped c).Follows (done ++ ['\\'] ++ [c]) where
  state := by
    rw [reading_concat, reading_concat, follows.state, Scan.passEscaped, inside]
    rfl
  question := by
    rw [question_concat, question_concat, Scan.passEscaped, follows.question]
    simp
  bar := by simp [Scan.passEscaped]

theorem isCut (follows : scan.Follows done) (outside : scan.quote = none) (c) (rest : List Char) :
    isCut separator scan c rest.head? = true ↔ c = separator.char ∧ TopLevel separator done rest := by
  unfold Expression.isCut TopLevel
  rw [follows.state, outside, follows.bar, follows.question]
  cases separator <;> simp [and_assoc, and_comm, and_left_comm]

end Scan.Follows

/-! ### The cuts -/

theorem consHead_ne_nil (c) (parts) : consHead c parts ≠ [] := by
  cases parts <;> simp [consHead]

theorem splitFrom_ne_nil (separator) (scan) (text) : splitFrom separator scan text ≠ [] := by
  fun_cases splitFrom separator scan text with
  | case1 | case2 | case5 => exact cons_ne_nil _ _
  | case3 | case4 | case6 => exact consHead_ne_nil _ _

section Parts

variable {parts : List (List Char)} {mark : Char} (filled : parts ≠ [])
include filled

theorem join_consHead (c) : join [mark] (consHead c parts) = c :: join [mark] parts := by
  obtain ⟨part, _ | ⟨next, more⟩, rfl⟩ := exists_cons_of_ne_nil filled <;> rfl

theorem join_nil_cons : join [mark] ([] :: parts) = mark :: join [mark] parts := by
  obtain ⟨part, more, rfl⟩ := exists_cons_of_ne_nil filled
  rfl

theorem mem_cuts_consHead (c) :
    (before, after) ∈ cuts mark (consHead c parts) ↔ ∃ behind, before = c :: behind ∧ (behind, after) ∈ cuts mark parts := by
  obtain ⟨part, _ | ⟨next, more⟩, rfl⟩ := exists_cons_of_ne_nil filled
  · simp [consHead, cuts]
  · simp only [consHead, cuts, mem_cons, mem_map, Prod.mk.injEq]
    grind

theorem mem_cuts_nil_cons : (before, after) ∈ cuts mark ([] :: parts) ↔
    before = [] ∧ after = join [mark] parts ∨ ∃ behind, before = mark :: behind ∧ (behind, after) ∈ cuts mark parts := by
  obtain ⟨part, more, rfl⟩ := exists_cons_of_ne_nil filled
  grind [cuts]

end Parts

theorem join_splitFrom (separator) (scan) (text) : join [separator.char] (splitFrom separator scan text) = text := by
  fun_induction splitFrom separator scan text with
  | case1 | case2 => rfl
  | case3 =>
    rename_i ih
    rw [join_consHead (consHead_ne_nil _ _), join_consHead (splitFrom_ne_nil _ _ _), ih]
  | case4 scan c rest q _ _ ih => rw [join_consHead (splitFrom_ne_nil _ _ _), ih]
  | case5 scan c rest _ cut ih =>
    rw [join_nil_cons (splitFrom_ne_nil _ _ _), ih]
    simp only [isCut, Bool.and_eq_true, beq_iff_eq] at cut
    rw [cut.1.1]
  | case6 scan c rest _ _ ih => rw [join_consHead (splitFrom_ne_nil _ _ _), ih]

/-- A separator is behind the first character unless it is the first one. -/
theorem topLevel_cons (kept : ¬(c = separator.char ∧ TopLevel separator done rest)) :
    c :: rest = before ++ separator.char :: after ∧ TopLevel separator (done ++ before) after ↔
      ∃ behind, before = c :: behind ∧ rest = behind ++ separator.char :: after ∧ TopLevel separator (done ++ [c] ++ behind) after := by
  cases before with
  | nil => grind
  | cons d before => grind

theorem not_topLevel (inside : (reading done).string = some q) (c) (rest) : ¬(c = separator.char ∧ TopLevel separator done rest) := by
  rintro ⟨-, outside, -⟩
  rw [inside] at outside
  cases outside

theorem splitFrom_cuts (follows : scan.Follows done) : (before, after) ∈ cuts separator.char (splitFrom separator scan text) ↔
    text = before ++ separator.char :: after ∧ TopLevel separator (done ++ before) after := by
  fun_induction splitFrom separator scan text generalizing done before with
  | case1 => simp [cuts]
  | case2 scan q inside =>
    rw [topLevel_cons (not_topLevel (follows.string inside) _ _)]
    simp [cuts]
  | case3 scan q inside escaped rest ih =>
    have still : (reading (done ++ ['\\'])).string = some (q, true) := by
      rw [reading_concat, follows.state, inside]
      rfl
    rw [mem_cuts_consHead (consHead_ne_nil _ _), topLevel_cons (not_topLevel (follows.string inside) _ _)]
    simp only [mem_cuts_consHead (splitFrom_ne_nil _ _ _), topLevel_cons (not_topLevel still _ _), ih (follows.escape inside escaped)]
  | case4 scan c rest q inside plain ih =>
    rw [mem_cuts_consHead (splitFrom_ne_nil _ _ _), topLevel_cons (not_topLevel (follows.string inside) _ _)]
    simp only [ih (follows.passQuoted inside plain)]
  | case5 scan c rest outside cut ih =>
    obtain ⟨rfl, top⟩ := (follows.isCut outside c rest).mp cut
    rw [mem_cuts_nil_cons (splitFrom_ne_nil _ _ _), join_splitFrom]
    simp only [ih (follows.pass outside _)]
    cases before with
    | nil => grind
    | cons d before => grind
  | case6 scan c rest outside kept ih =>
    rw [mem_cuts_consHead (splitFrom_ne_nil _ _ _), topLevel_cons (mt (follows.isCut outside c rest).mpr kept)]
    simp only [ih (follows.pass outside c)]

/-! ### Bytes -/

namespace Reading

variable {r : Reading}

def Sound (r : Reading) : Prop := ∀ s ∈ r.string, isQuote s.1

theorem Sound.step (sound : r.Sound) (c) : (r.step c).Sound := by
  unfold Sound at sound ⊢
  obtain ⟨_ | ⟨quote, _ | _⟩, depth⟩ := r <;> simp [Reading.step] at sound ⊢ <;> grind

theorem step_other (sound : r.Sound) (other : isAscii c = false) : r.step c = ⟨r.string.map fun s => (s.1, false), r.depth⟩ := by
  have differs : ∀ m, isAscii m → c ≠ m := fun m ascii same => by simp [same, ascii] at other
  have plain : isQuote c = false := by simp [isQuote, differs, isAscii]
  obtain ⟨_ | ⟨quote, _ | _⟩, depth⟩ := r
  · simp [Reading.step, plain, isOpening, isClosing, differs, isAscii]
  · have still : c ≠ quote := fun same => by simp [same, sound _ rfl] at plain
    simp [Reading.step, differs, isAscii, still]
  · rfl

theorem foldl_others {more : List Char} (sound : r.Sound) (other : isAscii c = false) (others : ∀ e ∈ more, isAscii e = false) :
    more.foldl .step (r.step c) = r.step c := by
  induction more with
  | nil => rfl
  | cons e more ih =>
    obtain ⟨here, later⟩ := forall_mem_cons.mp others
    have same : (r.step c).step e = r.step c := by
      rw [step_other (sound.step c) here, step_other sound other, Option.map_map]
      rfl
    rw [foldl_cons, same, ih later]

theorem foldl_view (sound : r.Sound) (text) : (view text).foldl .step r = text.foldl .step r := by
  induction text generalizing r with
  | nil => rfl
  | cons c rest ih =>
    have next : (view [c]).foldl .step r = r.step c := by
      cases single : isAscii c with
      | true =>
        rw [view_ascii single]
        rfl
      | false =>
        have high : ∀ e ∈ view [c], isAscii e = false := by
          intro e mem
          obtain ⟨b, inside, rfl⟩ := mem_map.mp mem
          exact isAscii_of_mem_utf8EncodeChar single (by simpa [bytes] using inside)
        obtain ⟨first, more, shape⟩ := exists_cons_of_ne_nil (mt view_eq_nil.mp (cons_ne_nil c []))
        obtain ⟨here, later⟩ := forall_mem_cons.mp (shape ▸ high)
        rw [shape, foldl_cons, foldl_others sound here later, step_other sound here, step_other sound single]
    rw [← singleton_append, view_append, foldl_append, next, ih (sound.step c)]
    rfl

end Reading

theorem topLevel_view (separator) (before after) : TopLevel separator (view before) (view after) ↔ TopLevel separator before after := by
  have last : (view before).getLast? = some '|' ↔ before.getLast? = some '|' := by
    simp only [getLast?_eq_some_iff, view_eq_append (c := '|') rfl, view_eq_nil]
    grind
  have first : (view after).head? = some '|' ↔ after.head? = some '|' := by
    have begins : ∀ rest, view after = [] ++ '|' :: rest ↔ _ := fun _ => view_eq_append rfl
    simp only [nil_append, view_eq_nil] at begins
    simp only [head?_eq_some_iff, begins]
    grind
  have mark : '?' ∈ view before ↔ '?' ∈ before := by
    simp only [mem_iff_append, view_eq_append (c := '?') rfl]
    grind
  unfold TopLevel
  rw [reading, Reading.foldl_view (by simp [Reading.Sound]), ← reading]
  cases separator <;> simp only [last, first, mark, Ne]

theorem mem_cuts_view : (before, after) ∈ cuts separator.char (splitFrom separator .start (view text)) ↔
    ∃ cut ∈ cuts separator.char (splitFrom separator .start text), view cut.1 = before ∧ view cut.2 = after := by
  have ascii : isAscii separator.char := by cases separator <;> rfl
  simp only [Prod.exists, splitFrom_cuts start_follows, nil_append, view_eq_append ascii]
  constructor
  · rintro ⟨⟨behind, ahead, rfl, rfl, rfl⟩, top⟩
    exact ⟨behind, ahead, ⟨rfl, (topLevel_view ..).mp top⟩, rfl, rfl⟩
  · rintro ⟨behind, ahead, ⟨rfl, top⟩, rfl, rfl⟩
    exact ⟨⟨behind, ahead, rfl, rfl, rfl⟩, (topLevel_view ..).mpr top⟩

/-- The parts of a text joined give the text back, and it is cut at the separators outside strings and brackets that no other
bar touches and no question mark precedes. A scan of its bytes finds the same cuts, which are between its characters. -/
theorem splitTopLevel_cuts (separator : Separator) (text : String) :
    let parts := splitTopLevel separator text
    Text.join (.singleton separator.char) parts = text ∧
    (∀ before after, (before, after) ∈ cuts separator.char (parts.map (·.toList)) ↔
      text.toList = before ++ separator.char :: after ∧ TopLevel separator before after) ∧
    ∀ before after, (before, after) ∈ cuts separator.char (splitFrom separator .start (view text.toList)) ↔
      ∃ cut ∈ cuts separator.char (parts.map (·.toList)), view cut.1 = before ∧ view cut.2 = after := by
  intro parts
  have same : parts.map (·.toList) = splitFrom separator .start text.toList := by
    simp [parts, splitTopLevel, Function.comp_def]
  rw [same]
  refine ⟨?_, fun _ _ => splitFrom_cuts start_follows, fun _ _ => mem_cuts_view⟩
  rw [Text.join, same, String.toList_singleton, join_splitFrom, String.ofList_toList]

end ComponentCompiler.Expression
