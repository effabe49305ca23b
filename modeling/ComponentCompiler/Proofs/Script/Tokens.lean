import ComponentCompiler.Annotation.Basic
import ComponentCompiler.Proofs.Json.Reading
import ComponentCompiler.Proofs.Number.Shortest
import ComponentCompiler.Proofs.Text.Bytes
import ComponentCompiler.Script.Lexer

/-!
What written tokens are read as. Main statements: `lexes_string`, `lexes_word` and `lexes_number`.
-/

namespace ComponentCompiler.Script.Lexer

open Chars

variable {c : Char} {chars fraction more rest text whole : List Char} {n : Nat}

/-! ### Cursors -/

theorem skip_append (text rest) (offset) :
    Cursor.skip ⟨text ++ rest, offset⟩ text.length = ⟨rest, offset + byteLength text⟩ := by
  simp [Cursor.skip]

theorem cursorAt_append (text rest) (offset) :
    cursorAt ⟨text ++ rest, offset⟩ rest = ⟨rest, offset + byteLength text⟩ := by
  rw [cursorAt, ← skip_append]
  simp

/-- The text is read as the token, whatever the offset, when the rest follows it. -/
def Lexes (text : List Char) (token : Token) (rest : List Char) : Prop :=
  ∀ offset, next ⟨text ++ rest, offset⟩ = .ok (⟨token, ⟨offset, offset + byteLength text⟩, false, false⟩,
    ⟨text ++ rest, offset⟩, ⟨rest, offset + byteLength text⟩)

def Opens (c : Char) : Prop := isLineBreak c = false ∧ isSpace c = false ∧ c ≠ '/'

theorem skipBlanks_of_opens (opens : Opens c) (newline) (offset) (text) :
    skipBlanks .code newline offset (c :: text) = .ok (newline, ⟨c :: text, offset⟩) := by
  obtain ⟨line, space, slash⟩ := opens
  unfold skipBlanks
  split
  all_goals simp_all

theorem next_blank (text) (offset) : next ⟨' ' :: text, offset⟩ = next ⟨text, offset + 1⟩ := by
  have blank : skipBlanks .code false offset (' ' :: text) = skipBlanks .code false (offset + 1) text := by
    rw [skipBlanks]
    · simp [isLineBreak, isSpace]
      rfl
    · simp
    · simp
  rw [next, next, blank]

theorem Lexes.of_tokenAt (opens : Opens c)
    (read : ∀ offset, tokenAt ⟨c :: text ++ rest, offset⟩ = .ok (token, false, ⟨rest, offset + byteLength (c :: text)⟩)) :
    Lexes (c :: text) token rest := by
  intro offset
  have blanks := skipBlanks_of_opens opens false offset (text ++ rest)
  rw [next]
  simp only [List.cons_append] at read ⊢
  rw [blanks]
  simp only [bind, Except.bind, pure, Except.pure, read]

/-! ### Strings -/

theorem stringPoints_escape (read : escape? (c :: text) = some e) (fuel) :
    stringPoints (fuel + 1) '"' ('\\' :: c :: text) =
      (stringPoints fuel '"' e.rest).map fun read => (e.points ++ read.1, read.2) := by
  rw [stringPoints.eq_def]
  simp only [read, if_neg (show '\\' ≠ '"' by decide), if_true]
  cases stringPoints fuel '"' e.rest <;> rfl

theorem stringPoints_plain (quote : c ≠ '"') (slash : c ≠ '\\') (line : c ≠ '\n') (feed : c ≠ '\r') (fuel)
    (text) :
    stringPoints (fuel + 1) '"' (c :: text) = (stringPoints fuel '"' text).map fun read => (c.toNat :: read.1, read.2) := by
  rw [stringPoints.eq_def]
  simp only [if_neg quote, if_neg slash, line, feed, decide_false, Bool.or_self, Bool.false_eq_true, if_false]
  cases stringPoints fuel '"' text <;> rfl

theorem escape?_control (control : n < 32) (text) :
    escape? ('u' :: '0' :: '0' :: Json.hexDigit (n / 16) :: Json.hexDigit (n % 16) :: text) = some ⟨[n], false, text⟩ := by
  have high := Json.hexValue?_hexDigit (n / 16) (by omega)
  have low := Json.hexValue?_hexDigit (n % 16) (by omega)
  have zero : hexValue? '0' = some 0 := by decide
  have digits : hexDigits? 4 0 ('0' :: '0' :: Json.hexDigit (n / 16) :: Json.hexDigit (n % 16) :: text) = some (n, text) := by
    simp only [hexDigits?, zero, high, low, Option.bind_eq_bind, Option.bind_some]
    have : ((0 * 16 + 0) * 16 + 0) * 16 + n / 16 = n / 16 := by omega
    rw [this]
    congr 2
    omega
  have escape : unicodeEscape? ('0' :: '0' :: Json.hexDigit (n / 16) :: Json.hexDigit (n % 16) :: text) = some (n, text) := by
    rw [unicodeEscape?, digits]
    simp
  have single : isHighSurrogate n = false := by
    simp only [isHighSurrogate, Bool.and_eq_false_iff, decide_eq_false_iff_not]
    omega
  simp [escape?, pairedEscape?, escape, single]

theorem stringPoints_escapeChar (c) (fuel) (text) :
    stringPoints (fuel + 1) '"' (Json.escapeChar c ++ text) =
      (stringPoints fuel '"' text).map fun read => (c.toNat :: read.1, read.2) := by
  unfold Json.escapeChar
  split
  case h_8 quote slash line feed _ _ _ =>
    split
    · rename_i control
      exact stringPoints_escape (escape?_control control text) fuel
    · exact stringPoints_plain quote slash line feed fuel text
  all_goals exact stringPoints_escape (e := ⟨[_], false, text⟩) rfl fuel

theorem stringPoints_quoted (enough : chars.length < fuel) (rest) :
    stringPoints fuel '"' (chars.flatMap Json.escapeChar ++ '"' :: rest) = .ok (chars.map (·.toNat), rest) := by
  induction chars generalizing fuel with
  | nil =>
    obtain ⟨fuel, rfl⟩ : ∃ k, fuel = k + 1 := ⟨fuel - 1, by simp at enough; omega⟩
    simp [stringPoints]
  | cons c more ih =>
    rw [List.length_cons] at enough
    obtain ⟨fuel, rfl⟩ : ∃ k, fuel = k + 1 := ⟨fuel - 1, by omega⟩
    rw [List.flatMap_cons, List.append_assoc, stringPoints_escapeChar, ih (by omega)]
    rfl

theorem isSurrogate_toNat (c : Char) : isSurrogate c.toNat = false := by
  have valid : c.toNat < 0xD800 ∨ 0xDFFF < c.toNat ∧ c.toNat < 0x110000 := c.valid
  simp only [isSurrogate, Bool.and_eq_false_iff, decide_eq_false_iff_not]
  omega

theorem any_isSurrogate_toNat (chars : List Char) : (chars.map (·.toNat)).any isSurrogate = false := by
  simp [isSurrogate_toNat]

theorem textOfPoints_toNat (chars : List Char) : textOfPoints (chars.map (·.toNat)) = .ofList chars := by
  rw [textOfPoints, any_isSurrogate_toNat, List.map_map]
  simp [Function.comp_def, Char.ofNat_toNat]

theorem lexes_string (value : String) (rest) :
    Lexes (Json.quoteChars value.toList) (.string value true) rest := by
  refine .of_tokenAt ⟨by decide, by decide, by decide⟩ fun offset => ?_
  have after := cursorAt_append (Json.quoteChars value.toList) rest offset
  have text : Json.quoteChars value.toList ++ rest = '"' :: (value.toList.flatMap Json.escapeChar ++ '"' :: rest) := by
    simp [Json.quoteChars]
  have enough : value.toList.length < (value.toList.flatMap Json.escapeChar ++ '"' :: rest).length + 1 := by
    have := Json.length_le_flatMap_escapeChar value.toList
    rw [List.length_append]
    omega
  change tokenAt ⟨Json.quoteChars value.toList ++ rest, offset⟩ = _
  rw [text] at after ⊢
  rw [tokenAt]
  simp only [decide_true, Bool.true_or, if_true, stringPoints_quoted enough, textOfPoints_toNat, any_isSurrogate_toNat,
    Bool.not_false, after, String.ofList_toList]
  rfl

/-! ### Words -/

def EndsWord (rest : List Char) : Prop := ∀ c ∈ rest.head?, isNamePart c = false ∧ c ≠ '\\'

theorem wordChars_ends (ends : EndsWord rest) (fuel) :
    wordChars (fuel + 1) false rest = some ([], false, rest) := by
  unfold wordChars
  split
  · exact absurd rfl (ends _ rfl).2
  · exact absurd rfl (ends _ rfl).2
  · rename_i c more _ _
    simp [(ends c rfl).1]
  · rfl

theorem wordChars_cons (part : (if first then isNameStart c else isNamePart c) = true)
    (later : wordChars fuel false text = some (more, false, rest)) :
    wordChars (fuel + 1) first (c :: text) = some (c :: more, false, rest) := by
  have plain : c ≠ '\\' := by
    rintro rfl
    cases first <;> exact absurd part (by decide)
  unfold wordChars
  split
  · exact absurd (by simp_all) plain
  · exact absurd (by simp_all) plain
  · rename_i same
    cases same
    rw [if_pos part]
    simp [later]
  · rename_i none
    cases none

theorem wordChars_parts (enough : chars.length < fuel) (parts : ∀ c ∈ chars, isNamePart c)
    (ends : EndsWord rest) : wordChars fuel false (chars ++ rest) = some (chars, false, rest) := by
  induction chars generalizing fuel with
  | nil =>
    obtain ⟨fuel, rfl⟩ : ∃ k, fuel = k + 1 := ⟨fuel - 1, by simp at enough; omega⟩
    exact wordChars_ends ends fuel
  | cons c more ih =>
    rw [List.length_cons] at enough
    obtain ⟨fuel, rfl⟩ : ∃ k, fuel = k + 1 := ⟨fuel - 1, by omega⟩
    obtain ⟨part, later⟩ := List.forall_mem_cons.mp parts
    exact wordChars_cons part (ih (by omega) later)

theorem isAsciiDigit_of_isNameStart (start : isNameStart c) : Chars.isAsciiDigit c = false := by
  refine Bool.eq_false_iff.mpr fun digit => ?_
  have digits : ∀ n < 58, 48 ≤ n → isNameStart (Char.ofNat n) = false := by decide
  simp only [Chars.isAsciiDigit, Bool.and_eq_true, decide_eq_true_eq, Char.le_def, UInt32.le_iff_toNat_le] at digit
  rw [← Char.ofNat_toNat c, digits c.toNat (Nat.lt_succ_of_le digit.2) digit.1] at start
  cases start

def blankPoints : List Nat :=
  [9, 10, 11, 12, 13, 0x20, 0x85, 0xA0, 0x1680, 0x2000, 0x2001, 0x2002, 0x2003, 0x2004, 0x2005, 0x2006, 0x2007, 0x2008,
    0x2009, 0x200A, 0x200B, 0x2028, 0x2029, 0x202F, 0x205F, 0x3000, 0xFEFF]

theorem identifierStart_blank : ∀ n ∈ blankPoints, Chars.inRuns false Chars.identifierStart n = false := by
  decide +kernel

theorem isNameStart_blank (blank : c.toNat ∈ blankPoints) : isNameStart c = false := by
  have ascii : ∀ n ∈ blankPoints, n < 128 → isNameStart (Char.ofNat n) = false := by decide
  by_cases low : c.toNat < 128
  · rw [← Char.ofNat_toNat c]
    exact ascii c.toNat blank low
  · rw [isNameStart, if_neg low]
    exact identifierStart_blank c.toNat blank

theorem opens_of_isNameStart (start : isNameStart c) : Opens c := by
  have other : c.toNat ∉ blankPoints := by
    intro blank
    rw [isNameStart_blank blank] at start
    cases start
  simp only [blankPoints, List.mem_cons, List.not_mem_nil, or_false, not_or] at other
  refine ⟨Bool.eq_false_iff.mpr fun line => ?_, Bool.eq_false_iff.mpr fun space => ?_, ?_⟩
  · simp only [isLineBreak, Bool.or_eq_true, beq_iff_eq] at line
    rcases line with ((rfl | rfl) | line) | line
    · exact absurd start (by decide)
    · exact absurd start (by decide)
    · omega
    · omega
  · simp only [isSpace, Bool.or_eq_true, Bool.and_eq_true, beq_iff_eq, decide_eq_true_eq] at space
    omega
  · rintro rfl
    exact absurd start (by decide)

theorem lexes_word (named : isName name) (ends : EndsWord rest) : Lexes name.toList (.word name) rest := by
  unfold isName at named
  split at named
  · cases named
  · rename_i c more letters
    rw [Bool.and_eq_true, List.all_eq_true] at named
    obtain ⟨start, parts⟩ := named
    have other : ∀ d : Char, isNameStart d = false → c ≠ d := by
      rintro d no rfl
      rw [start] at no
      cases no
    have word : word? (c :: (more ++ rest)) = some (name, false, (c :: more).length) := by
      have later : wordChars (c :: (more ++ rest)).length false (more ++ rest) = some (more, false, rest) :=
        wordChars_parts (by simp only [List.length_cons, List.length_append]; omega) parts ends
      have read : wordChars ((c :: (more ++ rest)).length + 1) true (c :: (more ++ rest)) = some (c :: more, false, rest) :=
        wordChars_cons start later
      have count : (c :: (more ++ rest)).length - rest.length = (c :: more).length := by
        simp only [List.length_cons, List.length_append]
        omega
      rw [word?, read]
      change some (String.ofList (c :: more), false, (c :: (more ++ rest)).length - rest.length) = _
      rw [count, ← letters, String.ofList_toList]
    have number : startsNumber (c :: (more ++ rest)) = false := by
      unfold startsNumber
      split
      · rename_i same
        exact absurd (List.cons.inj same).1 (other '.' (by decide))
      · rename_i same
        rw [← (List.cons.inj same).1]
        exact isAsciiDigit_of_isNameStart start
      · rfl
    rw [letters]
    refine .of_tokenAt (opens_of_isNameStart start) fun offset => ?_
    have after := skip_append (c :: more) rest offset
    rw [List.cons_append] at after ⊢
    rw [tokenAt]
    simp only [other '"' (by decide), other '\'' (by decide), other '\x60' (by decide), other '#' (by decide), number, start,
      word, decide_false, Bool.or_self, Bool.false_eq_true, if_false, Bool.true_or, if_true, after]

/-! ### Punctuators -/

theorem lexes_punct (text : String) (letters : text.toList = c :: more)
    (first : c ∈ ['[', ']', '\x7b', '\x7d', ',', ':', '.', '-', '(', ')', ';'])
    (number : startsNumber (c :: more ++ rest) = false) (found : punct? (c :: more ++ rest) = some text) :
    Lexes text.toList (.punct text) rest := by
  have plain : isLineBreak c = false ∧ isSpace c = false ∧ isNameStart c = false ∧ c ≠ '/' ∧ c ≠ '"' ∧ c ≠ '\'' ∧
      c ≠ '\x60' ∧ c ≠ '#' ∧ c ≠ '\\' := by
    clear letters number found
    simp only [List.mem_cons, List.not_mem_nil, or_false] at first
    rcases first with rfl | rfl | rfl | rfl | rfl | rfl | rfl | rfl | rfl | rfl | rfl
    all_goals decide
  obtain ⟨line, space, start, slash, quote, single, back, hash, escape⟩ := plain
  rw [letters]
  refine .of_tokenAt ⟨line, space, slash⟩ fun offset => ?_
  have after := skip_append (c :: more) rest offset
  have length : text.length = (c :: more).length := by rw [← letters, String.length_toList]
  rw [List.cons_append] at after number found ⊢
  rw [tokenAt]
  simp only [quote, single, back, hash, number, start, escape, found, length, decide_false, Bool.or_self,
    Bool.false_eq_true, if_false, after]

def singles : List String := ["[", "]", "\x7b", "\x7d", "(", ")", ",", ":", ";"]

theorem lexes_single {text : String} (single : text ∈ singles) (rest) :
    Lexes text.toList (.punct text) rest := by
  simp only [singles, List.mem_cons, List.not_mem_nil, or_false] at single
  rcases single with rfl | rfl | rfl | rfl | rfl | rfl | rfl | rfl | rfl
  all_goals exact lexes_punct _ rfl (by decide) rfl rfl

/-! ### Numbers -/

def EndsNumber (rest : List Char) : Prop := ∀ c ∈ rest.head?, c ∈ [',', ']', '\x7d', ')', ';', ' ']

theorem plain_after_digits (mem : c ∈ ['.', ',', ']', '\x7d', ')', ';', ' ']) :
    Chars.isAsciiDigit c = false ∧ c ≠ '_' ∧ isNameStart c = false := by
  simp only [List.mem_cons, List.not_mem_nil, or_false] at mem
  rcases mem with rfl | rfl | rfl | rfl | rfl | rfl | rfl
  all_goals decide

theorem digits?_append (afterDigit) (all : ∀ c ∈ digits, Chars.isAsciiDigit c)
    (ends : ∀ c ∈ rest.head?, Chars.isAsciiDigit c = false ∧ c ≠ '_') :
    digits? Chars.isAsciiDigit afterDigit (digits ++ rest) = some (digits, rest) := by
  induction digits generalizing afterDigit with
  | nil =>
    rw [List.nil_append]
    unfold digits?
    split
    · rfl
    · exact absurd rfl (ends _ rfl).2
    · rename_i c _ _
      simp [(ends c rfl).1]
  | cons c more ih =>
    obtain ⟨digit, later⟩ := List.forall_mem_cons.mp all
    have plain : c ≠ '_' := by
      rintro rfl
      exact absurd digit (by decide)
    rw [List.cons_append]
    unfold digits?
    split
    · rename_i none
      cases none
    · rename_i same
      exact absurd (List.cons.inj same).1 plain
    · rename_i same
      obtain ⟨rfl, rfl⟩ := List.cons.inj same
      rw [if_pos digit, ih true later]
      rfl

theorem exponent?_none (ends : EndsNumber rest) : exponent? rest = some (0, rest) := by
  unfold exponent?
  split
  all_goals first | rfl | exact absurd (ends _ rfl) (by decide)

theorem endsNumber_digit (ends : EndsNumber rest) : ∀ c ∈ rest.head?, Chars.isAsciiDigit c = false ∧ c ≠ '_' := by
  intro c head
  obtain ⟨digit, score, -⟩ := plain_after_digits (List.mem_cons_of_mem _ (ends c head))
  exact ⟨digit, score⟩

theorem afterWhole?_fraction (all : ∀ c ∈ fraction, Chars.isAsciiDigit c) (ends : EndsNumber rest) :
    afterWhole? whole ('.' :: (fraction ++ rest)) = some (decimalNumber whole fraction 0, rest) := by
  have read : fraction? (fraction ++ rest) = some (fraction, rest) := by
    unfold fraction?
    split
    · rename_i same
      cases fraction with
      | nil =>
        rw [List.nil_append] at same
        exact absurd rfl (endsNumber_digit ends '_' (by rw [same]; rfl)).2
      | cons c more =>
        have digit := all c List.mem_cons_self
        rw [(List.cons.inj same).1] at digit
        exact absurd digit (by decide)
    · exact digits?_append false all (endsNumber_digit ends)
  simp [afterWhole?, read, exponent?_none ends]

theorem afterWhole?_whole (ends : EndsNumber rest) :
    afterWhole? whole rest = some (decimalNumber whole [] 0, rest) := by
  unfold afterWhole?
  split
  · exact absurd (ends _ rfl) (by decide)
  · simp [exponent?_none ends]

def Leads (whole : List Char) : Prop := whole = ['0'] ∨ ∃ c more, whole = c :: more ∧ c ≠ '0'

theorem number?_whole {text : List Char} (all : ∀ c ∈ whole, Chars.isAsciiDigit c) (leads : Leads whole)
    (next : ∀ c ∈ text.head?, c = '.' ∨ c ∈ [',', ']', '\x7d', ')', ';', ' ']) :
    number? (whole ++ text) = afterWhole? whole text := by
  have ends : ∀ c ∈ text.head?, Chars.isAsciiDigit c = false ∧ c ≠ '_' := by
    intro c head
    obtain ⟨digit, score, -⟩ := plain_after_digits (List.mem_cons.mpr (next c head))
    exact ⟨digit, score⟩
  rcases leads with rfl | ⟨c, more, rfl, nonzero⟩
  · cases text with
    | nil => rfl
    | cons c rest =>
      have next := List.mem_cons.mpr (next c rfl)
      simp only [List.mem_cons, List.not_mem_nil, or_false] at next
      rcases next with rfl | rfl | rfl | rfl | rfl | rfl | rfl
      all_goals rfl
  · have digit := all c List.mem_cons_self
    have dot : c ≠ '.' := by
      rintro rfl
      exact absurd digit (by decide)
    have read := digits?_append false all ends
    unfold number?
    split
    all_goals first
      | (rename_i same; exact absurd (List.cons.inj same).1 nonzero)
      | (rename_i same; exact absurd (List.cons.inj same).1 dot)
      | skip
    rw [read]
    simp only [Option.bind_eq_bind, Option.bind_some]
    split
    · exact absurd (next _ rfl) (by decide)
    · rfl

/-! ### Numbers that are written -/

theorem foldl_valueIn (all : ∀ c ∈ digits, Chars.isAsciiDigit c) (n) :
    digits.foldl (fun n c => n * 10 + (Chars.hexValue? c).getD 0) n = Nat.ofDigitChars 10 digits n := by
  induction digits generalizing n with
  | nil => rfl
  | cons c more ih =>
    obtain ⟨digit, later⟩ := List.forall_mem_cons.mp all
    have value : Chars.hexValue? c = some (c.toNat - 48) := by
      rw [Chars.isAsciiDigit] at digit
      rw [Chars.hexValue?, if_pos digit]
    rw [List.foldl_cons, ih later, Nat.ofDigitChars_cons, value, Nat.mul_comm]
    rfl

theorem isAsciiDigit_of_isDigit (digit : c.isDigit) : Chars.isAsciiDigit c := by
  simp only [Char.isDigit, Bool.and_eq_true, decide_eq_true_eq, ge_iff_le] at digit
  simp only [Chars.isAsciiDigit, Bool.and_eq_true, decide_eq_true_eq, Char.le_def]
  exact digit

theorem digitChars_digit (n) : ∀ c ∈ Decimal.digitChars n, Chars.isAsciiDigit c := fun _ mem =>
  isAsciiDigit_of_isDigit (Nat.isDigit_of_mem_toDigits (by decide) (by decide) mem)

theorem digitChars_head (positive : 0 < n) : ∃ c more, Decimal.digitChars n = c :: more ∧ c ≠ '0' := by
  induction n using Nat.strongRecOn with
  | ind n ih =>
    unfold Decimal.digitChars
    rcases Nat.lt_or_ge n 10 with small | large
    · refine ⟨n.digitChar, [], Nat.toDigits_of_lt_base small, ?_⟩
      rw [Ne, Nat.digitChar_eq_zero]
      omega
    · obtain ⟨c, more, head, nonzero⟩ := ih (n / 10) (by omega) (by omega)
      refine ⟨c, more ++ Nat.toDigits 10 (n % 10), ?_, nonzero⟩
      have split := Nat.toDigits_append_toDigits (b := 10) (n := n / 10) (d := n % 10) (by decide) (by omega) (by omega)
      rw [Nat.div_add_mod] at split
      rw [← split, show Nat.toDigits 10 (n / 10) = c :: more from head]
      rfl

structure Digits (whole fraction : List Char) : Prop where
  before : ∀ c ∈ whole, Chars.isAsciiDigit c = true
  after : ∀ c ∈ fraction, Chars.isAsciiDigit c = true
  leads : Leads whole

def pointedText (whole fraction : List Char) : List Char :=
  match fraction with
  | [] => whole
  | fraction => whole ++ '.' :: fraction

theorem positionalChars_eq_pointed (d : Decimal) : d.positionalChars =
    pointedText (Decimal.pointed (Decimal.digitChars d.digits) d.exponent).1
      (Decimal.pointed (Decimal.digitChars d.digits) d.exponent).2 := by
  unfold Decimal.positionalChars pointedText
  split
  · rename_i same
    rw [same]
  · rename_i same
    rw [same]
    split
    · contradiction
    · rfl

theorem replicate_zero_digit (n) : ∀ c ∈ List.replicate n '0', Chars.isAsciiDigit c := by
  intro c mem
  rw [List.eq_of_mem_replicate mem]
  decide

theorem positionalChars_eq {d : Decimal} (positive : 0 < d.digits) : ∃ whole fraction, Digits whole fraction ∧
    d.positionalChars = pointedText whole fraction ∧ fraction.length = (-d.exponent).toNat ∧
    ((Nat.ofDigitChars 10 (whole ++ fraction) 0 : Nat) : ℚ) * 10 ^ (-(fraction.length : Int)) = d.value := by
  have digits := digitChars_digit d.digits
  have same : Nat.ofDigitChars 10 (Decimal.digitChars d.digits) 0 = d.digits := Nat.ofDigitChars_ten_toDigits
  obtain ⟨c, more, head, nonzero⟩ := digitChars_head positive
  refine ⟨_, _, ?_, positionalChars_eq_pointed d, ?_, ?_⟩
  all_goals unfold Decimal.pointed
  all_goals rcases exponent : d.exponent with n | n
  · refine ⟨?_, fun c mem => absurd mem List.not_mem_nil, .inr ⟨c, more ++ List.replicate n '0', ?_, nonzero⟩⟩
    · exact List.forall_mem_append.mpr ⟨digits, replicate_zero_digit n⟩
    · simp only [head]
      rfl
  · dsimp only
    split
    · refine ⟨replicate_zero_digit 1, ?_, .inl rfl⟩
      exact List.forall_mem_append.mpr ⟨replicate_zero_digit _, digits⟩
    · rename_i longer
      refine ⟨fun c mem => digits c (List.mem_of_mem_take mem), fun c mem => digits c (List.mem_of_mem_drop mem), ?_⟩
      refine .inr ⟨c, more.take ((Decimal.digitChars d.digits).length - (n + 1) - 1), ?_, nonzero⟩
      obtain ⟨k, count⟩ : ∃ k, (Decimal.digitChars d.digits).length - (n + 1) = k + 1 :=
        ⟨(Decimal.digitChars d.digits).length - (n + 1) - 1, by omega⟩
      rw [count]
      simp [head]
  · simp
  · dsimp only
    split
    · rename_i shorter
      simp only [List.length_append, List.length_replicate]
      omega
    · rename_i longer
      simp only [List.length_drop]
      omega
  · simp [Nat.ofDigitChars_append, same, Decimal.value, exponent, mul_comm]
  · dsimp only
    split
    · rename_i shorter
      have length : (List.replicate (n + 1 - (Decimal.digitChars d.digits).length) '0' ++ Decimal.digitChars d.digits).length =
          n + 1 := by
        simp only [List.length_append, List.length_replicate]
        omega
      rw [length, List.singleton_append, Nat.ofDigitChars_cons, Nat.ofDigitChars_append, Nat.ofDigitChars_replicate_zero]
      rw [Nat.sub_self, Nat.mul_zero, Nat.add_zero, same, Decimal.value, exponent, Int.negSucc_eq]
      rfl
    · rename_i longer
      rw [List.take_append_drop, same, List.length_drop, Decimal.value, exponent, Int.negSucc_eq]
      congr 3
      omega

theorem rounds_self (m) (e) : Binary64.Rounds m e (m * 2 ^ e) := by
  have unit : (0 : ℚ) < 2 ^ (e - 2) := by positivity
  have power : (2 : ℚ) ^ e = 2 ^ 2 * 2 ^ (e - 2) := Binary64.two_zpow_eq (by omega)
  rw [power]
  refine ⟨?_, by linarith, fun _ => ⟨by linarith, by linarith⟩⟩
  split <;> linarith

theorem numberScript_toList (normal : Binary64.Normal m e) : ∃ whole fraction,
    Digits whole fraction ∧ (PropertyValue.numberScript (.finite false m e)).toList = pointedText whole fraction ∧
    fraction.length ≤ 400 ∧
    Binary64.Rounds m e (Nat.ofDigitChars 10 (whole ++ fraction) 0 * 10 ^ (-(fraction.length : Int))) := by
  have positional : ∃ whole fraction, Digits whole fraction ∧
      (Binary64.positional (.finite false m e)).toList = pointedText whole fraction ∧ fraction.length ≤ 400 ∧
      Binary64.Rounds m e (Nat.ofDigitChars 10 (whole ++ fraction) 0 * 10 ^ (-(fraction.length : Int))) := by
    obtain ⟨positive, rounds, least⟩ := Decimal.shortest_spec normal
    obtain ⟨whole, fraction, digits, text, length, value⟩ := positionalChars_eq positive
    refine ⟨whole, fraction, digits, ?_, by omega, by rwa [value]⟩
    rw [Binary64.positional, if_neg (Nat.ne_of_gt normal.positive), Binary64.signed, if_neg Bool.false_ne_true,
      String.toList_ofList, text]
  unfold PropertyValue.numberScript
  split
  · rename_i i whole
    split
    · obtain ⟨value, den_pos⟩ := Decimal.ratio_eq m e
      rw [Binary64.toInt?] at whole
      dsimp only at whole
      generalize Binary64.ratio m e = ratio at value den_pos whole
      split at whole
      · rename_i divides
        obtain ⟨n, product⟩ := Nat.dvd_of_mod_eq_zero divides
        have quotient : ratio.1 / ratio.2 = n := by rw [product, Nat.mul_div_cancel_left n den_pos]
        have same : (n : ℚ) = m * 2 ^ e := by
          rw [← value, product]
          have : (ratio.2 : ℚ) ≠ 0 := by exact_mod_cast Nat.ne_of_gt den_pos
          field_simp
          push_cast
          ring
        have positive : 0 < n := by
          have : (0 : ℚ) < n := by
            rw [same]
            have := normal.positive
            positivity
          exact_mod_cast this
        rw [quotient, if_neg Bool.false_ne_true] at whole
        obtain rfl := (Option.some.inj whole).symm
        refine ⟨Decimal.digitChars n, [], ⟨digitChars_digit n, fun c mem => absurd mem List.not_mem_nil,
          .inr (digitChars_head positive)⟩, ?_, Nat.zero_le _, ?_⟩
        · change (Nat.repr n).toList = _
          rw [Nat.repr_eq_ofList_toDigits, String.toList_ofList]
          rfl
        · rw [List.append_nil, Decimal.digitChars, Nat.ofDigitChars_ten_toDigits, same]
          simpa using rounds_self m e
      · cases whole
    · exact positional
  · exact positional

theorem log2_le {m length : Nat} {e : Int} (normal : Binary64.Normal m e)
    (rounds : Binary64.Rounds m e (n * 10 ^ (-(length : Int)))) (short : length ≤ 400) : Nat.log2 n ≤ 100000 := by
  obtain ⟨-, high⟩ := Decimal.rounds_bounds normal rounds
  rcases Nat.eq_zero_or_pos n with rfl | positive
  · decide
  have power : (10 : ℚ) ^ (length : Int) ≤ 2 ^ (1600 : Int) := by
    calc (10 : ℚ) ^ (length : Int) ≤ 10 ^ (400 : Int) := zpow_le_zpow_right₀ (by norm_num) (by omega)
      _ = 10 ^ (400 : Nat) := rfl
      _ ≤ (2 ^ 4) ^ (400 : Nat) := pow_le_pow_left₀ (by norm_num) (by norm_num) 400
      _ = 2 ^ (1600 : Int) := by rw [← pow_mul]; rfl
  have bound : (2 : ℚ) ^ (Nat.log2 n : Int) < 2 ^ (2625 : Int) := by
    calc (2 : ℚ) ^ (Nat.log2 n : Int) ≤ n := Binary64.two_pow_log2_le positive
      _ = n * 10 ^ (-(length : Int)) * 10 ^ (length : Int) := by
        rw [mul_assoc, ← zpow_add₀ (by norm_num), Int.add_left_neg, zpow_zero, mul_one]
      _ < 2 ^ (1025 : Int) * 10 ^ (length : Int) := mul_lt_mul_of_pos_right high (by positivity)
      _ ≤ 2 ^ (1025 : Int) * 2 ^ (1600 : Int) := mul_le_mul_of_nonneg_left power (by positivity)
      _ = 2 ^ (2625 : Int) := by rw [← zpow_add₀ two_ne_zero]; rfl
  have := (zpow_lt_zpow_iff_right₀ one_lt_two).mp bound
  omega

theorem digit_plain (digit : Chars.isAsciiDigit c) :
    Opens c ∧ c ≠ '"' ∧ c ≠ '\'' ∧ c ≠ '\x60' ∧ c ≠ '#' ∧ c ≠ '.' := by
  have code : 48 ≤ c.toNat ∧ c.toNat ≤ 57 := by
    simp only [isAsciiDigit, Bool.and_eq_true, decide_eq_true_eq] at digit
    exact digit
  have plain : ∀ n < 58, 48 ≤ n → (isLineBreak (Char.ofNat n) = false ∧ isSpace (Char.ofNat n) = false ∧
      Char.ofNat n ≠ '/') ∧ Char.ofNat n ≠ '"' ∧ Char.ofNat n ≠ '\'' ∧ Char.ofNat n ≠ '\x60' ∧ Char.ofNat n ≠ '#' ∧
      Char.ofNat n ≠ '.' := by decide
  have := plain c.toNat (by omega) code.1
  rwa [Char.ofNat_toNat] at this

theorem lexes_pointed (digits : Digits whole fraction) (ends : EndsNumber rest) :
    Lexes (pointedText whole fraction) (decimalNumber whole fraction 0) rest := by
  obtain ⟨c, text, shape, digit⟩ : ∃ c text, pointedText whole fraction = c :: text ∧ Chars.isAsciiDigit c := by
    obtain ⟨c, more, rfl⟩ : ∃ c more, whole = c :: more := by
      rcases digits.leads with rfl | ⟨c, more, rfl, -⟩
      · exact ⟨_, _, rfl⟩
      · exact ⟨_, _, rfl⟩
    have digit := digits.before c List.mem_cons_self
    cases fraction with
    | nil => exact ⟨c, more, rfl, digit⟩
    | cons d later => exact ⟨c, more ++ '.' :: d :: later, rfl, digit⟩
  have read : number? (pointedText whole fraction ++ rest) = some (decimalNumber whole fraction 0, rest) := by
    cases fraction with
    | nil =>
      exact (number?_whole digits.before digits.leads fun c head => .inr (ends c head)).trans (afterWhole?_whole ends)
    | cons d later =>
      rw [pointedText, List.append_assoc, number?_whole digits.before digits.leads, List.cons_append,
        afterWhole?_fraction digits.after ends]
      rintro c ⟨⟩
      exact .inl rfl
      exact fun none => by cases none
  obtain ⟨opens, quote, single, back, hash, dot⟩ := digit_plain digit
  have starts : startsNumber (c :: (text ++ rest)) := by
    unfold startsNumber
    split
    · rename_i same
      exact absurd (List.cons.inj same).1 dot
    · rename_i same
      rw [← (List.cons.inj same).1, digit]
    · rename_i same
      cases same
  have stops : (rest.head?.any fun c => isNameStart c || Chars.isAsciiDigit c) = false := by
    cases rest with
    | nil => rfl
    | cons c more =>
      obtain ⟨digit, -, start⟩ := plain_after_digits (List.mem_cons_of_mem _ (ends c rfl))
      simp [digit, start]
  rw [shape] at read ⊢
  refine .of_tokenAt opens fun offset => ?_
  have after := cursorAt_append (c :: text) rest offset
  rw [List.cons_append] at after read ⊢
  rw [tokenAt]
  simp only [quote, single, back, hash, starts, read, stops, decide_false, Bool.or_self, Bool.false_eq_true, if_false, if_true, after]

theorem lexes_number {n : Binary64} (rounded : n.IsRounded) (finite : n.isFinite) (ends : EndsNumber rest) :
    Lexes (PropertyValue.numberScript n).toList (.number n) rest := by
  match n, rounded with
  | .finite negative m e, ⟨positive, value⟩ =>
    subst positive
    rcases value with ⟨rfl, rfl⟩ | normal
    · have digits : Digits ['0'] [] := ⟨replicate_zero_digit 1, fun c mem => absurd mem List.not_mem_nil, .inl rfl⟩
      exact lexes_pointed digits ends
    · obtain ⟨whole, fraction, digits, text, short, rounds⟩ := numberScript_toList normal
      have value : decimalNumber whole fraction 0 = .number (.finite false m e) := by
        have read : valueIn 10 (whole ++ fraction) = Nat.ofDigitChars 10 (whole ++ fraction) 0 :=
          foldl_valueIn (List.forall_mem_append.mpr ⟨digits.before, digits.after⟩) 0
        rw [decimalNumber, read, Int.zero_sub, Decimal.ofDecimal_eq normal rounds (log2_le normal rounds short)]
      rw [text, ← value]
      exact lexes_pointed digits ends

end ComponentCompiler.Script.Lexer
