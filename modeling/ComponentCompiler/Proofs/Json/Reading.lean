import ComponentCompiler.Json.Decode
import Mathlib.Data.List.DropRight

/-! Written documents are read back. -/

namespace ComponentCompiler.Json

/-! ### Strings -/

theorem hexValue?_hexDigit : ∀ n < 16, Chars.hexValue? (hexDigit n) = some n := by decide

theorem length_escapeChar (c) : 0 < (escapeChar c).length := by
  unfold escapeChar
  split
  all_goals first | exact Nat.succ_pos _ | (split <;> exact Nat.succ_pos _)

theorem length_le_flatMap_escapeChar (chars : List Char) : chars.length ≤ (chars.flatMap escapeChar).length := by
  induction chars with
  | nil => exact Nat.le_refl _
  | cons c rest ih =>
    have some := length_escapeChar c
    rw [List.flatMap_cons, List.length_append, List.length_cons]
    omega

theorem hex4?_control (control : n < 32) (text) :
    hex4? ('0' :: '0' :: hexDigit (n / 16) :: hexDigit (n % 16) :: text) = some (n, text) := by
  have high := hexValue?_hexDigit (n / 16) (by omega)
  have low := hexValue?_hexDigit (n % 16) (by omega)
  have zero : Chars.hexValue? '0' = some 0 := by decide
  have value : ((0 * 16 + 0) * 16 + n / 16) * 16 + n % 16 = n := by omega
  simp only [hex4?, zero, high, low, Option.bind_eq_bind, Option.bind_some, value]
  rfl

theorem stringTail_control {c : Char} (control : c.toNat < 32) (fuel) (text) :
    stringTail (fuel + 1) ('\\' :: 'u' :: '0' :: '0' :: hexDigit (c.toNat / 16) :: hexDigit (c.toNat % 16) :: text) =
      (stringTail fuel text).map fun read => (c :: read.1, read.2) := by
  have escape : unicodeEscape ('0' :: '0' :: hexDigit (c.toNat / 16) :: hexDigit (c.toNat % 16) :: text) = .ok (c, text) := by
    have single : (decide (0xD800 ≤ c.toNat) && decide (c.toNat ≤ 0xDBFF)) = false := by
      simp only [Bool.and_eq_false_iff, decide_eq_false_iff_not]
      omega
    have single' : (decide (0xDC00 ≤ c.toNat) && decide (c.toNat ≤ 0xDFFF)) = false := by
      simp only [Bool.and_eq_false_iff, decide_eq_false_iff_not]
      omega
    rw [unicodeEscape, hex4?_control control]
    simp only [single, single', Bool.false_eq_true, if_false, Char.ofNat_toNat]
  rw [stringTail.eq_def]
  simp only [if_neg (show '\\' ≠ '"' by decide), if_true, escape, bind, Except.bind]
  cases stringTail fuel text <;> rfl

theorem stringTail_escapeChar (c) (fuel) (text) :
    stringTail (fuel + 1) (escapeChar c ++ text) = (stringTail fuel text).map fun read => (c :: read.1, read.2) := by
  have taken : ∀ c : Char, ((stringTail fuel text).bind fun read => .ok (c :: read.1, read.2)) =
      (stringTail fuel text).map fun read => (c :: read.1, read.2) := by
    intro c
    cases stringTail fuel text <;> rfl
  unfold escapeChar
  split
  case h_8 quote slash _ _ _ _ _ =>
    split
    · rename_i control
      exact stringTail_control control fuel text
    · rename_i printable
      rw [List.singleton_append, stringTail.eq_def]
      simp only [if_neg quote, if_neg slash, if_neg printable]
      exact taken c
  all_goals exact taken _

theorem stringTail_quoted {chars : List Char} (enough : chars.length < fuel) (rest) :
    stringTail fuel (chars.flatMap escapeChar ++ '"' :: rest) = .ok (chars, rest) := by
  induction chars generalizing fuel with
  | nil =>
    obtain ⟨fuel, rfl⟩ : ∃ k, fuel = k + 1 := ⟨fuel - 1, by simp at enough; omega⟩
    simp [stringTail]
  | cons c more ih =>
    rw [List.length_cons] at enough
    obtain ⟨fuel, rfl⟩ : ∃ k, fuel = k + 1 := ⟨fuel - 1, by omega⟩
    rw [List.flatMap_cons, List.append_assoc, stringTail_escapeChar, ih (by omega)]
    rfl

theorem string_quoted (text : String) (rest) :
    string (text.toList.flatMap escapeChar ++ '"' :: rest) = .ok (text, rest) := by
  have enough : text.toList.length < (text.toList.flatMap escapeChar ++ '"' :: rest).length + 1 := by
    have := length_le_flatMap_escapeChar text.toList
    rw [List.length_append]
    omega
  rw [string, stringTail_quoted enough]
  simp [bind, Except.bind, pure, Except.pure]

theorem toList_quote (text) (rest) :
    (quote text).toList ++ rest = '"' :: (text.toList.flatMap escapeChar ++ '"' :: rest) := by
  simp [quote, quoteChars]

/-! ### Blanks -/

theorem skipSpace_of_not_isSpace (mark : isSpace c = false) (rest) :
    skipSpace (c :: rest) = c :: rest := by
  simp [skipSpace, mark]

theorem skipSpace_indent (depth) (mark : isSpace c = false) (rest) :
    skipSpace ((indent depth).toList ++ c :: rest) = c :: rest := by
  have blanks : ∀ n, skipSpace (List.replicate n ' ' ++ c :: rest) = c :: rest := by
    intro n
    induction n with
    | zero => exact skipSpace_of_not_isSpace mark rest
    | succ n ih => exact ih
  rw [indent, String.toList_ofList]
  exact blanks (2 * depth)

theorem skipSpace_skipSpace (text) : skipSpace (skipSpace text) = skipSpace text :=
  List.dropWhile_idempotent isSpace text

theorem value_blank (fuel depth) (shape : Shape) (text) :
    value fuel depth shape (' ' :: text) = value fuel depth shape text := by
  have blank : skipSpace (' ' :: text) = skipSpace text := rfl
  cases fuel with
  | zero => simp only [value]
  | succ fuel => rw [value, value, blank]

theorem members_skipSpace (fuel depth) (shape : Shape) (text) :
    members fuel depth shape (skipSpace text) = members fuel depth shape text := by
  cases fuel with
  | zero => simp only [members]
  | succ fuel => rw [members, members, skipSpace_skipSpace]

/-! ### Members -/

def memberText (level : Nat) (key : String) (text : List Char) : List Char :=
  (indent level).toList ++ ((quote key).toList ++ ':' :: ' ' :: text)

theorem skipSpace_memberText (level) (key) (text) :
    skipSpace (memberText level key text) = '"' :: (key.toList.flatMap escapeChar ++ '"' :: ':' :: ' ' :: text) := by
  rw [memberText, toList_quote]
  exact skipSpace_indent level (by decide) _

section
variable {shape : Shape} {read : Json}

theorem memberValue_of_value (known : shape.member? key = some member)
    (taken : value fuel depth member text = .ok (read, rest)) :
    memberValue (fuel + 1) depth shape key (' ' :: text) = .ok ([(key, read)], rest) := by
  rw [memberValue]
  simp only [known, value_blank, taken, bind, Except.bind, pure, Except.pure]

theorem members_last (known : shape.member? key = some member) (taken : value fuel depth member text = .ok (read, rest))
    (closed : skipSpace rest = '\x7d' :: after) :
    members (fuel + 2) depth shape (memberText level key text) = .ok ([(key, read)], after) := by
  have colon : skipSpace (':' :: ' ' :: text) = ':' :: ' ' :: text := skipSpace_of_not_isSpace (by decide) _
  rw [members, skipSpace_memberText]
  simp only [string_quoted, colon, memberValue_of_value known taken, closed, bind, Except.bind, pure, Except.pure]

theorem members_more (known : shape.member? key = some member) (taken : value fuel depth member text = .ok (read, rest))
    (comma : skipSpace rest = ',' :: after) :
    members (fuel + 2) depth shape (memberText level key text) =
      (members (fuel + 1) depth shape after).map fun more => ((key, read) :: more.1, more.2) := by
  have colon : skipSpace (':' :: ' ' :: text) = ':' :: ' ' :: text := skipSpace_of_not_isSpace (by decide) _
  rw [members, skipSpace_memberText]
  simp only [string_quoted, colon, memberValue_of_value known taken, comma, bind, Except.bind, pure, Except.pure]
  cases members (fuel + 1) depth shape after <;> rfl

theorem value_brace (taken : members fuel depth shape (memberText level key text) = .ok (entries, rest)) :
    value (fuel + 1) (depth + 1) shape ('\x7b' :: memberText level key text) = .ok (.obj entries, rest) := by
  have brace : skipSpace ('\x7b' :: memberText level key text) = '\x7b' :: memberText level key text :=
    skipSpace_of_not_isSpace (by decide) _
  rw [← members_skipSpace] at taken
  rw [value, brace]
  simp only
  rw [skipSpace_memberText] at taken ⊢
  split
  · rename_i same
    simp at same
  · rw [taken]
    rfl

end

/-! ### Objects of strings -/

def textMembers (entries : List (String × String)) : List (String × Json) :=
  entries.map fun entry => (entry.1, .str entry.2)

theorem value_quote (fuel depth) (shape : Shape) (text) (rest) :
    value (fuel + 1) depth shape ((quote text).toList ++ rest) = .ok (.str text, rest) := by
  have start := skipSpace_of_not_isSpace (c := '"') (by decide) (text.toList.flatMap escapeChar ++ '"' :: rest)
  rw [toList_quote, value, start]
  simp only [string_quoted, bind, Except.bind, pure, Except.pure]

theorem prettyMembers_singleton (level) (entry) (rest) :
    (prettyMembers level (textMembers [entry])).toList ++ rest =
      memberText level entry.1 ((quote entry.2).toList ++ rest) := by
  simp [textMembers, prettyMembers, prettyAt, memberText]

theorem prettyMembers_cons (level) (entry next) (more)
    (rest) :
    (prettyMembers level (textMembers (entry :: next :: more))).toList ++ rest =
      memberText level entry.1 ((quote entry.2).toList ++
        ',' :: ((prettyMembers level (textMembers (next :: more))).toList ++ rest)) := by
  simp [textMembers, prettyMembers, prettyAt, memberText]

theorem members_textMembers (depth level) (some : entries ≠ []) (enough : entries.length + 2 ≤ fuel)
    (closed : skipSpace rest = '\x7d' :: after) :
    members fuel depth .whole ((prettyMembers level (textMembers entries)).toList ++ rest) =
      .ok (textMembers entries, after) := by
  induction entries generalizing fuel with
  | nil => exact absurd rfl some
  | cons entry more ih =>
    rw [List.length_cons] at enough
    obtain ⟨fuel, rfl⟩ : ∃ k, fuel = k + 3 := ⟨fuel - 3, by omega⟩
    cases more with
    | nil =>
      rw [prettyMembers_singleton, members_last rfl (value_quote fuel depth .whole _ _) closed]
      rfl
    | cons next more =>
      have comma := skipSpace_of_not_isSpace (c := ',') (by decide)
        ((prettyMembers level (textMembers (next :: more))).toList ++ rest)
      rw [prettyMembers_cons, members_more rfl (value_quote fuel depth .whole _ _) comma, ih (by simp) (by omega)]
      rfl

theorem value_textObject (depth level) (entries : List (String × String)) (enough : entries.length + 3 ≤ fuel)
    (rest) :
    value fuel (depth + 1) .whole ((prettyAt level (.obj (textMembers entries))).toList ++ rest) =
      .ok (.obj (textMembers entries), rest) := by
  obtain ⟨fuel, rfl⟩ : ∃ k, fuel = k + 1 := ⟨fuel - 1, by omega⟩
  cases entries with
  | nil =>
    have text : (prettyAt level (.obj (textMembers []))).toList ++ rest = '\x7b' :: '\x7d' :: rest := by
      simp [textMembers, prettyAt]
    have brace : ∀ text, skipSpace ('\x7b' :: text) = '\x7b' :: text := skipSpace_of_not_isSpace (by decide)
    have close : ∀ text, skipSpace ('\x7d' :: text) = '\x7d' :: text := skipSpace_of_not_isSpace (by decide)
    rw [text, value, brace]
    simp only [close]
    rfl
  | cons entry more =>
    have text : (prettyAt level (.obj (textMembers (entry :: more)))).toList ++ rest =
        '\x7b' :: ((prettyMembers (level + 1) (textMembers (entry :: more))).toList ++
          ((indent level).toList ++ '\x7d' :: rest)) := by
      simp [textMembers, prettyAt]
    have closed := skipSpace_indent level (c := '\x7d') (by decide) rest
    have few : (entry :: more).length + 2 ≤ fuel := by omega
    have taken := members_textMembers depth (level + 1) (List.cons_ne_nil entry more) few closed
    rw [text]
    cases more with
    | nil =>
      rw [prettyMembers_singleton] at taken ⊢
      exact value_brace taken
    | cons next more =>
      rw [prettyMembers_cons] at taken ⊢
      exact value_brace taken

theorem length_prettyMembers (level) (entries : List (String × String)) :
    entries.length ≤ (prettyMembers level (textMembers entries)).toList.length := by
  induction entries with
  | nil => exact Nat.zero_le _
  | cons entry more ih =>
    cases more with
    | nil =>
      have text := congrArg List.length (prettyMembers_singleton level entry [])
      simp only [List.append_nil, memberText, List.length_append, List.length_cons] at text
      rw [List.length_singleton, text]
      omega
    | cons next more =>
      have text := congrArg List.length (prettyMembers_cons level entry next more [])
      simp only [List.append_nil, memberText, List.length_append, List.length_cons] at text
      rw [List.length_cons, text]
      omega

theorem toList_pretty_single (name) (document) :
    (pretty (.obj [(name, document)])).toList =
      '\x7b' :: memberText 1 name ((prettyAt 1 document).toList ++ ((indent 0).toList ++ ['\x7d'])) := by
  have text : pretty (.obj [(name, document)]) =
      "\x7b" ++ (indent 1 ++ quote name ++ ": " ++ prettyAt 1 document) ++ indent 0 ++ "\x7d" := by
    rw [pretty, prettyAt, prettyMembers]
    simp
  rw [text]
  simp [memberText]

theorem readAs_textObject (name) (entries) :
    readAs (.flat [name]) (pretty (.obj [(name, .obj (textMembers entries))])) =
      .ok (.obj [(name, .obj (textMembers entries))]) := by
  have text := toList_pretty_single name (.obj (textMembers entries))
  have known : (Shape.flat [name]).member? name = some .whole := by
    simp [Shape.flat, Shape.member?]
  have closed := skipSpace_indent 0 (c := '\x7d') (by decide) []
  have enough : entries.length + 6 ≤ 2 * (pretty (.obj [(name, .obj (textMembers entries))])).toList.length + 1 := by
    have inner : entries.length ≤ (prettyAt 1 (.obj (textMembers entries))).toList.length := by
      cases entries with
      | nil => exact Nat.zero_le _
      | cons entry more =>
        have members := length_prettyMembers 2 (entry :: more)
        have written : prettyAt 1 (.obj (textMembers (entry :: more))) =
            "\x7b" ++ prettyMembers 2 (textMembers (entry :: more)) ++ indent 1 ++ "\x7d" := by
          rw [prettyAt]
          simp [textMembers]
        rw [written, String.toList_append, String.toList_append, String.toList_append, List.length_append,
          List.length_append, List.length_append]
        omega
    rw [text]
    simp only [memberText, List.length_cons, List.length_append]
    omega
  have whole : ∀ fuel, entries.length + 6 ≤ fuel →
      value fuel maxDepth (.flat [name]) (pretty (.obj [(name, .obj (textMembers entries))])).toList =
        .ok (.obj [(name, .obj (textMembers entries))], []) := by
    intro fuel enough
    obtain ⟨fuel, rfl⟩ : ∃ k, fuel = k + 3 := ⟨fuel - 3, by omega⟩
    have few : entries.length + 3 ≤ fuel := by omega
    have taken := value_textObject 125 1 entries few ((indent 0).toList ++ ['\x7d'])
    rw [text]
    exact value_brace (members_last known taken closed)
  simp only [readAs, whole _ enough, bind, Except.bind]
  rfl

end ComponentCompiler.Json
