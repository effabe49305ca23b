import ComponentCompiler.Proofs.Files.Join
import ComponentCompiler.Proofs.Text.Bytes
import ComponentCompiler.Selector.Query

/-!
Selectors as they are written. Main statements: `ofText?_written`, a compound selector is read as what it is written from,
and `of?_alternatives`, what a query for several alternatives picks up.
-/

namespace ComponentCompiler

open List

namespace Chars

theorem strip_eq {p : Char → Bool} {before after : List Char} (first : ∀ c ∈ before, p c) (last : ∀ c ∈ after, p c)
    (none : ∀ c ∈ text, p c = false) : (((before ++ text ++ after).dropWhile p).reverse.dropWhile p).reverse = text := by
  have kept : ∀ {text}, (∀ c ∈ text, p c = false) → dropWhile p text = text := by
    intro text none
    cases text with
    | nil => rfl
    | cons c rest => rw [dropWhile_cons_of_neg (by simp [none c mem_cons_self])]
  have back := kept fun c mem => none c (mem_reverse.mp mem)
  rw [append_assoc, dropWhile_append_of_pos first, dropWhile_append, kept none]
  split
  · rename_i empty
    rw [isEmpty_iff.mp empty, dropWhile_eq_nil_iff.mpr last]
    rfl
  · rw [reverse_append, dropWhile_append_of_pos fun c mem => last c (mem_reverse.mp mem), back, reverse_reverse]

theorem trim_blank_append {before : List Char} (blank : ∀ c ∈ before, isBlank c) (text) : trim (before ++ text) = trim text := by
  rw [trim, trimStart, dropWhile_append_of_pos blank, trim, trimStart]

theorem trim_append_blank {after : List Char} (blank : ∀ c ∈ after, isBlank c) (text) : trim (text ++ after) = trim text := by
  rw [trim, trim, trimStart, trimStart, dropWhile_append]
  split
  · rename_i none
    rw [isEmpty_iff.mp none, dropWhile_eq_nil_iff.mpr blank]
  · rw [trimEnd, reverse_append, dropWhile_append_of_pos fun c mem => blank c (mem_reverse.mp mem), trimEnd]

theorem trim_solid (solid : ∀ c ∈ text, isBlank c = false) : trim text = text := by
  simpa [trim, trimStart, trimEnd] using @strip_eq _ _ [] [] (by simp) (by simp) solid

theorem exists_trim (text : List Char) :
    ∃ before after, text = before ++ trim text ++ after ∧ (∀ c ∈ before, isBlank c) ∧ ∀ c ∈ after, isBlank c := by
  refine ⟨text.takeWhile isBlank, ((trimStart text).reverse.takeWhile isBlank).reverse, ?_, ?_, ?_⟩
  · rw [append_assoc, trim, trimEnd, ← reverse_append, takeWhile_append_dropWhile, reverse_reverse, trimStart,
      takeWhile_append_dropWhile]
  · exact all_eq_true.mp (all_takeWhile ..)
  · intro c mem
    exact all_eq_true.mp (all_takeWhile ..) c (mem_reverse.mp mem)

theorem trim_eq_nil_iff : trim text = [] ↔ ∀ c ∈ text, isBlank c := by
  constructor
  · intro empty
    obtain ⟨before, after, shape, first, last⟩ := exists_trim text
    grind
  · intro blank
    rw [trim, trimStart, dropWhile_eq_nil_iff.mpr blank]
    rfl

theorem splitOnce?_append (absent : sep ∉ before) (after : List Char) :
    splitOnce? sep (before ++ sep :: after) = some (before, after) := by
  induction before with
  | nil => rw [nil_append, splitOnce?, if_pos rfl]
  | cons c before ih =>
    simp only [mem_cons, not_or] at absent
    rw [cons_append, splitOnce?, if_neg (Ne.symm absent.1), ih absent.2]
    rfl

theorem splitOnce?_eq_none (absent : sep ∉ text) : splitOnce? sep text = none := by
  induction text with
  | nil => rfl
  | cons c text ih =>
    simp only [mem_cons, not_or] at absent
    rw [splitOnce?, if_neg (Ne.symm absent.1), ih absent.2]
    rfl

end Chars

namespace Selector

open Chars

/-- The characters that mean something in selectors and their lists. -/
def marks : List Char := ['#', '.', '[', ']', '=', ',', '"', '\'']

def isWordChar (c : Char) : Bool := isAsciiAlphanumeric c || c == '-' || c == '_'

structure Word where
  chars : List Char
  filled : chars ≠ []
  plain : chars.all isWordChar

variable (w : Word)

def Word.text : String := .ofList w.chars

/-- A part of a selector as it is written. A value may stand in quotes. -/
inductive Written where
  | reference (name : Word)
  | className (name : Word)
  | present (name : Word)
  | equals (name value : Word) (quoted : Bool)

namespace Written

def quotes (quoted : Bool) : List Char := if quoted then ['"'] else []

def part : Written → Part
  | reference name => .reference name.chars
  | className name => .className name.chars
  | present name => .attribute name.chars
  | equals name value quoted => .attribute (name.chars ++ '=' :: (quotes quoted ++ value.chars ++ quotes quoted))

def chars (w : Written) : List Char :=
  match w.part with
  | .reference name => '#' :: name
  | .className name => '.' :: name
  | .attribute inner => '[' :: inner ++ [']']

def reference? : Written → Option String
  | reference name => some name.text
  | _ => none

def className? : Written → Option String
  | className name => some name.text
  | _ => none

def attribute? : Written → Option (String × Option String)
  | present name => some (name.text, none)
  | equals name value _ => some (name.text, some value.text)
  | _ => none

end Written

/-- A tag and parts, one of which there is at least, with blanks around them. -/
structure Compound where
  tag : Option Word
  parts : List Written
  filled : tag.isSome ∨ parts ≠ []
  before : List Char
  after : List Char
  blank : (before ++ after).all isBlank

namespace Compound

def core (c : Compound) : List Char := (c.tag.elim [] (·.chars)) ++ c.parts.flatMap (·.chars)

def text (c : Compound) : String := .ofList (c.before ++ c.core ++ c.after)

def selector (c : Compound) : Selector where
  tag := c.tag.map (·.text)
  reference := (c.parts.filterMap (·.reference?)).getLast?
  classes := c.parts.filterMap (·.className?)
  attributes := c.parts.filterMap (·.attribute?)

end Compound

/-! ### What words are clear of -/

theorem Word.clear (mem : c ∈ w.chars) : c ∉ marks ∧ isBlank c = false := by
  have word := all_eq_true.mp w.plain c mem
  have low : c.toNat < 128 := by
    simp only [isWordChar, Bool.or_eq_true, beq_iff_eq] at word
    rcases word with (word | rfl) | rfl
    · exact isAscii_of_alphanumeric word
    · decide
    · decide
  revert word
  exact ascii_cases c low (by decide)

theorem Word.not_mem (special : c ∈ marks) : c ∉ w.chars := fun mem => (w.clear mem).1 special

theorem Word.starts (mem : c ∈ w.chars) : startsPart c = false ∧ isNameChar c ∧ isQuote c = false := by
  have clear := (w.clear mem).1
  simp only [marks, mem_cons, not_or] at clear
  simp [isNameChar, startsPart, isQuote, clear]

theorem Compound.core_clear (c : Compound) (mem : d ∈ c.core) : d ≠ ',' ∧ isBlank d = false := by
  have word (w : Word) (mem : d ∈ w.chars) : d ≠ ',' ∧ isBlank d = false :=
    ⟨fun same => w.not_mem (by decide) (same ▸ mem), (w.clear mem).2⟩
  have mark : ∀ d ∈ ['#', '.', '[', ']', '=', '"'], d ≠ ',' ∧ isBlank d = false := by simp [isBlank]
  rcases mem_append.mp mem with tag | part
  · cases named : c.tag with
    | none => simp [named] at tag
    | some w => exact word w (by simpa [named] using tag)
  · obtain ⟨part, -, mem⟩ := mem_flatMap.mp part
    rcases part with _ | _ | _ | ⟨_, _, _ | _⟩ <;>
      simp only [Written.chars, Written.part, Written.quotes, mem_append, mem_cons, not_mem_nil] at mem <;> grind

/-! ### Parts -/

def Stops (rest : List Char) : Prop := rest.head?.all startsPart

theorem takeWhile_word (stops : Stops rest) : (w.chars ++ rest).takeWhile isNameChar = w.chars := by
  rw [takeWhile_append_of_pos fun c mem => (w.starts mem).2.1]
  cases rest with
  | nil => simp
  | cons c rest =>
    have here : startsPart c := by simpa [Stops] using stops
    rw [takeWhile_cons_of_neg (by simp [isNameChar, here]), append_nil]

theorem parts_word (rest : List Char) : parts false (w.chars ++ rest) = parts false rest := by
  have passed : ∀ name : List Char, (∀ c ∈ name, c ∉ marks) →
      parts false (name ++ rest) = parts false rest := by
    intro name clear
    induction name with
    | nil => rfl
    | cons c name ih =>
      have here := clear c mem_cons_self
      simp only [marks, mem_cons, not_or] at here
      rw [cons_append, parts]
      simp [here, ih fun d mem => clear d (mem_cons_of_mem _ mem)]
  exact passed _ fun c mem => (w.clear mem).1

theorem parts_bracket {inner : List Char} (open_ : ']' ∉ inner) (rest : List Char) :
    parts false ('[' :: inner ++ [']'] ++ rest) = .attribute inner :: parts false rest := by
  have passed : ∀ inner : List Char, ']' ∉ inner → parts true (inner ++ ']' :: rest) = parts false rest := by
    intro inner absent
    induction inner with
    | nil => rfl
    | cons c inner ih =>
      simp only [mem_cons, not_or] at absent
      rw [cons_append, parts, if_pos rfl, bne_iff_ne.mpr (Ne.symm absent.1), ih absent.2]
  have upTo : (inner ++ ']' :: rest).takeWhile (· != ']') = inner := by
    rw [takeWhile_append_of_pos fun c mem => bne_iff_ne.mpr (ne_of_mem_of_not_mem mem open_),
      takeWhile_cons_of_neg (by simp), append_nil]
  have shape : '[' :: inner ++ [']'] ++ rest = '[' :: (inner ++ ']' :: rest) := by simp
  rw [shape, parts, upTo, passed inner open_]
  rfl

theorem attributeValue_word (quoted : Bool) :
    attributeValue (Written.quotes quoted ++ (w.chars ++ Written.quotes quoted)) = w.chars := by
  rw [← append_assoc]
  have quote : ∀ c ∈ Written.quotes quoted, isQuote c ∧ isBlank c = false := by
    cases quoted <;> simp [Written.quotes, isQuote, isBlank]
  have kept : trim (Written.quotes quoted ++ w.chars ++ Written.quotes quoted) = _ := trim_solid fun c mem => by
    rcases mem_append.mp mem with mem | last
    · exact (mem_append.mp mem).elim (fun first => (quote c first).2) fun inside => (w.clear inside).2
    · exact (quote c last).2
  rw [attributeValue, kept]
  exact strip_eq (fun c mem => (quote c mem).1) (fun c mem => (quote c mem).1) fun c mem => (w.starts mem).2.2

theorem parts_written (part : Written) (stops : Stops rest) :
    parts false (part.chars ++ rest) = part.part :: parts false rest := by
  have close : (']' : Char) ∈ marks := by decide
  cases part with
  | reference name | className name =>
    rw [Written.chars, Written.part, cons_append, parts, takeWhile_word name stops, parts_word]
    rfl
  | present name => exact parts_bracket (name.not_mem close) rest
  | equals name value quoted =>
    exact parts_bracket (by cases quoted <;> simp [Written.quotes, name.not_mem close, value.not_mem close]) rest

theorem stops_parts (written : List Written) : Stops (written.flatMap (·.chars)) := by
  cases written with
  | nil => rfl
  | cons part _ => cases part <;> rfl

theorem parts_all (written : List Written) : parts false (written.flatMap (·.chars)) = written.map (·.part) := by
  induction written with
  | nil => rfl
  | cons part more ih => rw [flatMap_cons, parts_written part (stops_parts more), ih, map_cons]

theorem ofParts_written (tag : Option String) (written : List Written) :
    ofParts tag (written.map (·.part)) = ⟨tag, (written.filterMap (·.reference?)).getLast?, written.filterMap (·.className?),
      written.filterMap (·.attribute?)⟩ := by
  have absent : ∀ w : Word, '=' ∉ w.chars := fun w => w.not_mem (by decide)
  have solid : ∀ w : Word, trim w.chars = w.chars := fun w => trim_solid fun c mem => (w.clear mem).2
  rw [ofParts, filterMap_map, filterMap_map, filterMap_map]
  congr 3 <;> funext part <;> cases part <;>
    simp [Written.part, Written.reference?, Written.className?, Written.attribute?, Word.text, attributeOf, solid,
      splitOnce?_eq_none, splitOnce?_append, absent, attributeValue_word]

theorem ofChars?_core (c : Compound) : ofChars? c.core = some c.selector := by
  obtain ⟨tag, written, filled, before, after, blank⟩ := c
  rw [Compound.core, Compound.selector]
  cases tag with
  | none =>
    obtain ⟨part, more, rfl⟩ := exists_cons_of_ne_nil (filled.resolve_left (by simp))
    obtain ⟨mark, rest, shape, starts⟩ : ∃ mark rest, (part :: more).flatMap (·.chars) = mark :: rest ∧ startsPart mark := by
      cases part <;> exact ⟨_, _, rfl, rfl⟩
    have all := parts_all (part :: more)
    rw [Option.elim, nil_append]
    rw [shape] at all ⊢
    simp only [ofChars?, starts, if_true, all]
    rw [ofParts_written]
    rfl
  | some w =>
    obtain ⟨first, rest, shape⟩ := exists_cons_of_ne_nil w.filled
    have plain := (w.starts (shape ▸ mem_cons_self)).1
    have name := takeWhile_word w (stops_parts written)
    have all := parts_word w (written.flatMap (·.chars))
    rw [parts_all] at all
    simp only [Option.elim]
    rw [shape, cons_append] at name all ⊢
    simp only [ofChars?, plain, name, all]
    rw [ofParts_written, ← shape]
    rfl

theorem Compound.not_comma (c : Compound) : ',' ∉ c.text.toList := by
  have blank : ',' ∉ c.before ++ c.after := fun mem => absurd (all_eq_true.mp c.blank _ mem) (by decide)
  have core : ',' ∉ c.core := fun mem => (c.core_clear mem).1 rfl
  rw [mem_append] at blank
  simp [text, core, not_or.mp blank]

theorem trim_text (c : Compound) : trim (c.before ++ c.core ++ c.after) = c.core :=
  have blank := all_eq_true.mp c.blank
  strip_eq (fun d mem => blank d (mem_append_left _ mem)) (fun d mem => blank d (mem_append_right _ mem))
    fun _ mem => (c.core_clear mem).2

theorem listOfText_join (plain : ∀ text ∈ texts, ',' ∉ text.toList) (filled : texts ≠ []) :
    listOfText (Text.join "," texts) = texts.filterMap ofText? := by
  have absent : ∀ piece ∈ texts.map (·.toList), ',' ∉ piece := by simpa using plain
  rw [listOfText, Text.join, String.toList_ofList, show ",".toList = [','] from rfl, splitOn_join absent (by simpa using filled),
    filterMap_map]
  rfl

/-- A compound selector is read as the tag, the last reference, the classes and the attributes that it is written from,
whatever blanks surround it, and so is each one of a list. Every text that is not blank is read as some selector. -/
theorem ofText?_written :
    (∀ c : Compound, ofText? c.text = some c.selector) ∧
    (∀ list : List Compound, listOfText (Text.join "," (list.map (·.text))) = list.map (·.selector)) ∧
    ∀ text, (ofText? text).isSome ↔ Text.isBlank text = false := by
  have one : ∀ c : Compound, ofText? c.text = some c.selector := by
    intro c
    rw [ofText?, Compound.text, String.toList_ofList, trim_text, ofChars?_core]
  refine ⟨one, fun list => ?_, fun text => ?_⟩
  · rcases eq_or_ne list [] with rfl | filled
    · rfl
    · rw [listOfText_join (by simpa using fun c _ => c.not_comma) (by simpa using filled), filterMap_map]
      simp [one]
  · have read : ∀ chars, (ofChars? chars).isSome ↔ chars ≠ [] := by
      intro chars
      cases chars <;> simp [ofChars?]
    rw [ofText?, read, Ne, trim_eq_nil_iff, ← all_eq_true, Bool.not_eq_true, Text.isBlank]

/-! ### Alternatives -/

theorem listOfText_trim (text : String) : listOfText (Text.trim text) = listOfText text := by
  have comma : ∀ {blanks : List Char}, (∀ c ∈ blanks, isBlank c) → ',' ∉ blanks :=
    fun blank mem => absurd (blank _ mem) (by decide)
  have first : ∀ blanks text : List Char, (∀ c ∈ blanks, isBlank c) →
      (Chars.splitOn ',' (blanks ++ text)).map trim = (Chars.splitOn ',' text).map trim := by
    intro blanks text blank
    induction blanks with
    | nil => rfl
    | cons c blanks ih =>
      have here := blank c mem_cons_self
      obtain ⟨piece, more, pieces⟩ := exists_cons_of_ne_nil (Chars.splitOn_ne_nil ',' (blanks ++ text))
      rw [← ih fun d mem => blank d (mem_cons_of_mem _ mem), cons_append, Chars.splitOn,
        if_neg (ne_of_mem_of_not_mem mem_cons_self (comma blank)), pieces, map_cons, map_cons,
        ← @trim_blank_append [c] (by simpa using here) piece]
      rfl
  have last : ∀ blanks text : List Char, (∀ c ∈ blanks, isBlank c) →
      (Chars.splitOn ',' (text ++ blanks)).map trim = (Chars.splitOn ',' text).map trim := by
    intro blanks text blank
    obtain ⟨pieces, final, same, extended⟩ := splitOn_extend (comma blank) text
    simp [same, extended, trim_append_blank blank]
  obtain ⟨before, after, shape, blankBefore, blankAfter⟩ := exists_trim text.toList
  have read : ∀ text, listOfText text = ((Chars.splitOn ',' text.toList).map trim).filterMap ofChars? := by
    intro text
    rw [filterMap_map]
    rfl
  rw [read, read, Text.trim, String.toList_ofList, ← first before _ blankBefore, ← last after _ blankAfter, ← shape]

end Selector

namespace QueryRank

/-- Whether a text is read as a selector of more than a name that selects a node. -/
def Picks (target : MatchTarget) (text : String) : Prop :=
  ∃ s, Selector.ofText? text = some s ∧ s.bareName? = none ∧ s.selects target

/-- A list of alternatives matches a node by its reference, its tag or a directive only as a whole. Otherwise it picks up
what one of the alternatives selects that are more than a name. -/
theorem of?_alternatives (target : MatchTarget) (texts : List String) (filled : texts ≠ [])
    (plain : ∀ text ∈ texts, ',' ∉ text.toList) :
    let whole := Text.trim (Text.join "," texts)
    (of? (Text.join "," texts) target).isSome ↔
      target.reference = some (.ofList (whole.toList.dropWhile (· == '#'))) ∨
      Text.startsWith "#" whole = false ∧ (Selector.equalIgnoringCase whole target.tag ∨ whole ∈ target.directives ∨
        ∃ text ∈ texts, Picks target text) := by
  have compound : ((Selector.listOfText (Text.trim (Text.join "," texts))).any fun s => s.bareName?.isNone && s.selects target) =
      true ↔ ∃ text ∈ texts, Picks target text := by
    rw [Selector.listOfText_trim, Selector.listOfText_join plain filled, any_eq_true]
    simp only [mem_filterMap, Bool.and_eq_true, Option.isNone_iff_eq_none, Picks]
    grind
  rw [of?]
  grind

/-- A name among several alternatives is lost. -/
theorem of?_name_among_alternatives :
    of? "a" ⟨"a", none, ∅, []⟩ = some .tag ∧ of? "b" ⟨"a", none, ∅, []⟩ = none ∧ of? "a,b" ⟨"a", none, ∅, []⟩ = none := by
  decide

theorem of?_alternatives_compound :
    (of? (Text.join "," ["b", "[sortable]"]) ⟨"ul", none, ∅, ["sortable"]⟩).isSome :=
  (of?_alternatives ⟨"ul", none, ∅, ["sortable"]⟩ ["b", "[sortable]"] (by decide) (by decide)).mpr
    (.inr ⟨by decide, .inr (.inr ⟨"[sortable]", by simp, ⟨none, none, [], [("sortable", none)]⟩, by decide, by decide, by decide⟩)⟩)

end QueryRank

end ComponentCompiler
