import ComponentCompiler.Proofs.Script.Literals

/-!
Values of annotations that are written out again. Main statement: `ofNode_script`; the text of a
method begins with its parameters and is no expression.
-/

namespace ComponentCompiler

open Chars
open Script.Context (plain_module)

/-! ### Texts at their places -/

def Chars.Has (source : List Char) (offset : Nat) (text : List Char) : Prop :=
  ∃ before after, source = before ++ text ++ after ∧ byteLength before = offset

namespace Chars.Has


theorem left (has : Has source offset (text ++ more)) : Has source offset text := by
  obtain ⟨before, after, rfl, length⟩ := has
  exact ⟨before, more ++ after, by simp, length⟩

theorem right (has : Has source offset (text ++ more)) : Has source (offset + byteLength text) more := by
  obtain ⟨before, after, rfl, rfl⟩ := has
  exact ⟨before ++ text, after, by simp, byteLength_append ..⟩

theorem slice_before (length : offset + byteLength before = start) (ordered : start ≤ stop) :
    Chars.slice ⟨start, stop⟩ offset (before ++ rest) = Chars.slice ⟨start, stop⟩ start rest := by
  induction before generalizing offset with
  | nil =>
    cases length
    rfl
  | cons c before ih =>
    have size := c.utf8Size_pos
    simp only [byteLength] at length
    rw [List.cons_append, Chars.slice, if_neg (by dsimp only; omega), if_neg (by dsimp only; omega), ih (by omega)]

theorem slice_text (behind : start ≤ offset) :
    Chars.slice ⟨start, offset + byteLength text⟩ offset (text ++ after) = text := by
  induction text generalizing offset with
  | nil => cases after <;> simp [Chars.slice, byteLength]
  | cons c text ih =>
    have size := c.utf8Size_pos
    simp only [byteLength]
    rw [List.cons_append, Chars.slice, if_neg (by dsimp only; omega), if_pos behind, ← Nat.add_assoc, ih (by omega)]

theorem slice {source code : String} (has : Has source.toList offset code.toList) :
    (Span.mk offset (offset + byteLength code.toList)).slice source = code := by
  obtain ⟨before, after, split, length⟩ := has
  rw [Span.slice, split, List.append_assoc, slice_before (by omega) (Nat.le_add_right ..), slice_text (Nat.le_refl _),
    String.ofList_toList]

end Chars.Has

namespace PropertyValue

open Script Script.Parse
variable {source : List Char}

/-! ### Values that can be read -/

def IsSpread (value : PropertyValue) : Prop :=
  ∃ code answer, value = .raw ("..." ++ code) ∧ Reads .module code.toList answer

/-- The value is written as an expression. Numbers have a sign only by an operator, names are free to be variables, and a
text that stands for itself is one expression that is kept as its text. -/
inductive Legible : PropertyValue → Prop
  | string (value : String) : Legible (.string value)
  | number {n : Binary64} (rounded : n.IsRounded) (finite : n.isFinite = true) : Legible (.number n)
  | bool (value : Bool) : Legible (.bool value)
  | null : Legible .null
  | array {items : List PropertyValue} (each : ∀ item ∈ items, ¬item.IsSpread → item.Legible) : Legible (.array items)
  | object {entries : List (String × PropertyValue)} (each : ∀ entry ∈ entries, entry.2.Legible) : Legible (.object entries)
  | identifier {name : String} (usable : IsVariable name) : Legible (.identifier name)
  | raw {code : String} (reads : Reads .module code.toList fun span node => node.span = span ∧
      ∀ source, ofNode source node = .raw (span.slice source)) : Legible (.raw code)

/-- The node is in its place, and it has the value in every source that has the text there. -/
def Restores (value : PropertyValue) (span : Span) (node : Node) : Prop :=
  node.span = span ∧ ∀ source : String, Has source.toList span.start value.script.toList → ofNode source node = value

theorem scripts_eq_map (items) : scripts items = items.map script := by
  induction items with
  | nil => rfl
  | cons item more ih => rw [scripts, ih, List.map_cons]

theorem entryScripts_eq_map (entries) :
    entryScripts entries = entries.map fun entry => (Writer.key entry.1, entry.2.script) := by
  induction entries with
  | nil => rfl
  | cons entry more ih => rw [entryScripts, ih, List.map_cons]

theorem script_array (items) :
    (script (.array items)).toList = bracketed "[" "]" [] (fun item => item.script.toList) items := by
  simp [script, scripts_eq_map, Writer.list, Text.join, bracketed, joined, Function.comp_def]

def padding (entries : List (String × PropertyValue)) : List Char := if entries.isEmpty then [] else [' ']

theorem isPadding (entries) : IsPadding (padding entries) := by
  unfold padding
  split
  · exact .inl rfl
  · exact .inr rfl

abbrev entryText (entry : String × PropertyValue) : List Char := memberText entry.1 entry.2.script.toList

theorem script_object (entries) :
    (script (.object entries)).toList = bracketed "\x7b" "\x7d" (padding entries) entryText entries := by
  cases entries with
  | nil => rfl
  | cons entry more =>
    have text : entryText = fun entry => (Writer.key entry.1).toList ++ ':' :: ' ' :: entry.2.script.toList := by
      funext entry
      simp [memberText]
    simp [script, entryScripts_eq_map, Writer.object, Writer.braces, Text.join, bracketed, joined, padding, text,
      Function.comp_def]

theorem ofElements_eq_flatMap (source) (nodes) :
    ofElements source nodes = nodes.flatMap fun node => [ofNode source node] := by
  induction nodes with
  | nil => rfl
  | cons node more ih =>
    rw [List.flatMap_cons, ← ih]
    conv_lhs => unfold ofElements
    split
    all_goals
      rename_i same
      cases same
    all_goals rfl

theorem ofMembers_eq_flatMap (source) (nodes) :
    ofMembers source nodes = nodes.flatMap fun node => ofMembers source [node] := by
  induction nodes with
  | nil => rfl
  | cons node more ih =>
    rw [List.flatMap_cons, ← ih]
    conv_lhs => unfold ofMembers
    split
    all_goals
      rename_i same
      cases same
    · rfl
    · rfl
    · rfl
    · rw [ofMembers]
      all_goals first | rfl | assumption

theorem has_joined {ι : Type} {text : ι → List Char} {item : ι} {more : List ι}
    (has : Has source offset (joined text (item :: more))) : Has source offset (text item) ∧
      (more ≠ [] → Has source (offset + byteLength (text item) + 2) (joined text more)) := by
  cases more with
  | nil => exact ⟨by simpa [joined, join] using has, fun some => absurd rfl some⟩
  | cons second more =>
    have split : joined text (item :: second :: more) = text item ++ ([',', ' '] ++ joined text (second :: more)) := by
      simp [joined, join]
    rw [split] at has
    exact ⟨has.left, fun _ => has.right.right⟩

theorem has_bracketed {ι : Type} {text : ι → List Char} {items : List ι} (opens : opening ∈ Lexer.singles)
    (padding : IsPadding blank) (has : Has source offset (bracketed opening close blank text items)) :
    Has source (offset + 1 + blank.length) (joined text items) := by
  have inside := has.right.right.left
  rwa [byteLength_single opens, padding.byteLength] at inside

theorem has_memberText (has : Has source offset (memberText key value)) :
    Has source (offset + byteLength (Writer.key key).toList + 2) value := by
  have split : memberText key value = (Writer.key key).toList ++ ([':', ' '] ++ value) := by simp [memberText]
  rw [split] at has
  exact has.right.right

theorem flatMap_of_answers {ι : Type} {text : ι → List Char} {answer : ι → Span → Node → Prop} {value : Node → List ι}
    {items : List ι}
    (each : ∀ item ∈ items, ∀ span node, answer item span node → Has source span.start (text item) → value node = [item])
    (answers : Answers text answer offset items nodes) (has : Has source offset (joined text items)) :
    nodes.flatMap value = items := by
  induction items generalizing nodes offset with
  | nil =>
    cases answers
    rfl
  | cons item more ih =>
    cases nodes with
    | nil => cases answers
    | cons node nodes =>
      obtain ⟨first, rest⟩ := answers
      obtain ⟨here, behind⟩ := has_joined has
      have later := List.forall_mem_cons.mp each
      rw [List.flatMap_cons, later.1 _ node first here, List.singleton_append]
      congr 1
      cases more with
      | nil =>
        cases rest
        rfl
      | cons second more => exact ih later.2 rest (behind (List.cons_ne_nil _ _))

theorem restores_raw {code : String} {node : Node} (place : node.span = span)
    (kept : ∀ source, ofNode source node = .raw (span.slice source))
    (stop : span.stop = span.start + byteLength code.toList) : (raw code).Restores span node := by
  refine ⟨place, fun source has => ?_⟩
  have same : (Span.mk span.start span.stop).slice source = code := stop ▸ Has.slice has
  rw [kept source, same]

theorem readsItem_script {item : PropertyValue}
    (reads : ¬item.IsSpread → Reads .module item.script.toList item.Restores)
    (enough : fuelFor item.script.toList.length ≤ fuel) :
    ReadsItem (arrayElement ⟨fuel, parse fuel⟩ .module) "]" item.script.toList item.Restores := by
  by_cases spread : item.IsSpread
  · obtain ⟨code, answer, rfl, value⟩ := spread
    have text : (script (.raw ("..." ++ code))).toList = spreadText code.toList := String.toList_append
    rw [text] at enough ⊢
    have fits : fuelFor code.toList.length ≤ fuel := by
      simp only [spreadText, fuelFor, List.length_append] at enough ⊢
      omega
    have element := readsItem_spread plain_module value fits
    refine ⟨element.opens, fun rest closes offset s place => ?_⟩
    obtain ⟨node, t, gives, goes, inner, rfl⟩ := element.taken closes place
    refine ⟨_, t, gives, goes, restores_raw rfl (fun _ => rfl) ?_⟩
    rw [← text]
    rfl
  · exact readsItem_arrayElement plain_module (reads spread) enough

theorem reads_script {value : PropertyValue} (legible : value.Legible) : Reads .module value.script.toList value.Restores := by
  induction legible with
  | string value =>
    have text : (script (.string value)).toList = Json.quoteChars value.toList := String.toList_ofList
    rw [text]
    exact (reads_string plain_module value).imp fun span node same _ => same ▸ ⟨rfl, fun _ _ => rfl⟩
  | number rounded finite => exact (reads_number plain_module rounded finite).imp fun span node same _ => same ▸ ⟨rfl, fun _ _ => rfl⟩
  | bool value =>
    cases value
    · exact (reads_wordLiteral plain_module rfl).imp fun span node same _ => same ▸ ⟨rfl, fun _ _ => rfl⟩
    · exact (reads_wordLiteral plain_module rfl).imp fun span node same _ => same ▸ ⟨rfl, fun _ _ => rfl⟩
  | null => exact (reads_wordLiteral plain_module rfl).imp fun span node same _ => same ▸ ⟨rfl, fun _ _ => rfl⟩
  | identifier usable => exact (reads_identifier plain_module usable).imp fun span node same _ => same ▸ ⟨rfl, fun _ _ => rfl⟩
  | raw reads => exact reads.imp fun span node kept stop => restores_raw kept.1 kept.2 stop
  | @array items each ih =>
    rw [script_array]
    refine (reads_array plain_module fun item mem fuel enough => readsItem_script (ih item mem) enough).imp fun span node found _ => ?_
    obtain ⟨nodes, rfl, answers⟩ := found
    refine ⟨rfl, fun source has => ?_⟩
    rw [script_array] at has
    have inside := has_bracketed (by decide) (.inl rfl) has
    rw [ofNode, ofElements_eq_flatMap, flatMap_of_answers (fun item _ span node found here => ?_) answers inside]
    rw [found.2 source here]
  | @object entries each ih =>
    rw [script_object]
    refine (reads_object plain_module (isPadding entries) ih).imp fun span node found _ => ?_
    obtain ⟨nodes, rfl, answers⟩ := found
    refine ⟨rfl, fun source has => ?_⟩
    rw [script_object] at has
    have inside := has_bracketed (by decide) (isPadding entries) has
    rw [ofNode, ofMembers_eq_flatMap, flatMap_of_answers (fun entry _ span node found here => ?_) answers inside]
    obtain ⟨name, value, rfl, named, holds⟩ := found
    rw [ofMembers, named, holds.2 source (has_memberText here), ofMembers]

theorem reads_this : Reads .module "this".toList fun span node => node = .mk .this span [] := by
  have named : isName "this" := by decide
  have operand : (Token.word "this").isOperand := by decide
  refine .of_token plain_module operand (fun _ closes => Lexer.lexes_word named closes.endsWord) fun parts rest closes => ?_
  exact takes_word named closes fun s t lexeme start after last word next =>
    .bind gives_lexeme (.bind (.takeKeyword last.plain next) .pure)

def panel : PropertyValue :=
  .object [("selector", .string "x-panel"), ("line height", .number (.ofRatio false 5 2)), ("shown", .bool true), ("owner", .null),
    ("provide", .array [.identifier "Store", .raw "this", .raw "...stores", .object []])]

theorem legible_panel : panel.Legible := by
  have rounded : (Binary64.ofRatio false 5 2).IsRounded := @Binary64.ofRatio_isRounded 2 5 Nat.zero_lt_two
  have finite : (Binary64.ofRatio false 5 2).isFinite := by decide +kernel
  refine .object fun entry mem => ?_
  simp only [List.mem_cons, List.not_mem_nil, or_false] at mem
  rcases mem with rfl | rfl | rfl | rfl | rfl
  · exact .string _
  · exact .number rounded finite
  · exact .bool true
  · exact .null
  · refine .array fun item mem other => ?_
    simp only [List.mem_cons, List.not_mem_nil, or_false] at mem
    rcases mem with rfl | rfl | rfl | rfl
    · exact .identifier ⟨by decide, by decide, by decide⟩
    · exact .raw (reads_this.imp fun span node same _ => same ▸ ⟨rfl, fun _ => rfl⟩)
    · exact absurd ⟨"stores", _, rfl, reads_identifier plain_module ⟨by decide, by decide, by decide⟩⟩ other
    · exact .object fun entry mem => absurd mem List.not_mem_nil

end PropertyValue

end ComponentCompiler