import ComponentCompiler.Proofs.Rendering.Termination
import ComponentCompiler.Template.Emit

/-!
The markup of rendered templates. Main statement: `render?_markup`, values are only written escaped, and the
tags follow from what the placeholders are replaced by.
-/

namespace ComponentCompiler

theorem Chars.replaceFrom_single (mark) (replacement text) :
    replaceFrom [mark] replacement 0 text = text.flatMap fun c => if c = mark then replacement else [c] := by
  induction text with
  | nil => rfl
  | cons c rest ih =>
    by_cases same : mark = c
    · subst same
      simp [replaceFrom, startsWith, dropPrefix?, ih]
    · simp [replaceFrom, startsWith, dropPrefix?, ih, same, Ne.symm same]

theorem Text.toList_replaceAll (mark) (replacement text) :
    (replaceAll (.singleton mark) replacement text).toList =
      text.toList.flatMap fun c => if c = mark then replacement.toList else [c] := by
  rw [replaceAll, String.toList_ofList, String.toList_singleton, Chars.replaceAll]
  exact Chars.replaceFrom_single mark replacement.toList text.toList

namespace Rendering

/-! ### Escaping -/

def isDelimiter (c : Char) : Bool := c == '<' || c == '>' || c == '"'

def entity (c : Char) : List Char :=
  if c = '&' then "&amp;".toList
  else if c = '<' then "&lt;".toList
  else if c = '>' then "&gt;".toList
  else if c = '"' then "&quot;".toList
  else [c]

theorem entity_cases (c) :
    (c = '&' ∨ c = '<' ∨ c = '>' ∨ c = '"') ∨ entity c = [c] ∧ c ≠ '&' ∧ isDelimiter c = false := by
  by_cases special : c = '&' ∨ c = '<' ∨ c = '>' ∨ c = '"'
  · exact .inl special
  · rw [not_or, not_or, not_or] at special
    exact .inr (by simp [entity, isDelimiter, special])

def decode : List Char → List Char
  | '&' :: 'a' :: 'm' :: 'p' :: ';' :: rest => '&' :: decode rest
  | '&' :: 'l' :: 't' :: ';' :: rest => '<' :: decode rest
  | '&' :: 'g' :: 't' :: ';' :: rest => '>' :: decode rest
  | '&' :: 'q' :: 'u' :: 'o' :: 't' :: ';' :: rest => '"' :: decode rest
  | c :: rest => c :: decode rest
  | [] => []

/-- One replacement after the other is the same as one for each character: what an earlier one writes is left alone, as
`&` comes first. -/
theorem toList_escape (text) : (escape text).toList = text.toList.flatMap entity := by
  show (Text.replaceAll (.singleton '"') "&quot;" (Text.replaceAll (.singleton '>') "&gt;"
    (Text.replaceAll (.singleton '<') "&lt;" (Text.replaceAll (.singleton '&') "&amp;" text)))).toList = _
  simp only [Text.toList_replaceAll, List.flatMap_assoc]
  congr 1
  funext c
  rcases entity_cases c with (rfl | rfl | rfl | rfl) | ⟨same, ampersand, plain⟩
  iterate 4 rfl
  · simp only [isDelimiter, Bool.or_eq_false_iff, beq_eq_false_iff_ne] at plain
    simp only [same, if_neg ampersand, if_neg plain.1.1, if_neg plain.1.2, if_neg plain.2, List.flatMap_singleton]

theorem decode_escape (text) : decode (escape text).toList = text.toList := by
  rw [toList_escape]
  induction text.toList with
  | nil => rfl
  | cons c rest ih =>
    rw [List.flatMap_cons]
    rcases entity_cases c with (rfl | rfl | rfl | rfl) | ⟨same, ampersand, -⟩
    iterate 4 exact congrArg (_ :: ·) ih
    · rw [same, List.singleton_append, decode, ih]
      all_goals exact fun _ same => absurd same ampersand

theorem not_isDelimiter_of_mem_escape (mem : c ∈ (escape text).toList) : isDelimiter c = false := by
  rw [toList_escape, List.mem_flatMap] at mem
  obtain ⟨d, -, inside⟩ := mem
  rcases entity_cases d with (rfl | rfl | rfl | rfl) | ⟨same, -, plain⟩
  iterate 4 revert c; simp [entity, isDelimiter]
  · rw [same] at inside
    exact List.mem_singleton.mp inside ▸ plain

/-! ### Names -/

variable {bodies : TemplateBodies} {scope scope' : Scope} {nodes : List TemplateNode} {heads : List ElementHead}
  {pieces : List Piece} {piece : Piece}

def attributeNames (head : ElementHead) : List String :=
  head.staticAttributes.toList.map (·.1) ++ head.attributeBindings.toList.map (·.1) ++ head.props.map (·.name)

def hasCleanNames (head : ElementHead) : Bool := (head.tag :: attributeNames head).all fun name => !name.toList.any isDelimiter

theorem mem_attributeNames (mem : a ∈ attributesOf scope head) : a.1 ∈ attributeNames head := by
  rw [attributesOf, List.mem_append, List.mem_append] at mem
  rw [attributeNames, List.mem_append, List.mem_append]
  rcases mem with (fixed | bound) | prop
  · exact .inl (.inl (List.mem_map_of_mem fixed))
  · obtain ⟨b, inside, rfl⟩ := List.mem_map.mp bound
    exact .inl (.inr (List.mem_map_of_mem inside))
  · obtain ⟨p, inside, found⟩ := List.mem_filterMap.mp prop
    obtain ⟨value, -, rfl⟩ := Option.map_eq_some_iff.mp found
    exact .inr (List.mem_map_of_mem inside)

namespace Piece

def head? : Piece → Option ElementHead
  | opening head _ => some head
  | closing head => some head
  | text .. => none

def tagText? : Piece → Option String
  | opening head scope => some (head.tag ++ Text.join "" ((attributesOf scope head).map fun a => attributeText a.1 a.2))
  | closing head => some ("/" ++ head.tag)
  | text .. => none

def values : Piece → List String
  | opening head scope => (attributesOf scope head).map (·.2)
  | closing _ => []
  | text parts scope => [partsText scope parts]

end Piece

/-- A piece is written for a node that rendering comes to, with the scope that it comes there with. -/
inductive Written (bodies : TemplateBodies) : List TemplateNode → Scope → Piece → Prop
  | here {nodes scope node piece} (member : node ∈ nodes) (own : piece ∈ opened scope node ++ closed node) :
      Written bodies nodes scope piece
  | inside {nodes scope node part piece} (member : node ∈ nodes) (content : part ∈ contents bodies scope node)
      (written : Written bodies part.1 part.2 piece) : Written bodies nodes scope piece

theorem Written.tail (written : Written bodies nodes scope piece) : Written bodies (node :: nodes) scope piece := by
  cases written with
  | here mem own => exact .here (List.mem_cons_of_mem _ mem) own
  | inside mem content written => exact .inside (List.mem_cons_of_mem _ mem) content written

theorem headsOf_contents {node : TemplateNode}
    (within : ∀ id body, bodies.get? id = some body → ∀ head ∈ TemplateNode.headsOf body, head ∈ heads)
    (own : ∀ head ∈ node.heads, head ∈ heads) (mem : part ∈ contents bodies scope node) :
    ∀ head ∈ TemplateNode.headsOf part.1, head ∈ heads := by
  cases node with
  | element head children projected =>
    rw [contents] at mem
    split at mem
    · contradiction
    · rw [List.mem_singleton.mp mem]
      simp only [TemplateNode.heads, TemplateNode.headsOf_eq, TemplateNode.headsProjected_eq, List.flatMap_append,
        List.flatMap_assoc, List.forall_mem_cons] at own ⊢
      exact own.2
  | text parts => contradiction
  | fragment children | slot selector children =>
    rw [List.mem_singleton.mp mem]
    exact own
  | placeholder p =>
    obtain ⟨id, -, found⟩ := exists_of_mem_expansions mem
    exact within id part.1 found

theorem head_mem_heads (own : piece ∈ opened scope node ++ closed node) : ∀ head ∈ piece.head?, head ∈ node.heads := by
  cases node with
  | element head children projected =>
    have tag : piece = .opening head scope ∨ piece = .closing head := by
      by_cases void : isVoid head.tag
      · exact .inl (by simpa [opened, closed, void] using own)
      · simpa [opened, closed, void] using own
    rcases tag with rfl | rfl <;> simp [Piece.head?, TemplateNode.heads]
  | text parts =>
    obtain rfl : piece = .text parts scope := by simpa [opened, closed] using own
    simp [Piece.head?]
  | _ => contradiction

theorem Written.head_mem (written : Written bodies nodes scope piece)
    (within : ∀ id body, bodies.get? id = some body → ∀ head ∈ TemplateNode.headsOf body, head ∈ heads)
    (own : ∀ head ∈ TemplateNode.headsOf nodes, head ∈ heads) : ∀ head ∈ piece.head?, head ∈ heads := by
  induction written with
  | here mem written =>
    rw [TemplateNode.headsOf_eq, List.forall_mem_flatMap] at own
    exact fun head is => own _ mem head (head_mem_heads written head is)
  | inside mem content _ ih =>
    rw [TemplateNode.headsOf_eq, List.forall_mem_flatMap] at own
    exact ih (headsOf_contents within (own _ mem) content)

/-! ### Tags -/

/-- The texts between brackets; the first argument is what has been read of the one that is open, backwards. -/
def tagsIn : Option (List Char) → List Char → List (List Char)
  | _, [] => []
  | none, c :: rest => if c = '<' then tagsIn (some []) rest else tagsIn none rest
  | some read, c :: rest => if c = '>' then read.reverse :: tagsIn none rest else tagsIn (some (c :: read)) rest

def tags (html : String) : List (List Char) := tagsIn none html.toList

def tagName (tag : List Char) : List Char := tag.takeWhile (· ≠ ' ')

def IsPlain (text : List Char) : Prop := ∀ c ∈ text, c ≠ '<' ∧ c ≠ '>'

theorem tagsIn_outside (plain : IsPlain text) (rest) : tagsIn none (text ++ rest) = tagsIn none rest := by
  induction text with
  | nil => rfl
  | cons c text ih =>
    obtain ⟨other, later⟩ := List.forall_mem_cons.mp plain
    rw [List.cons_append, tagsIn, if_neg other.1, ih later]

theorem tagsIn_inside (plain : IsPlain text) (read rest) :
    tagsIn (some read) (text ++ '>' :: rest) = (read.reverse ++ text) :: tagsIn none rest := by
  induction text generalizing read with
  | nil => simp [tagsIn]
  | cons c text ih =>
    obtain ⟨other, later⟩ := List.forall_mem_cons.mp plain
    rw [List.cons_append, tagsIn, if_neg other.2, ih later]
    simp

theorem isPlain_of_not_isDelimiter (plain : ∀ c ∈ text, isDelimiter c = false) : IsPlain text := by
  intro c mem
  have := plain c mem
  simp_all [isDelimiter]

theorem isPlain_escape (text) : IsPlain (escape text).toList :=
  isPlain_of_not_isDelimiter fun _ mem => not_isDelimiter_of_mem_escape mem

theorem isPlain_attributeText {name : String} (plain : IsPlain name.toList) (value) :
    IsPlain (attributeText name value).toList := by
  have escaped := isPlain_escape value
  unfold IsPlain at *
  rw [attributeText]
  split
  · simpa using plain
  · simpa [or_imp, forall_and] using ⟨⟨fun c inside => (plain c inside).1, fun c inside => (escaped c inside).1⟩,
      fun c inside => (plain c inside).2, fun c inside => (escaped c inside).2⟩

theorem isPlain_tagText (clean : ∀ head ∈ piece.head?, hasCleanNames head) (is : piece.tagText? = some text) :
    IsPlain text.toList := by
  have plain {head : ElementHead} {name : String} (clean : hasCleanNames head) (is : name ∈ head.tag :: attributeNames head) :
      IsPlain name.toList := by
    refine isPlain_of_not_isDelimiter ?_
    simpa using List.all_eq_true.mp clean name is
  cases piece with
  | text parts scope => contradiction
  | closing head =>
    obtain rfl := Option.some.inj is
    simpa [IsPlain] using plain (clean head rfl) List.mem_cons_self
  | opening head scope =>
    obtain rfl := Option.some.inj is
    rw [IsPlain, String.toList_append, Text.toList_join, List.flatMap_map, List.forall_mem_append, List.forall_mem_flatMap]
    refine ⟨plain (clean head rfl) List.mem_cons_self, fun a mem => ?_⟩
    exact isPlain_attributeText (plain (clean head rfl) (List.mem_cons_of_mem _ (mem_attributeNames mem))) a.2

theorem tags_htmlOf (clean : ∀ piece ∈ pieces, ∀ head ∈ piece.head?, hasCleanNames head) :
    tags (htmlOf pieces) = (pieces.filterMap (·.tagText?)).map (·.toList) := by
  rw [tags]
  induction pieces with
  | nil => rfl
  | cons piece more ih =>
    obtain ⟨first, later⟩ := List.forall_mem_cons.mp clean
    have tag {text : String} (is : piece.tagText? = some text) (whole : piece.html = "<" ++ text ++ ">") :
        tagsIn none (htmlOf (piece :: more)).toList = ((piece :: more).filterMap (·.tagText?)).map (·.toList) := by
      rw [List.filterMap_cons_some is, List.map_cons, ← ih later, htmlOf, List.map_cons, Text.join_cons, whole]
      simp [tagsIn, tagsIn_inside (isPlain_tagText first is), htmlOf]
    cases piece with
    | text parts scope =>
      refine Eq.trans ?_ (ih later)
      rw [htmlOf, List.map_cons, Text.join_cons, String.toList_append]
      exact tagsIn_outside (isPlain_escape _) _
    | closing head => exact tag rfl (String.toList_injective (by simp [Piece.html, endTag]))
    | opening head scope => exact tag rfl (String.toList_injective (by simp [Piece.html, startTag]))

def Piece.tagName? (piece : Piece) : Option (List Char) := piece.tagText?.map (tagName ·.toList)

theorem tagName?_opening (head) (scope) : (Piece.opening head scope).tagName? = some (tagName head.tag.toList) := by
  have stop (attributes : List (String × String)) :
      (Text.join "" (attributes.map fun a => attributeText a.1 a.2)).toList.takeWhile (· ≠ ' ') = [] := by
    cases attributes with
    | nil => rfl
    | cons a more =>
      rw [List.map_cons, Text.join_cons, attributeText]
      split <;> simp
  refine congrArg some (show tagName (head.tag ++ _).toList = tagName _ from ?_)
  rw [tagName, tagName, String.toList_append, List.takeWhile_append, stop]
  split
  · rename_i whole
    rw [List.append_nil, ( List.takeWhile_prefix _).eq_of_length whole]
  · rfl

theorem tagNames_opened (scope scope') (node) :
    (opened scope node).filterMap (·.tagName?) = (opened scope' node).filterMap (·.tagName?) := by
  cases node with
  | element head children projected => simp only [opened, List.filterMap_cons, tagName?_opening]
  | _ => rfl

/-! ### Two scopes -/

/-- With both scopes each node contains the same nodes, with scopes that are related in their turn. -/
def Agree (bodies : TemplateBodies) (R : List TemplateNode → Scope → Scope → Prop) (nodes : List TemplateNode) (scope scope' : Scope) : Prop :=
  ∀ node ∈ nodes, List.Forall₂ (fun a b => a.1 = b.1 ∧ R a.1 a.2 b.2) (contents bodies scope node) (contents bodies scope' node)

/-- Wherever rendering comes to a placeholder, it is replaced by the same bodies with both scopes: the one of a condition, or that
of a loop as often as there are items. -/
def SameDecisions (bodies : TemplateBodies) (nodes : List TemplateNode) (scope scope' : Scope) : Prop :=
  ∃ R, (∀ nodes scope scope', R nodes scope scope' → Agree bodies R nodes scope scope') ∧ R nodes scope scope'

/-- Two texts with the same tags, of pieces that come from the one and the other. -/
def Alike (From From' : Piece → Prop) (html html' : String) : Prop :=
  ∃ pieces pieces', html = htmlOf pieces ∧ html' = htmlOf pieces' ∧ (∀ piece ∈ pieces, From piece) ∧ (∀ piece ∈ pieces', From' piece) ∧
    pieces.filterMap (·.tagName?) = pieces'.filterMap (·.tagName?)

section

variable {From From' : Piece → Prop} {R : List TemplateNode → Scope → Scope → Prop}

theorem Alike.append (first : Alike From From' a a') (second : Alike From From' b b') :
    Alike From From' (a ++ b) (a' ++ b') := by
  obtain ⟨pieces, pieces', rfl, rfl, own, own', same⟩ := first
  obtain ⟨later, later', rfl, rfl, more, more', same'⟩ := second
  exact ⟨pieces ++ later, pieces' ++ later', (htmlOf_append ..).symm, (htmlOf_append ..).symm, List.forall_mem_append.mpr ⟨own, more⟩,
    List.forall_mem_append.mpr ⟨own', more'⟩, by rw [List.filterMap_append, List.filterMap_append, same, same']⟩

theorem Alike.imp (alike : Alike From From' html html') (each : ∀ piece, From piece → To piece)
    (each' : ∀ piece, From' piece → To' piece) : Alike To To' html html' := by
  obtain ⟨pieces, pieces', text, text', own, own', same⟩ := alike
  exact ⟨pieces, pieces', text, text', fun piece mem => each piece (own piece mem), fun piece mem => each' piece (own' piece mem), same⟩

theorem alike_contents {parts parts' : List (List TemplateNode × Scope)} {inner : List String}
    (same : List.Forall₂ (fun a b => a.1 = b.1 ∧ R a.1 a.2 b.2) parts parts')
    (each : List.Forall₂ (fun part content => ∀ scope', R part.1 part.2 scope' → ∃ content', nodesText? bodies scope' part.1 = some content' ∧
      Alike (Written bodies part.1 part.2) (Written bodies part.1 scope') content content') parts inner)
    (own : ∀ part ∈ parts, ∀ piece, Written bodies part.1 part.2 piece → From piece)
    (own' : ∀ part ∈ parts', ∀ piece, Written bodies part.1 part.2 piece → From' piece) :
    ∃ inner', (parts'.mapM fun part => nodesText? bodies part.2 part.1) = some inner' ∧
      Alike From From' (Text.join "" inner) (Text.join "" inner') := by
  induction same generalizing inner with
  | nil =>
    cases each
    exact ⟨[], rfl, [], [], rfl, rfl, List.forall_mem_nil _, List.forall_mem_nil _, rfl⟩
  | @cons part part' parts parts' first _ ih =>
    cases each with
    | @cons _ content _ inner here later =>
    obtain ⟨own, owns⟩ := List.forall_mem_cons.mp own
    obtain ⟨own', owns'⟩ := List.forall_mem_cons.mp own'
    obtain ⟨content', ends, alike⟩ := here _ first.2
    obtain ⟨inner', all, rest⟩ := ih later owns owns'
    rw [first.1] at ends alike
    refine ⟨content' :: inner', by simp [List.mapM_cons, ends, all], ?_⟩
    rw [Text.join_cons, Text.join_cons]
    exact (alike.imp (first.1 ▸ own) own').append rest

theorem alike_of_agree {html : String} (closed : ∀ nodes scope scope', R nodes scope scope' → Agree bodies R nodes scope scope')
    (ends : nodesText? bodies scope nodes = some html) : ∀ scope', Agree bodies R nodes scope scope' →
      ∃ html', nodesText? bodies scope' nodes = some html' ∧ Alike (Written bodies nodes scope) (Written bodies nodes scope') html html' := by
  refine nodesText?_induction (P := fun scope nodes html => ∀ scope', Agree bodies R nodes scope scope' → ∃ html',
    nodesText? bodies scope' nodes = some html' ∧ Alike (Written bodies nodes scope) (Written bodies nodes scope') html html') ?_ ?_ ends
  · intro scope scope' _
    exact ⟨"", by rw [nodesText?], [], [], rfl, rfl, List.forall_mem_nil _, List.forall_mem_nil _, rfl⟩
  · intro scope node rest inner after inside later scope' agree
    obtain ⟨same, agree⟩ := List.forall_mem_cons.mp agree
    obtain ⟨after', ends', after⟩ := later scope' agree
    obtain ⟨inner', all, alike⟩ := alike_contents same
      (inside.imp fun part content each scope' related => each scope' (closed _ _ _ related))
      (fun part mem piece written => Written.inside List.mem_cons_self mem written)
      (fun part mem piece written => Written.inside List.mem_cons_self mem written)
    have own {scope : Scope} (piece : Piece) (own : piece ∈ opened scope node ++ Rendering.closed node) :
        Written bodies (node :: rest) scope piece := .here List.mem_cons_self own
    refine ⟨_, by rw [nodesText?_cons, textWith?, all, ends']; rfl, (((?_ : Alike _ _ _ _).append alike).append ?_).append
      (after.imp (fun _ => .tail) fun _ => .tail)⟩
    · exact ⟨_, _, rfl, rfl, fun _ => own _ ∘ List.mem_append_left _, fun _ => own _ ∘ List.mem_append_left _, tagNames_opened ..⟩
    · exact ⟨_, _, rfl, rfl, fun _ => own _ ∘ List.mem_append_right _, fun _ => own _ ∘ List.mem_append_right _, rfl⟩

end

end Rendering

open Rendering in
/-- The output is made of tags with names of the template and of escaped values, and where brackets are read in it, the tags
are found. Another scope that leads to the same decisions gives the same tags. -/
theorem CompiledTemplate.render?_markup (t : CompiledTemplate)
    (clean : (t.forests.flatMap TemplateNode.headsOf).all hasCleanNames) (scope : Scope) (html : String)
    (ends : t.render? scope = some html) :
    (∃ pieces, html = htmlOf pieces ∧ tags html = (pieces.filterMap (·.tagText?)).map (·.toList) ∧
      ∀ piece ∈ pieces, Written t.bodies t.nodes scope piece ∧
        (∀ head ∈ piece.head?, head ∈ t.forests.flatMap TemplateNode.headsOf) ∧
        ∀ value ∈ piece.values, (∀ c ∈ (escape value).toList, isDelimiter c = false) ∧ decode (escape value).toList = value.toList) ∧
      ∀ scope', SameDecisions t.bodies t.nodes scope scope' →
        ∃ html', t.render? scope' = some html' ∧ (tags html').map tagName = (tags html).map tagName := by
  have own {scope : Scope} {piece : Piece} (written : Written t.bodies t.nodes scope piece) :
      ∀ head ∈ piece.head?, head ∈ t.forests.flatMap TemplateNode.headsOf := by
    refine written.head_mem (fun id body found head has => ?_) (fun head has => ?_)
    · exact List.mem_flatMap.mpr ⟨body, List.mem_cons_of_mem _ (SortedMap.mem_values_iff.mpr ⟨id, found⟩), has⟩
    · exact List.mem_flatMap.mpr ⟨t.nodes, List.mem_cons_self, has⟩
  have tagsOf {scope : Scope} {pieces : List Piece} (written : ∀ piece ∈ pieces, Written t.bodies t.nodes scope piece) :
      tags (htmlOf pieces) = (pieces.filterMap (·.tagText?)).map (·.toList) :=
    tags_htmlOf fun piece member head is => List.all_eq_true.mp clean head (own (written piece member) head is)
  constructor
  · have agree (nodes : List TemplateNode) (scope scope' : Scope) (same : scope = scope') :
        Agree t.bodies (fun _ scope scope' => scope = scope') nodes scope scope' := by
      subst same
      exact fun node _ => List.forall₂_same.mpr fun part _ => ⟨rfl, rfl⟩
    obtain ⟨_, -, pieces, -, rfl, -, written, -⟩ := alike_of_agree agree ends scope (agree _ _ _ rfl)
    exact ⟨pieces, rfl, tagsOf written, fun piece member => ⟨written piece member, own (written piece member), fun value _ =>
      ⟨fun c inside => not_isDelimiter_of_mem_escape inside, decode_escape value⟩⟩⟩
  · rintro scope' ⟨R, closed, related⟩
    obtain ⟨_, ends', pieces, pieces', rfl, rfl, written, written', same⟩ := alike_of_agree closed ends scope' (closed _ _ _ related)
    refine ⟨_, ends', ?_⟩
    rw [tagsOf written, tagsOf written', List.map_map, List.map_map, List.map_filterMap, List.map_filterMap]
    exact same.symm

open Rendering

def greeting : String := "<p *if=\"a\" title=\"$\x7bb\x7d\">$\x7bb\x7d</p>"

theorem render?_markup_greeting : ∃ t html pieces, Template.compile? pageContext greeting = some t ∧
    t.render? (.ofList [("a", .bool true), ("b", .str "\"<i>&amp;")]) = some html ∧ html = htmlOf pieces ∧
      tags html = (pieces.filterMap (·.tagText?)).map (·.toList) := by
  have compiles : (Template.compile? pageContext greeting).any (fun t =>
      (t.bodies.toList.all fun entry => (bodyReferences entry.2).all fun next => entryRank next < entryRank entry.1) &&
        (t.forests.flatMap TemplateNode.headsOf).all hasCleanNames) = true := by
    decide +kernel
  obtain ⟨t, compiled, holds⟩ := (Option.any_eq_true _ _).mp compiles
  obtain ⟨lower, clean⟩ := Bool.and_eq_true_iff.mp holds
  obtain ⟨html, ends⟩ := Option.isSome_iff_exists.mp (isSome_of_bodiesEnd (bodiesEnd_of_acyclic fun _ _ id _ =>
    acyclic_of_rank entryRank lower id) (.ofList [("a", .bool true), ("b", .str "\"<i>&amp;")]))
  obtain ⟨⟨pieces, text, found, -⟩, -⟩ := t.render?_markup clean _ html ends
  exact ⟨t, html, pieces, compiled, ends, text, found⟩

end ComponentCompiler
