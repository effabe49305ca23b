import ComponentCompiler.Proofs.Script.Reading
import ComponentCompiler.SourceModule.Extract

/-! Written arrays and objects. Main statements: `reads_array` and `reads_object`. -/

namespace ComponentCompiler.Script

open Parse Chars Lexer

theorem Token.ne_of_begins {token : Token} (begins : token.begins) :
    ∀ text ∈ ["]", ")", ",", "..."], token ≠ .punct text := by
  rintro text listed rfl
  simp only [Token.begins, List.contains_eq_mem, listed, decide_true, Bool.not_true, Bool.false_eq_true] at begins

def IsPadding (blank : List Char) : Prop := blank = [] ∨ blank = [' ']

section

theorem IsPadding.next (padding : IsPadding blank) (offset) :
    Lexer.next ⟨blank ++ text, offset⟩ = Lexer.next ⟨text, offset + blank.length⟩ := by
  rcases padding with rfl | rfl
  · rfl
  · exact next_blank text offset

theorem IsPadding.byteLength (padding : IsPadding blank) : Chars.byteLength blank = blank.length := by
  rcases padding with rfl | rfl
  all_goals rfl

theorem State.At.skip (padding : IsPadding blank) {s : State} (place : s.At (blank ++ text) offset) :
    s.At text (offset + blank.length) := by
  rwa [State.At, padding.next] at place

theorem byteLength_single {text : String} (single : text ∈ singles) :
    byteLength text.toList = 1 := by
  revert text
  decide

end

/-! ### Lists in brackets -/

section

variable {ι : Type} {text : ι → List Char} {answer : ι → Span → Node → Prop} {items : List ι} {opening close : String}
  {blank : List Char} {parts : Parts}

def bracketed (opening close : String) (blank : List Char) (text : ι → List Char) (items : List ι) : List Char :=
  opening.toList ++ (blank ++ (joined text items ++ (blank ++ close.toList)))

theorem takes_enclosed (loop : ListStep p close step) (opens : opening ∈ singles) (shuts : close ∈ singles)
    (padding : IsPadding blank) (each : ∀ item ∈ items, ReadsItem p close (text item) (answer item))
    (long : items.length < fuel) (inside : Closes (blank ++ (close.toList ++ rest))) (behind : Follows rest) :
    Takes (do
        expectPunct opening
        let items ← iterate fuel step []
        expectPunct close
        return items)
      (bracketed opening close blank text items) rest fun span nodes =>
        Answers text answer (span.start + 1 + blank.length) items nodes := by
  intro offset s place
  have split : bracketed opening close blank text items ++ rest =
      opening.toList ++ (blank ++ (joined text items ++ (blank ++ (close.toList ++ rest)))) := by simp [bracketed]
  rw [split] at place
  have first := lexes_single opens (blank ++ (joined text items ++ (blank ++ (close.toList ++ rest))))
  have last := lexes_single shuts rest
  have one := byteLength_single opens
  have one' := byteLength_single shuts
  -- Past the opening bracket the first item is at hand, or the closing bracket.
  obtain ⟨lexeme, start, after, next, -⟩ := opens_joined each inside (offset + 1 + blank.length)
  obtain ⟨t, opened, goes⟩ := place.advance first (by rw [one, padding.next, next])
  rw [one] at goes
  have closed : ∀ ⦃offset⦄ ⦃t : State⦄, t.At (blank ++ (close.toList ++ rest)) offset → t.current.token = .punct close := by
    intro offset t here
    rw [((here.skip padding).current last).1]
  obtain ⟨nodes, u, given, ended, fault, initialized, answers⟩ :=
    loop.gives inside closed each long (goes.place.skip padding)
  -- The closing bracket is taken, and what follows is at hand.
  obtain ⟨lexeme', start', after', next'⟩ := behind (offset + 1 + blank.length + byteLength (joined text items) +
    blank.length + byteLength close.toList)
  obtain ⟨v, shut, onward⟩ := (ended.skip padding).advance last next'
  have stop : offset + 1 + blank.length + byteLength (joined text items) + blank.length +
      byteLength close.toList = offset + byteLength (bracketed opening close blank text items) := by
    simp only [bracketed, byteLength_append, padding.byteLength, one, one']
    omega
  rw [stop] at onward
  refine ⟨nodes, v, ?_, ?_, answers⟩
  · exact .bind (.expectPunct (by rw [(place.current first).1]) opened) (.bind given (.bind (.expectPunct (closed ended) shut) .pure))
  · exact ⟨onward.place, onward.last, onward.fault.trans (fault.trans goes.fault),
      onward.initialized.trans (initialized.trans goes.initialized)⟩

theorem takes_bracketed (label : Label) (opens : opening ∈ singles) (shuts : close ∈ singles) (apart : close ≠ ",")
    (padding : IsPadding blank) (each : ∀ item ∈ items, ReadsItem p close (text item) (answer item))
    (long : items.length < parts.fuel) (inside : Closes (blank ++ (close.toList ++ rest))) (closes : Closes rest) :
    Takes (do
        let start ← here
        expectPunct opening
        let items ← literalItems parts start close p
        node start label items)
      (bracketed opening close blank text items) rest fun span node =>
        ∃ nodes, node = .mk label span nodes ∧ Answers text answer (span.start + 1 + blank.length) items nodes := by
  intro offset s place
  obtain ⟨step, loop, same⟩ := listStep_literalItems p apart s.current.span.start
  obtain ⟨nodes, t, gives, goes, answers⟩ := takes_enclosed loop opens shuts padding each long inside closes.follows place
  have began : s.current.span.start = offset := by
    rw [bracketed, List.append_assoc] at place
    rw [(place.current (lexes_single opens _)).1]
  refine ⟨.mk label ⟨s.current.span.start, t.lastEnd⟩ nodes, t, .bind gives_here ?_, goes, nodes, by rw [goes.last, began], answers⟩
  rw [← bind_assoc, same]
  exact .bind gives gives_node

theorem length_joined (text : ι → List Char) (items : List ι) : items.length ≤ (joined text items).length + 1 := by
  induction items with
  | nil => exact Nat.zero_le _
  | cons item more ih =>
    cases more with
    | nil => simp
    | cons second more =>
      simp only [joined, List.map_cons, join, List.length_append, List.length_cons] at ih ⊢
      omega

theorem length_item_le (text : ι → List Char) (mem : item ∈ items) :
    (text item).length ≤ (joined text items).length := by
  induction items with
  | nil => cases mem
  | cons first more ih =>
    cases more with
    | nil =>
      cases List.mem_singleton.mp mem
      simp [joined, join]
    | cons second more =>
      simp only [joined, List.map_cons, join, List.length_append] at ih ⊢
      rcases List.mem_cons.mp mem with rfl | later
      · omega
      · have := ih later
        omega

theorem fits_bracketed (opens : opening ∈ singles) (shuts : close ∈ singles)
    (enough : fuelFor (bracketed opening close blank text items).length ≤ fuel + 3) :
    (∀ item ∈ items, fuelFor (text item).length ≤ fuel) ∧ items.length < fuel := by
  have single : ∀ text ∈ singles, text.toList.length = 1 := by decide
  simp only [bracketed, fuelFor, List.length_append, single opening opens, single close shuts] at enough ⊢
  refine ⟨fun item mem => ?_, ?_⟩
  · have := length_item_le text mem
    omega
  · have := length_joined text items
    omega

end

/-! ### Arrays -/

theorem lexes_dots (rest) : Lexes "...".toList (.punct "...") rest :=
  lexes_punct _ rfl (by decide) rfl rfl

section

variable {context : Context} {text : List Char} {s : State}

theorem Reads.begins (reads : Reads context text answer) (closes : Closes rest) (place : s.At (text ++ rest) offset) :
    s.current.token.begins := by
  obtain ⟨lexeme, start, after, next, begins⟩ := reads.opens closes offset
  cases place.symm.trans next
  exact begins

theorem readsItem_arrayElement (plain : context.Plain) (reads : Reads context text answer) (enough : fuelFor text.length ≤ fuel) :
    ReadsItem (arrayElement ⟨fuel, parse fuel⟩ context) "]" text answer where
  opens rest closes offset := by
    obtain ⟨lexeme, start, after, next, begins⟩ := reads.opens closes offset
    exact ⟨lexeme, start, after, next, Token.ne_of_begins begins _ (by decide)⟩
  taken rest closes offset s place := by
    obtain ⟨node, t, gives, goes, holds⟩ := reads.parsed enough closes place
    have other := Token.ne_of_begins (reads.begins closes place)
    refine ⟨node, t, .bind gives_isPunct ?_, goes, holds⟩
    rw [if_neg (by simpa using other "," (by decide)), plain.within]
    exact .bind gives_here (.bind (.eatPunct_other (other "..." (by decide))) gives)

def spreadText (text : List Char) : List Char := "...".toList ++ text

theorem readsItem_spread (plain : context.Plain) (reads : Reads context text answer) (enough : fuelFor text.length ≤ fuel) :
    ReadsItem (arrayElement ⟨fuel, parse fuel⟩ context) "]" (spreadText text) fun span node =>
      ∃ value, node = .mk .spread span [value] where
  opens rest closes offset := by
    rw [spreadText, List.append_assoc]
    exact ⟨_, _, _, lexes_dots (text ++ rest) offset, by simp⟩
  taken rest closes offset s place := by
    rw [spreadText, List.append_assoc] at place
    have dots := lexes_dots (text ++ rest)
    have current : s.current = _ := (place.current dots).1
    obtain ⟨lexeme, start, after, next, -⟩ := reads.opens closes (offset + byteLength "...".toList)
    obtain ⟨t, passed, goes⟩ := place.advance dots next
    obtain ⟨value, u, gives, onward, -⟩ := reads.parsed enough closes goes.place
    rw [Nat.add_assoc, ← byteLength_append] at onward
    refine ⟨.mk .spread ⟨offset, u.lastEnd⟩ [value], u, .bind gives_isPunct ?_, goes.trans onward, value, by rw [onward.last]; rfl⟩
    rw [if_neg (by simp [current])]
    have spread : (node s.current.span.start .spread [value]).Gives u (.mk .spread ⟨offset, u.lastEnd⟩ [value]) u := by
      rw [current]
      exact gives_node
    rw [plain.within]
    exact .bind gives_here (.bind (.eatPunct (by rw [current]) passed) (.bind gives spread))

end

section

variable {context : Context} {ι : Type} {text : ι → List Char} {answer : ι → Span → Node → Prop} {items : List ι}

theorem reads_array (plain : context.Plain) (each : ∀ item ∈ items, ∀ fuel, fuelFor (text item).length ≤ fuel →
      ReadsItem (arrayElement ⟨fuel, parse fuel⟩ context) "]" (text item) (answer item)) :
    Reads context (bracketed "[" "]" [] text items) fun span node =>
      ∃ nodes, node = .mk .array span nodes ∧ Answers text answer (span.start + 1) items nodes := by
  refine .of_first plain (fun parts => arrayLiteral parts context) rfl (by decide)
    (fun rest => lexes_single (by decide) _) (fun parts s node t same gives => ?_) fun fuel rest enough closes => ?_
  · refine .bind gives_token ?_
    rw [same]
    exact gives
  obtain ⟨fits, long⟩ := fits_bracketed (by decide) (by decide) enough
  exact takes_bracketed .array (by decide) (by decide) (by decide) (.inl rfl)
    (fun item mem => each item mem fuel (fits item mem)) long (.list rest) closes

end

/-! ### Objects -/

/-- The text of a member: its key, in quotes unless it is a name, and its value. -/
def memberText (key : String) (value : List Char) : List Char :=
  (Writer.key key).toList ++ (":".toList ++ ' ' :: value)

theorem memberText_append (key) (value rest) : memberText key value ++ rest =
    (Writer.key key).toList ++ (":".toList ++ ' ' :: (value ++ rest)) := by
  simp [memberText]

theorem endsWord_colon (rest) : EndsWord (":".toList ++ rest) := by
  rintro c ⟨⟩
  decide

def Token.IsKey (key : String) (token : Token) : Prop := token = .word key ∨ token = .string key true

theorem Token.IsKey.ne_punct {token : Token} (isKey : token.IsKey key) (text) : token ≠ .punct text := by
  rintro rfl
  rcases isKey with same | same
  all_goals cases same

theorem lexes_key (key) (rest) :
    ∃ token, Lexes (Writer.key key).toList token (":".toList ++ rest) ∧ token.IsKey key := by
  unfold Writer.key
  split
  · exact ⟨_, lexes_word ‹_› (endsWord_colon rest), .inl rfl⟩
  · have text : (Writer.string key).toList = Json.quoteChars key.toList := String.toList_ofList
    rw [text]
    exact ⟨_, lexes_string key _, .inr rfl⟩

section

variable {s : State} {lexeme : Lexeme}

theorem gives_isModifier {afterKey : List String} (plain : s.current.escaped = false)
    (next : Lexer.next s.after = .ok (lexeme, start, after)) (colon : lexeme.token = .punct ":")
    (line : lexeme.newline = false) (ends : afterKey.contains ":") :
    (isModifier afterKey sameLine).Gives s false s := by
  refine .bind gives_lexeme ?_
  rw [if_neg (by simp [plain])]
  refine .bind (.peek next) ?_
  simp only [line, Bool.and_false, Bool.false_eq_true, if_false, colon, ends, Bool.not_true]
  exact .pure

theorem gives_memberKind (isKey : s.current.token.IsKey key)
    (plain : s.current.escaped = false) (next : Lexer.next s.after = .ok (lexeme, start, after))
    (colon : lexeme.token = .punct ":") (line : lexeme.newline = false) :
    (memberKind afterObjectKey).Gives s .plain s := by
  have modifier : ∀ afterKey sameLine, afterKey.contains ":" →
      (isModifier afterKey sameLine).Gives s false s := fun _ _ => gives_isModifier plain next colon line
  refine .bind (.eatPunct_other (isKey.ne_punct _)) (.bind gives_isWord (.bind (modifier _ _ (by decide)) ?_))
  simp only [Bool.and_false, Bool.false_eq_true, if_false]
  refine .bind gives_isWord (.bind (modifier _ _ (by decide)) ?_)
  simp only [Bool.and_false, Bool.false_eq_true, if_false]
  refine .bind gives_isWord (.bind (modifier _ _ (by decide)) ?_)
  simp only [Bool.and_false, Bool.false_eq_true, if_false]
  exact .pure

theorem gives_propertyKey (context) (parts) (isKey : s.current.token.IsKey key)
    (next : advance.Gives s () t) : ∃ label, (propertyKey parts context).Gives s (.mk label s.current.span []) t ∧
      ∀ source span, PropertyValue.keyOf source (.mk label span []) = key := by
  rcases isKey with token | token
  · refine ⟨.keyName key, .bind gives_lexeme ?_, fun _ _ => rfl⟩
    rw [token]
    exact .bind next .pure
  · refine ⟨.literal (.string key), .bind gives_lexeme ?_, fun _ _ => rfl⟩
    rw [token]
    exact .bind next .pure

end

/-- The node of a member answers to its key, and the value to the text behind the key. -/
def MemberAnswer (key : String) (answer : Span → Node → Prop) (span : Span) (node : Node) : Prop :=
  ∃ name value, node = .mk .property span [name, value] ∧ (∀ source, PropertyValue.keyOf source name = key) ∧
    answer ⟨span.start + byteLength (Writer.key key).toList + 2, span.stop⟩ value

theorem readsItem_objectMember {context : Context} (plain : context.Plain) (reads : Reads context text answer)
    (enough : fuelFor text.length ≤ fuel) :
    ReadsItem (objectMember ⟨fuel, parse fuel⟩ context) "\x7d" (memberText key text) (MemberAnswer key answer) where
  opens rest closes offset := by
    obtain ⟨token, lexes, isKey⟩ := lexes_key key (' ' :: (text ++ rest))
    rw [memberText_append]
    exact ⟨_, _, _, lexes offset, isKey.ne_punct _⟩
  taken rest closes offset s place := by
    rw [memberText_append] at place
    obtain ⟨token, lexes, isKey⟩ := lexes_key key (' ' :: (text ++ rest))
    obtain ⟨current, behind⟩ := place.current lexes
    have colon := lexes_single (by decide : ":" ∈ _) (' ' :: (text ++ rest))
    have next := colon (offset + byteLength (Writer.key key).toList)
    obtain ⟨t, advanced, goes⟩ := place.advance lexes next
    have found : s.current.token.IsKey key := by rwa [current]
    obtain ⟨label, given, named⟩ := gives_propertyKey context ⟨fuel, parse fuel⟩ found advanced
    have token' : t.current.token = .punct ":" := by rw [(goes.place.current colon).1]
    -- Past the colon and the blank the value is at hand.
    obtain ⟨lexeme, start, after, opens, -⟩ := reads.opens closes (offset + byteLength (Writer.key key).toList + 2)
    obtain ⟨u, passed, onward⟩ := goes.place.advance colon ((next_blank _ _).trans opens)
    obtain ⟨value, v, read, last, holds⟩ := reads.parsed enough closes onward.place.skip_blank
    have stop : offset + byteLength (Writer.key key).toList + byteLength ":".toList + 1 + byteLength text =
        offset + byteLength (memberText key text) := by
      have blank : ' '.utf8Size = 1 := rfl
      simp only [memberText, byteLength_append, byteLength, blank]
      omega
    rw [stop] at last holds
    refine ⟨.mk .property ⟨offset, v.lastEnd⟩ [.mk label s.current.span [], value], v, ?_, ?_, ?_⟩
    · refine .bind gives_here (.bind (.eatPunct_other (found.ne_punct _)) ?_)
      refine .bind (gives_memberKind found (by rw [current]) (by rw [behind, next]) rfl rfl) (.bind gives_lexeme (.bind given ?_))
      refine .bind gives_isPunct ?_
      rw [token', current]
      rw [plain.within]
      exact .bind (.eatPunct token' passed) (.bind read gives_node)
    · exact (goes.trans onward).trans ⟨last.place, last.last, last.fault, last.initialized⟩
    · exact ⟨_, _, by rw [last.last], fun source => named source _, holds⟩

section

variable {context : Context} {ι : Type} {key : ι → String} {text : ι → List Char} {answer : ι → Span → Node → Prop}
  {items : List ι}

theorem reads_object (plain : context.Plain) (padding : IsPadding blank) (each : ∀ item ∈ items, Reads context (text item) (answer item)) :
    Reads context (bracketed "\x7b" "\x7d" blank (fun item => memberText (key item) (text item)) items) fun span node =>
      ∃ nodes, node = .mk .object span nodes ∧ Answers (fun item => memberText (key item) (text item))
        (fun item => MemberAnswer (key item) (answer item)) (span.start + 1 + blank.length) items nodes := by
  refine .of_first plain (fun parts => objectLiteral parts context) rfl (by decide)
    (fun rest => lexes_single (by decide) _) (fun parts s node t same gives => ?_) fun fuel rest enough closes => ?_
  · refine .bind gives_token ?_
    rw [same]
    exact gives
  obtain ⟨fits, long⟩ := fits_bracketed (by decide) (by decide) enough
  have inside : Closes (blank ++ ("\x7d".toList ++ rest)) := by
    rcases padding with rfl | rfl
    · exact .object rest
    · exact .spaced rest
  refine takes_bracketed .object (by decide) (by decide) (by decide) padding (fun item mem => ?_) long inside closes
  refine readsItem_objectMember plain (each item mem) (Nat.le_trans ?_ (fits item mem))
  simp only [fuelFor, memberText, List.length_append, List.length_cons]
  omega

end

end ComponentCompiler.Script
