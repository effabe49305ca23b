import ComponentCompiler.Proofs.Script.Literals

/-! Written functions. Main statements: `reads_function` and `readsBody_return`. -/

namespace ComponentCompiler.Script

open Parse List Chars String Lexer
variable {context : Context} {body rest : List Char} {names : List String}

/-! ### Parameters -/

section

variable {context : Context}

theorem readsItem_parameter (plain : context.Plain) (usable : IsVariable name) (positive : 0 < fuel) :
    ReadsItem (parameter ⟨fuel, parse fuel⟩ context) ")" name.toList fun _ _ => True where
  opens rest closes offset := ⟨_, _, _, lexes_word usable.named closes.endsWord offset, by simp⟩
  taken rest closes offset s place := by
    have lexes := lexes_word usable.named closes.endsWord
    have word : s.current.token = .word name := by rw [(place.current lexes).1]
    obtain ⟨lexeme, start, after, next⟩ := closes.follows (offset + byteLength name.toList)
    obtain ⟨t, advanced, goes⟩ := place.advance lexes next
    obtain ⟨fuel, rfl⟩ := Nat.exists_eq_succ_of_ne_zero (Nat.ne_of_gt positive)
    have other : t.current.token ≠ .punct "=" := by
      intro same
      have closer := goes.place.closer closes
      rw [same] at closer
      exact absurd closer (by decide)
    have named : (parse (fuel + 1) (.pattern context)).Gives s (.mk (.binding name) s.current.span []) t := by
      refine .bind gives_here (.bind gives_token ?_)
      rw [word]
      exact .bind (gives_variableName plain usable.free usable.other word advanced) .pure
    refine ⟨.mk (.binding name) s.current.span [], t, .bind gives_here (.bind gives_isPunct ?_), goes, trivial⟩
    rw [if_neg (by simp [word])]
    refine .bind gives_isPunct ?_
    rw [if_neg (by simp [word])]
    exact .bind gives_here (.bind named (.bind (.eatPunct_other other) .pure))

theorem takes_parameters (plain : context.Plain) (usable : ∀ name ∈ names, IsVariable name)
    (long : names.length < fuel) (follows : Follows rest) :
    Takes (parameters ⟨fuel, parse fuel⟩ context) (bracketed "(" ")" [] toList names) rest fun _ _ => True := by
  intro offset s place
  obtain ⟨step, loop, same⟩ := listStep_delimited (parameter ⟨fuel, parse fuel⟩ context) (by decide : ")" ≠ ",")
  have each := fun name mem => readsItem_parameter plain (usable name mem) (Nat.lt_of_le_of_lt (Nat.zero_le _) long)
  obtain ⟨nodes, t, gives, goes, -⟩ :=
    takes_enclosed loop (by decide) (by decide) (.inl rfl) each long (.group rest) follows place
  refine ⟨nodes, t, ?_, goes, trivial⟩
  unfold parameters
  rw [same]
  exact gives

end

/-! ### Bodies -/

/-- In the context the text is that of a body: between braces it is parsed as statements. -/
structure ReadsBody (context : Context) (text : List Char) : Prop where
  opens : ∀ rest, Follows (text ++ ' ' :: '\x7d' :: rest)
  parsed : ∀ ⦃fuel⦄ rest, fuelFor text.length ≤ fuel →
    Takes (statements ⟨fuel, parse fuel⟩ context) text (' ' :: '\x7d' :: rest) fun _ _ => True

theorem ReadsBody.of_statement {head more : List Char} {token : Token}
    (lexes : ∀ rest, Lexes head token (more ++ rest)) (other : token ∉ [.punct "\x7d", .eof])
    (taken : ∀ ⦃fuel⦄ rest, fuelFor (head ++ more).length ≤ fuel →
      Takes (parse fuel (.statement context .list)) (head ++ more) (' ' :: '\x7d' :: rest) fun _ _ => True) :
    ReadsBody context (head ++ more) where
  opens rest offset := by
    rw [List.append_assoc]
    exact ⟨_, _, _, lexes _ offset⟩
  parsed fuel rest enough offset s place := by
    have first : s.current.token = token := by
      have whole := place
      rw [List.append_assoc] at whole
      rw [(whole.current (lexes _)).1]
    simp only [mem_cons, not_mem_nil, or_false, not_or] at other
    obtain ⟨node, t, given, goes, -⟩ := taken rest enough place
    have brace : t.current.token = .punct "\x7d" := by
      rw [(State.At.current goes.place.skip_blank (lexes_single (by decide : "\x7d" ∈ _) rest)).1]
    obtain ⟨fuel, rfl⟩ : ∃ k, fuel = k + 2 := ⟨fuel - 2, by rw [fuelFor] at enough; omega⟩
    refine ⟨[node], t, ?_, goes, trivial⟩
    refine .bind (a := .inl [node]) (t := t) (.bind gives_isPunct ?_) ?_
    · rw [if_neg (by simpa [first] using other.1)]
      refine .bind gives_token ?_
      rw [if_neg (by simpa [first] using other.2)]
      exact .bind given .pure
    · refine .bind (a := .inr [node]) (t := t) (.bind gives_isPunct ?_) .pure
      rw [if_pos (by simp [brace])]
      exact .pure

def blockText (body : List Char) : List Char := "\x7b".toList ++ ' ' :: (body ++ ' ' :: "\x7d".toList)

theorem blockText_append (body rest) :
    blockText body ++ rest = "\x7b".toList ++ ' ' :: (body ++ ' ' :: '\x7d' :: rest) := by
  simp [blockText]

theorem takes_block {fuel : Nat} (reads : ReadsBody context body) (enough : fuelFor body.length ≤ fuel)
    (follows : Follows rest) : Takes (block ⟨fuel, parse fuel⟩ context) (blockText body) rest fun _ _ => True := by
  intro offset s place
  rw [blockText_append] at place
  have first := lexes_single (by decide : "\x7b" ∈ _) (' ' :: (body ++ ' ' :: '\x7d' :: rest))
  have last := lexes_single (by decide : "\x7d" ∈ _) rest
  obtain ⟨lexeme, start, after, next⟩ := reads.opens rest (offset + byteLength "\x7b".toList + 1)
  obtain ⟨t, opened, goes⟩ := place.advance first ((next_blank _ _).trans next)
  obtain ⟨nodes, u, given, onward, -⟩ := reads.parsed rest enough goes.place.skip_blank
  have shuts := onward.place.skip_blank
  obtain ⟨lexeme', start', after', next'⟩ := follows (offset + byteLength "\x7b".toList + 1 +
    byteLength body + 1 + byteLength "\x7d".toList)
  obtain ⟨v, closed, ended⟩ := State.At.advance shuts last next'
  have stop : offset + byteLength "\x7b".toList + 1 + byteLength body + 1 + byteLength "\x7d".toList =
      offset + byteLength (blockText body) := by
    have blank : ' '.utf8Size = 1 := rfl
    simp only [blockText, byteLength_append, byteLength, blank]
    omega
  rw [stop] at ended
  refine ⟨.mk .block ⟨s.current.span.start, v.lastEnd⟩ nodes, v, .bind gives_here ?_, (goes.trans onward).trans ended, trivial⟩
  refine .bind (.expectPunct (by rw [(place.current first).1]) opened) (.bind given ?_)
  exact .bind (.expectPunct (by rw [(State.At.current shuts last).1]) closed) gives_node

def functionText (names : List String) (body : List Char) : List Char :=
  "function".toList ++ (' ' :: (bracketed "(" ")" [] toList names ++ ' ' :: blockText body))

theorem functionText_append (names) (body rest) : functionText names body ++ rest =
    "function".toList ++ (' ' :: (bracketed "(" ")" [] toList names ++ (' ' :: (blockText body ++ rest)))) := by
  unfold functionText
  generalize "function".toList = keyword
  simp

theorem byteLength_functionText (names) (body) (offset) :
    offset + byteLength "function".toList + 1 + byteLength (bracketed "(" ")" [] toList names) + 1 +
      byteLength (blockText body) = offset + byteLength (functionText names body) := by
  have blank : ' '.utf8Size = 1 := rfl
  unfold functionText
  generalize "function".toList = keyword
  simp only [byteLength_append, byteLength, blank]
  omega

theorem endsWord_blank (rest) : EndsWord (' ' :: rest) := by
  rintro c ⟨⟩
  decide

theorem Parse.Gives.eatWord_other {name : String} {s : State} (other : s.current.token ≠ .word name) :
    (eatWord name).Gives s false s := by
  refine .bind gives_isWord ?_
  rw [if_neg (by simpa using other)]
  exact .pure

theorem lexes_function (rest) : Lexes "function".toList (.word "function") (' ' :: rest) :=
  lexes_word (by decide) (endsWord_blank rest)

theorem takes_function {outer : Context} {fuel : Nat} (usable : ∀ name ∈ names, IsVariable name)
    (reads : ReadsBody (.function false false) body) (long : names.length < fuel) (enough : fuelFor body.length ≤ fuel)
    (follows : Follows rest) :
    Takes (functionFrom ⟨fuel, parse fuel⟩ outer false false) (functionText names body) rest fun span node =>
      ∃ parts, node = .mk (.function none) span parts := by
  intro offset s place
  rw [functionText_append] at place
  have keyword := lexes_function (bracketed "(" ")" [] toList names ++ (' ' :: (blockText body ++ rest)))
  have current := (place.current keyword).1
  have begins : Follows (blockText body ++ rest) := by
    rw [blockText_append]
    exact follows_single (by decide)
  have opens : Follows (' ' :: (bracketed "(" ")" [] toList names ++ (' ' :: (blockText body ++ rest)))) := by
    rw [bracketed, List.append_assoc]
    exact (follows_single (by decide)).blank
  obtain ⟨lexeme, start, after, next⟩ := opens (offset + byteLength "function".toList)
  obtain ⟨t, taken, goes⟩ := place.advance keyword next
  have group := goes.place.skip_blank
  have token : t.current.token = .punct "(" := by
    have whole := group
    rw [bracketed, List.append_assoc] at whole
    rw [(whole.current (lexes_single (by decide) _)).1]
  obtain ⟨params, u, listed, onward, -⟩ := takes_parameters Context.plain_function usable long begins.blank group
  obtain ⟨block, v, held, ended, -⟩ := takes_block reads enough follows onward.place.skip_blank
  rw [byteLength_functionText] at ended
  refine ⟨.mk (.function none) ⟨s.current.span.start, v.lastEnd⟩ (params ++ [block]), v, .bind gives_here ?_,
    (goes.trans onward).trans ended, params ++ [block], by rw [ended.last, current]⟩
  refine .bind (.eatWord_other (by simp [current])) (.bind (.expectWord (by rw [current]) (by rw [current]) taken) ?_)
  refine .bind (.eatPunct_other (by simp [token])) (.bind gives_isPunct ?_)
  simp only [token, beq_self_eq_true, if_true, Bool.false_eq_true, if_false]
  refine .bind .pure ?_
  exact .bind listed (.bind held gives_node)

theorem reads_function (plain : context.Plain) (usable : ∀ name ∈ names, IsVariable name)
    (reads : ReadsBody (.function false false) body) :
    Reads context (functionText names body) fun span node => ∃ parts, node = .mk (.function none) span parts := by
  refine .of_first plain (fun parts => functionFrom parts context false false) (by decide) (by decide)
    (fun rest => lexes_function _) (fun parts s node t same gives => ?_)
    fun fuel rest enough closes => ?_
  · refine .bind gives_token ?_
    rw [same]
    exact .bind gives_lexeme gives
  · have long : names.length < fuel := by
      have := length_joined toList names
      simp only [fuelFor, bracketed, List.length_append, length_cons] at enough
      omega
    have inside : fuelFor body.length ≤ fuel := by
      have letters : "function".toList.length = 8 := by decide
      simp only [fuelFor, blockText, List.length_append, length_cons, letters] at enough ⊢
      omega
    exact takes_function usable reads long inside closes.follows

/-! ### Values -/

/-- In the context the text is a value: behind `return` and before a semicolon, it is parsed as an expression. -/
structure ReadsValue (context : Context) (text : List Char) : Prop where
  opens : ∀ rest offset, ∃ lexeme start after, Lexer.next ⟨text ++ ';' :: rest, offset⟩ = .ok (lexeme, start, after) ∧
    lexeme.newline = false ∧ lexeme.token ∉ [.punct ";", .punct "\x7d", .eof]
  parsed : ∀ ⦃fuel⦄ rest, fuelFor text.length ≤ fuel →
    Takes (expression ⟨fuel, parse fuel⟩ context) text (';' :: rest) fun _ _ => True

def returnText (value : List Char) : List Char := "return".toList ++ (' ' :: (value ++ ";".toList))

theorem returnText_append (value rest) :
    returnText value ++ rest = "return".toList ++ (' ' :: (value ++ ';' :: rest)) := by
  unfold returnText
  generalize "return".toList = keyword
  simp

theorem byteLength_returnText (value) (offset) :
    offset + byteLength "return".toList + 1 + byteLength value + byteLength ";".toList =
      offset + byteLength (returnText value) := by
  have blank : ' '.utf8Size = 1 := rfl
  unfold returnText
  generalize "return".toList = keyword
  simp only [byteLength_append, byteLength, blank]
  omega

theorem lexes_return (rest) : Lexes "return".toList (.word "return") (' ' :: rest) :=
  lexes_word (by decide) (endsWord_blank rest)

theorem Parse.Gives.semicolon {s t : State} (same : s.current.token = .punct ";") (next : advance.Gives s () t) :
    semicolon.Gives s () t :=
  .bind (.eatPunct same next) .pure

section

variable {context : Context}

theorem takes_return (plain : context.Plain) (inside : context.returns) (reads : ReadsValue context value)
    (enough : fuelFor value.length ≤ fuel) (follows : Follows rest) :
    Takes (parse (fuel + 1) (.statement context .list)) (returnText value) rest fun _ _ => True := by
  intro offset s place
  rw [returnText_append] at place
  have keyword := lexes_return (value ++ ';' :: rest)
  have current := (place.current keyword).1
  obtain ⟨lexeme, start, after, next, line, goesOn⟩ := reads.opens rest (offset + byteLength "return".toList + 1)
  obtain ⟨t, taken, goes⟩ := place.advance keyword ((next_blank _ _).trans next)
  have hand := goes.place.skip_blank
  have first : t.current = lexeme := by
    cases hand.symm.trans next
    rfl
  obtain ⟨node, u, given, onward, -⟩ := reads.parsed rest enough hand
  have last := lexes_single (by decide : ";" ∈ _) rest
  obtain ⟨lexeme', start', after', next'⟩ := follows (offset + byteLength "return".toList + 1 + byteLength value +
    byteLength ";".toList)
  obtain ⟨v, ended, behind⟩ := State.At.advance onward.place last next'
  rw [byteLength_returnText] at behind
  have unended : canEndStatement.Gives t false t := by
    refine .bind gives_lexeme ?_
    simp only [mem_cons, not_mem_nil, or_false, not_or] at goesOn
    simp only [first, line, beq_eq_false_iff_ne.mpr goesOn.1, beq_eq_false_iff_ne.mpr goesOn.2.1,
      beq_eq_false_iff_ne.mpr goesOn.2.2, Bool.or_false]
    exact .pure
  refine ⟨.mk (.control "return") ⟨s.current.span.start, v.lastEnd⟩ [node], v, ?_, (goes.trans onward).trans behind, trivial⟩
  refine .bind gives_here (.bind gives_token ?_)
  have word : s.current.token = .word "return" := by rw [current]
  rw [word, plain.within]
  refine .bind gives_here ?_
  rw [inside]
  refine .bind (.takeKeyword (by rw [current]) taken) (.bind unended ?_)
  rw [plain.within]
  exact .bind given (.bind (.semicolon (by rw [(State.At.current onward.place last).1]) ended) gives_node)

theorem readsBody_return (plain : context.Plain) (inside : context.returns) (reads : ReadsValue context value) :
    ReadsBody context (returnText value) := by
  refine .of_statement (fun rest => lexes_return _) (by simp) fun fuel rest enough => ?_
  obtain ⟨fuel, rfl⟩ : ∃ k, fuel = k + 1 := ⟨fuel - 1, by rw [fuelFor] at enough; omega⟩
  refine takes_return plain inside reads ?_ (Closes.spaced rest).follows
  generalize "return".toList = keyword at enough
  simp only [fuelFor, List.length_append, length_cons] at enough ⊢
  omega

theorem Reads.readsValue {head : List Char} {token : Token} (reads : Reads context (head ++ more) answer)
    (lexes : ∀ rest, Lexes head token (more ++ ';' :: rest)) (goesOn : token ∉ [.punct ";", .punct "\x7d", .eof]) :
    ReadsValue context (head ++ more) where
  opens rest offset := by
    rw [List.append_assoc]
    exact ⟨_, _, _, lexes _ offset, rfl, goesOn⟩
  parsed fuel rest enough offset s place := by
    obtain ⟨node, t, given, goes, -⟩ := reads.parsed enough (.statement rest) place
    have semicolon : t.current.token = .punct ";" := by
      rw [(State.At.current goes.place (lexes_single (by decide : ";" ∈ _) rest)).1]
    refine ⟨node, t, .bind gives_here (.bind given (.bind gives_isPunct ?_)), goes, trivial⟩
    rw [if_neg (by simp [semicolon])]
    exact .pure

/-- An expression that begins with a variable is a body by itself, unless the word begins a statement of another kind. -/
theorem readsBody_expression {name : String} (plain : context.Plain) (usable : IsVariable name)
    (other : name ∉ ["async", "let", "using"])
    (lexes : ∀ rest, Lexes name.toList (.word name) (more ++ ";".toList ++ rest))
    (reads : Reads context (name.toList ++ more) answer) :
    ReadsBody context (name.toList ++ (more ++ ";".toList)) := by
  refine .of_statement lexes (by simp) fun fuel rest enough offset s place => ?_
  obtain ⟨fuel, rfl⟩ : ∃ k, fuel = k + 1 := ⟨fuel - 1, by rw [fuelFor] at enough; omega⟩
  have fits : fuelFor (name.toList ++ more).length ≤ fuel := by
    simp only [fuelFor, List.length_append] at enough ⊢
    have one : ";".toList.length = 1 := by decide
    omega
  have word : s.current.token = .word name := by
    have whole := place
    rw [List.append_assoc] at whole
    rw [(whole.current (lexes _)).1]
  have split : name.toList ++ (more ++ ";".toList) ++ ' ' :: '\x7d' :: rest =
      name.toList ++ more ++ (";".toList ++ ' ' :: '\x7d' :: rest) := by simp only [List.append_assoc]
  rw [split] at place
  obtain ⟨node, t, given, goes, -⟩ := reads.parsed fits (.statement _) place
  have last := lexes_single (by decide : ";" ∈ _) (' ' :: '\x7d' :: rest)
  have semicolon : t.current.token = .punct ";" := by rw [(State.At.current goes.place last).1]
  obtain ⟨lexeme, start, after, next⟩ := (Closes.spaced rest).follows
    (offset + byteLength (name.toList ++ more) + byteLength ";".toList)
  obtain ⟨u, ended, behind⟩ := State.At.advance goes.place last next
  rw [Nat.add_assoc, ← byteLength_append, List.append_assoc] at behind
  have free := usable.free
  simp only [mem_cons, not_mem_nil, or_false, not_or] at other
  have plainly : atAsyncFunction.Gives s false s := by
    refine .bind gives_isWord ?_
    rw [if_neg (by simpa [word] using other.1)]
    exact .pure
  have resource : resourceKeyword?.Gives s none s := by
    refine .bind gives_isWord ?_
    rw [if_neg (by simpa [word] using other.2.2)]
    refine .bind gives_isWord ?_
    rw [if_neg (by simpa [word] using usable.other)]
    exact .pure
  have whole : (expression ⟨fuel, parse fuel⟩ context).Gives s node t := by
    refine .bind gives_here (.bind given (.bind gives_isPunct ?_))
    rw [if_neg (by simp [semicolon])]
    exact .pure
  have statement : (expressionStatement ⟨fuel, parse fuel⟩ context .list).Gives s
      (.mk .expression ⟨s.current.span.start, u.lastEnd⟩ [node]) u := by
    refine .bind gives_here (.bind gives_lexeme ?_)
    rw [plain.within]
    refine .bind whole (.bind gives_token ?_)
    rw [semicolon]
    split
    · rename_i colon
      exact absurd (Token.punct.inj colon) (by decide)
    · exact .bind (.semicolon semicolon ended) gives_node
  refine ⟨.mk .expression ⟨s.current.span.start, u.lastEnd⟩ [node], u, .bind gives_here (.bind gives_token ?_),
    goes.trans behind, trivial⟩
  rw [word, plain.within]
  change (wordStatement ⟨fuel, parse fuel⟩ context .list name).Gives _ _ _
  unfold wordStatement
  split
  all_goals try cases free
  refine .bind plainly ?_
  rw [if_neg Bool.false_ne_true]
  refine .bind gives_lexeme ?_
  rw [if_neg (by simp [other.2.1])]
  exact .bind resource statement

end

end ComponentCompiler.Script