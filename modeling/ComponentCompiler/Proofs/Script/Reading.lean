import ComponentCompiler.Proofs.Script.Tokens
import ComponentCompiler.Script.Parser

/-! What written expressions are parsed as. -/

namespace ComponentCompiler.Script

open Parse Chars Lexer

/-! ### Places in a text -/

/-- What may follow a written expression: the end, the next item, or the end of a list, an object, a group or a
statement. -/
inductive Closes : List Char → Prop
  | text : Closes []
  | item (rest : List Char) : Closes (',' :: rest)
  | list (rest : List Char) : Closes (']' :: rest)
  | object (rest : List Char) : Closes ('\x7d' :: rest)
  | spaced (rest : List Char) : Closes (' ' :: '\x7d' :: rest)
  | group (rest : List Char) : Closes (')' :: rest)
  | statement (rest : List Char) : Closes (';' :: rest)

def closers : List Token := [.eof, .punct ",", .punct "]", .punct "\x7d", .punct ")", .punct ";"]

theorem mem_closers {token : Token} : token ∈ closers ↔ token = .eof ∨ token = .punct "," ∨ token = .punct "]" ∨
    token = .punct "\x7d" ∨ token = .punct ")" ∨ token = .punct ";" := by
  simp only [closers, List.mem_cons, List.not_mem_nil, or_false]

def Follows (text : List Char) : Prop :=
  ∀ offset, ∃ lexeme start after, Lexer.next ⟨text, offset⟩ = .ok (lexeme, start, after)

def State.At (text : List Char) (offset : Nat) (s : State) : Prop :=
  Lexer.next ⟨text, offset⟩ = .ok (s.current, s.start, s.after)

/-- From one state to another the text up to the rest has been taken. -/
structure State.Goes (rest : List Char) (stop : Nat) (s t : State) : Prop where
  place : t.At rest stop
  last : t.lastEnd = stop
  fault : t.fault = s.fault
  initialized : t.initialized = s.initialized

theorem Lexer.next_nil (offset) :
    next ⟨[], offset⟩ = .ok (⟨.eof, ⟨offset, offset⟩, false, false⟩, ⟨[], offset⟩, ⟨[], offset⟩) := rfl

theorem Closes.next (closes : Closes rest) (offset) : ∃ lexeme start after,
    Lexer.next ⟨rest, offset⟩ = .ok (lexeme, start, after) ∧ lexeme.token ∈ closers ∧ lexeme.newline = false := by
  cases closes with
  | text => exact ⟨_, _, _, next_nil offset, by simp [closers], rfl⟩
  | item rest => exact ⟨_, _, _, lexes_single (by decide : "," ∈ _) rest offset, by simp [closers], rfl⟩
  | list rest => exact ⟨_, _, _, lexes_single (by decide : "]" ∈ _) rest offset, by simp [closers], rfl⟩
  | object rest => exact ⟨_, _, _, lexes_single (by decide : "\x7d" ∈ _) rest offset, by simp [closers], rfl⟩
  | spaced rest =>
    have read := (next_blank _ offset).trans (lexes_single (by decide : "\x7d" ∈ _) rest _)
    exact ⟨_, _, _, read, by simp [closers], rfl⟩
  | group rest => exact ⟨_, _, _, lexes_single (by decide : ")" ∈ _) rest offset, by simp [closers], rfl⟩
  | statement rest => exact ⟨_, _, _, lexes_single (by decide : ";" ∈ _) rest offset, by simp [closers], rfl⟩

theorem Closes.follows (closes : Closes rest) : Follows rest := by
  intro offset
  obtain ⟨lexeme, start, after, next, -⟩ := closes.next offset
  exact ⟨lexeme, start, after, next⟩

theorem follows_single (single : text ∈ singles) : Follows (text.toList ++ rest) :=
  fun offset => ⟨_, _, _, lexes_single single rest offset⟩

theorem Follows.blank (follows : Follows rest) : Follows (' ' :: rest) := by
  intro offset
  rw [next_blank]
  exact follows (offset + 1)

section

variable {token : Token} {s : State}

theorem State.At.closer (place : s.At rest offset) (closes : Closes rest) : s.current.token ∈ closers := by
  obtain ⟨lexeme, start, after, next, token, -⟩ := closes.next offset
  cases place.symm.trans next
  exact token

theorem State.At.current (place : s.At (text ++ rest) offset) (lexes : Lexes text token rest) :
    s.current = ⟨token, ⟨offset, offset + byteLength text⟩, false, false⟩ ∧
      s.after = ⟨rest, offset + byteLength text⟩ := by
  have := place.symm.trans (lexes offset)
  simp only [Except.ok.injEq, Prod.mk.injEq] at this
  exact ⟨this.1, this.2.2⟩

theorem State.Goes.trans (first : s.Goes rest stop t) (second : t.Goes rest' stop' u) : s.Goes rest' stop' u :=
  ⟨second.place, second.last, second.fault.trans first.fault, second.initialized.trans first.initialized⟩

end

/-! ### Steps -/

namespace Parse

/-- From a state the parser gives an answer and goes on to another state. -/
def Gives {α : Type} (p : Parse α) (s : State) (a : α) (t : State) : Prop := p s = .ok (a, t)

section

variable {α β : Type} {s : State}

theorem Gives.bind {p : Parse α} (first : p.Gives s a t) (rest : (f a).Gives t b u) : (p >>= f).Gives s b u := by
  unfold Gives at *
  simpa [Bind.bind, StateT.bind, Except.bind, first] using rest

theorem Gives.pure : (pure a : Parse α).Gives s a s := rfl

theorem gives_get : (get : Parse State).Gives s s s := rfl

theorem gives_token : token.Gives s s.current.token s := rfl

theorem gives_lexeme : lexeme.Gives s s.current s := rfl

theorem gives_here : here.Gives s s.current.span.start s := rfl

theorem gives_isPunct : (isPunct text).Gives s (s.current.token == .punct text) s := rfl

theorem gives_isWord : (isWord name).Gives s (s.current.token == .word name) s := rfl

theorem gives_node : (node start label parts).Gives s (.mk label ⟨start, s.lastEnd⟩ parts) s := rfl

theorem Gives.eatPunct_other (other : s.current.token ≠ .punct text) : (eatPunct text).Gives s false s := by
  refine .bind gives_isPunct ?_
  rw [if_neg (by simpa using other)]
  exact .pure

theorem Gives.eatPunct (same : s.current.token = .punct text) (next : advance.Gives s () t) :
    (eatPunct text).Gives s true t := by
  refine .bind gives_isPunct ?_
  rw [if_pos (by simpa using same)]
  exact .bind next .pure

theorem Gives.expectPunct (same : s.current.token = .punct text) (next : advance.Gives s () t) :
    (expectPunct text).Gives s () t := by
  refine .bind gives_isPunct ?_
  rw [if_pos (by simpa using same)]
  exact next

theorem gives_peek : ∃ found, peek.Gives s found s := by
  cases read : Lexer.next s.after with
  | error e =>
    refine ⟨none, .bind gives_get ?_⟩
    rw [read]
    exact .pure
  | ok found =>
    refine ⟨some found.1, .bind gives_get ?_⟩
    rw [read]
    exact .pure

theorem Gives.peek {lexeme : Lexeme} (read : Lexer.next s.after = .ok (lexeme, start, after)) :
    peek.Gives s (some lexeme) s := by
  refine .bind gives_get ?_
  rw [read]
  exact .pure

theorem gives_operandFollows : ∃ follows, operandFollows.Gives s follows s := by
  obtain ⟨found, peeked⟩ := gives_peek (s := s)
  cases found with
  | none => exact ⟨false, .bind peeked .pure⟩
  | some next =>
    by_cases line : next.newline
    · refine ⟨false, .bind peeked ?_⟩
      simp only [line, if_true]
      exact .pure
    · cases token : next.token
      all_goals
        refine ⟨?_, .bind peeked ?_⟩
        case refine_2 =>
          simp only [line, token, Bool.false_eq_true, if_false]
          exact .pure

def Fails (p : Parse α) (s : State) : Prop := ∃ e, p s = .error e

theorem Fails.first {p : Parse α} (first : p.Fails s) : (p >>= f).Fails s := by
  obtain ⟨e, first⟩ := first
  exact ⟨e, by simp [Bind.bind, StateT.bind, Except.bind, first]⟩

theorem Fails.rest {p : Parse α} (first : p.Gives s a t) (rest : (f a).Fails t) : (p >>= f).Fails s := by
  obtain ⟨e, rest⟩ := rest
  unfold Gives at first
  exact ⟨e, by simpa [Bind.bind, StateT.bind, Except.bind, first] using rest⟩

theorem fails_failHere : (failHere fault : Parse α).Fails s := ⟨_, rfl⟩

theorem Fails.attempt {p : Parse α} (fails : p.Fails s) : (attempt p).Gives s none s := by
  obtain ⟨e, fails⟩ := fails
  rw [Gives, Parse.attempt, fails]

theorem Gives.attempt {p : Parse α} (gives : p.Gives s a t) : (attempt p).Gives s (some a) t := by
  unfold Gives at gives
  rw [Gives, Parse.attempt, gives]

theorem Gives.lookahead {p : Parse α} (gives : p.Gives s a t) : (lookahead p).Gives s a s :=
  .bind gives_get (.bind gives (.bind (a := ()) rfl .pure))

theorem Gives.takeKeyword (plain : s.current.escaped = false) (next : advance.Gives s () t) : takeKeyword.Gives s () t := by
  refine .bind gives_lexeme ?_
  rw [if_neg (by simp [plain])]
  exact next

theorem Gives.expectWord (same : s.current.token = .word name) (plain : s.current.escaped = false)
    (next : advance.Gives s () t) : (expectWord name).Gives s () t := by
  refine .bind gives_isWord ?_
  rw [if_pos (by simpa using same)]
  exact .takeKeyword plain next

end

end Parse

abbrev State.onto (s : State) (lexeme : Lexeme) (start after : Cursor) : State :=
  { s with current := lexeme, start := start, after := after, lastEnd := s.current.span.stop }

theorem State.At.advance {token : Token} {s : State} (place : s.At (text ++ rest) offset)
    (lexes : Lexes text token rest) {lexeme : Lexeme} {start after : Cursor}
    (next : Lexer.next ⟨rest, offset + byteLength text⟩ = .ok (lexeme, start, after)) :
    ∃ t, Parse.advance.Gives s () t ∧ s.Goes rest (offset + byteLength text) t := by
  obtain ⟨current, behind⟩ := place.current lexes
  refine ⟨s.onto lexeme start after, ?_, next, ?_, rfl, rfl⟩
  · rw [Gives, Parse.advance, behind, next]
  · exact congrArg (·.span.stop) current

/-- The parser takes the text before the rest, and its answer is as stated of the place. -/
def Takes {α : Type} (p : Parse α) (text rest : List Char) (answer : Span → α → Prop) : Prop :=
  ∀ ⦃offset⦄ ⦃s : State⦄, s.At (text ++ rest) offset → ∃ a t, p.Gives s a t ∧
    s.Goes rest (offset + byteLength text) t ∧ answer ⟨offset, offset + byteLength text⟩ a

/-! ### Operands -/

/-- A context where every operator is read, and where `yield` is no operator. -/
structure Context.Plain (context : Context) : Prop where
  yield : context.yield = false
  within : context.withIn = context

theorem Context.plain_module : Context.module.Plain := ⟨rfl, rfl⟩

theorem Context.plain_function : (Context.function false false).Plain := ⟨rfl, rfl⟩

section

variable {context : Context} {parts : Parts} {text : List Char} {node : Node} {s t : State}

theorem gives_memberSuffix {optional : Bool} (closer : t.current.token ∈ closers) :
    (memberSuffix parts context start node optional).Gives t none t := by
  refine .bind gives_token ?_
  rcases mem_closers.mp closer with closer | closer | closer | closer | closer | closer
  all_goals
    rw [closer]
    exact .pure

theorem gives_callChain (closer : t.current.token ∈ closers) (fuel : 0 < parts.fuel) :
    (callChain parts context start node).Gives t node t := by
  obtain ⟨fuel, same⟩ := Nat.exists_eq_succ_of_ne_zero (Nat.ne_of_gt fuel)
  refine .bind (a := (node, false)) (t := t) ?_ .pure
  rw [same]
  refine .bind (a := .inr (node, false)) (t := t) ?_ .pure
  refine .bind (gives_memberSuffix closer) (.bind gives_token ?_)
  rcases mem_closers.mp closer with closer | closer | closer | closer | closer | closer
  all_goals
    rw [closer]
    exact .pure

theorem gives_isOneOf {texts : List String} (closer : t.current.token ∈ closers)
    (other : ∀ text ∈ [",", "]", "\x7d", ")", ";"], texts.contains text = false) : (isOneOf texts).Gives t false t := by
  refine .bind gives_token ?_
  rcases mem_closers.mp closer with closer | closer | closer | closer | closer | closer
  all_goals rw [closer]
  · exact .pure
  all_goals
    dsimp only
    rw [other _ (by decide)]
    exact .pure

theorem precedence_closer {token : Token} (closer : token ∈ closers) : precedence? context token = none := by
  rcases mem_closers.mp closer with rfl | rfl | rfl | rfl | rfl | rfl
  all_goals rfl

/-- Whether a token begins an operand by itself, without an operator or a parenthesis. -/
def Token.isOperand : Token → Bool
  | .string .. | .number _ => true
  | .punct text => text == "[" || text == "\x7b"
  | .word name => !(["delete", "typeof", "void", "await"].contains name)
  | _ => false

theorem Token.isOperand_unary {token : Token} (operand : token.isOperand) : unaryOperator? token = none ∧
    token ≠ .punct "++" ∧ token ≠ .punct "--" ∧ token ≠ .word "await" ∧ ∀ name, token ≠ .privateName name := by
  refine ⟨?_, ?_, ?_, ?_, fun name => ?_⟩
  · unfold unaryOperator?
    split
    all_goals first | rfl | cases operand
  all_goals
    rintro rfl
    cases operand

theorem takes_leftHandSide (closes : Closes rest) (fuel : 0 < parts.fuel)
    (taken : Takes (primary parts context) text rest answer) : Takes (leftHandSide parts context) text rest answer := by
  intro offset s place
  obtain ⟨node, t, gives, goes, holds⟩ := taken place
  exact ⟨node, t, .bind gives_here (.bind gives (gives_callChain (goes.place.closer closes) fuel)), goes, holds⟩

theorem takes_unary (closes : Closes rest)
    (operand : ∀ ⦃offset⦄ ⦃s : State⦄, s.At (text ++ rest) offset → s.current.token.isOperand)
    (taken : Takes (leftHandSide parts context) text rest answer) :
    Takes (unaryExpression parts context) text rest answer := by
  intro offset s place
  obtain ⟨node, t, gives, goes, holds⟩ := taken place
  obtain ⟨unary, up, down, await, -⟩ := Token.isOperand_unary (operand place)
  obtain ⟨follows, peeked⟩ := gives_operandFollows (s := s)
  have awaits : (s.current.token == .word "await") = false := by simpa using await
  have one : (isOneOf ["++", "--"]).Gives t false t := gives_isOneOf (goes.place.closer closes) (by decide)
  refine ⟨node, t, .bind gives_here (.bind gives_token ?_), goes, holds⟩
  rw [unary]
  dsimp only
  split
  · contradiction
  · contradiction
  · simp only [awaits, Bool.false_and, Bool.false_eq_true, if_false]
    exact .bind peeked (.bind gives (.bind one (.bind gives_lexeme .pure)))

theorem takes_binary (closes : Closes rest) (fuel : 0 < parts.fuel)
    (operand : ∀ ⦃offset⦄ ⦃s : State⦄, s.At (text ++ rest) offset → s.current.token.isOperand)
    (taken : Takes (parts.run (.unary context)) text rest answer) :
    Takes (binaryExpression parts context 0) text rest answer := by
  intro offset s place
  obtain ⟨node, t, gives, goes, holds⟩ := taken place
  obtain ⟨-, -, -, -, other⟩ := Token.isOperand_unary (operand place)
  obtain ⟨fuel, same⟩ := Nat.exists_eq_succ_of_ne_zero (Nat.ne_of_gt fuel)
  refine ⟨node, t, .bind gives_here (.bind gives_isPunct (.bind gives_token ?_)), goes, holds⟩
  split
  · exact absurd ‹_› (other _)
  · refine .bind gives ?_
    unfold binaryRest
    rw [same]
    refine .bind (a := .inr node) (.bind gives_lexeme ?_) .pure
    rw [precedence_closer (goes.place.closer closes)]
    exact .pure

structure State.IsLast (s : State) (lexeme : Lexeme) (start after : Cursor) : Prop where
  plain : s.current.escaped = false
  next : Lexer.next s.after = .ok (lexeme, start, after)
  closer : lexeme.token ∈ closers
  line : lexeme.newline = false

def State.WordAlone (s : State) : Prop :=
  ∀ name ∈ ["async", "yield"], s.current.token = .word name → ∃ lexeme start after, s.IsLast lexeme start after

section

variable {lexeme : Lexeme} {start after : Cursor}

theorem State.IsLast.advance (last : s.IsLast lexeme start after) :
    Parse.advance.Gives s () (s.onto lexeme start after) := by
  rw [Gives, Parse.advance, last.next]

theorem State.IsLast.operandFollows (last : s.IsLast lexeme start after) : operandFollows.Gives s false s := by
  refine .bind (.peek last.next) ?_
  rcases mem_closers.mp last.closer with closer | closer | closer | closer | closer | closer
  all_goals
    simp only [last.line, Bool.false_eq_true, if_false, closer]
    exact .pure

theorem State.IsLast.atAsyncFunction (last : s.IsLast lexeme start after) : atAsyncFunction.Gives s false s := by
  refine .bind gives_isWord ?_
  split
  · refine .bind (.peek last.next) ?_
    rcases mem_closers.mp last.closer with closer | closer | closer | closer | closer | closer
    all_goals
      simp only [closer]
      exact .pure
  · exact .pure

theorem ne_of_closer {token : Token} (closer : token ∈ closers) :
    token ≠ .punct "(" ∧ token ≠ .punct "?" ∧ token ≠ .punct "=>" ∧ ∀ name, token ≠ .word name := by
  rcases mem_closers.mp closer with rfl | rfl | rfl | rfl | rfl | rfl
  all_goals exact ⟨by decide, by decide, by decide, fun name same => by cases same⟩

theorem not_assigns_of_closer {text : String} (closer : Token.punct text ∈ closers) :
    assignmentOperators.contains text = false := by
  rcases mem_closers.mp closer with closer | closer | closer | closer | closer | closer
  all_goals
    cases closer
    try decide

theorem State.IsLast.atAsyncArrow (last : s.IsLast lexeme start after) : atAsyncArrow.Gives s false s := by
  obtain ⟨open', -⟩ := ne_of_closer last.closer
  refine .bind (a := some false) (.attempt (.lookahead (t := s.onto lexeme start after) ?_)) .pure
  refine .bind last.advance (.bind gives_lexeme (.bind (.eatPunct_other open') ?_))
  simp only [Bool.not_false, Bool.or_true, if_true]
  exact .pure

theorem State.IsLast.asyncArrowHead (last : s.IsLast lexeme start after) (async : s.current.token = .word "async") :
    (asyncArrowHead parts context).Fails s := by
  obtain ⟨open', -⟩ := ne_of_closer last.closer
  refine .rest (.expectWord async last.plain last.advance) (.rest gives_lexeme ?_)
  simp only [last.line, Bool.false_eq_true, if_false]
  obtain ⟨found, peeked⟩ := gives_peek (s := s.onto lexeme start after)
  refine .rest peeked ?_
  split
  · exact .first fails_failHere
  · refine .first (.first (.rest gives_isPunct ?_))
    rw [if_neg (by simpa using open')]
    exact fails_failHere

theorem State.IsLast.asyncSimpleHead (last : s.IsLast lexeme start after) (async : s.current.token = .word "async") :
    (asyncSimpleHead context).Fails s := by
  obtain ⟨-, -, -, word⟩ := ne_of_closer last.closer
  refine .rest (.expectWord async last.plain last.advance) (.rest gives_lexeme ?_)
  simp only [last.line, Bool.false_eq_true, if_false]
  refine .first (.rest gives_lexeme ?_)
  split
  · exact absurd ‹_› (word _)
  · exact fails_failHere

end

theorem gives_arrowParameters (operand : s.current.token.isOperand) (alone : s.WordAlone) :
    (arrowParameters? parts context).Gives s none s := by
  refine .bind gives_token ?_
  split
  · rename_i same
    rw [same] at operand
    cases operand
  · rename_i same
    obtain ⟨lexeme, start, after, last⟩ := alone _ (by decide) same
    refine .bind last.atAsyncArrow (.bind (last.asyncArrowHead same).attempt ?_)
    exact .bind (last.asyncSimpleHead same).attempt .pure
  · exact .pure

theorem takes_assignment (plain : context.Plain) (closes : Closes rest)
    (operand : ∀ ⦃offset⦄ ⦃s : State⦄, s.At (text ++ rest) offset → s.current.token.isOperand ∧ s.WordAlone)
    (taken : Takes (leftHandSide ⟨fuel, parse fuel⟩ context) text rest answer) :
    Takes (parse (fuel + 3) (.assignment context)) text rest answer := by
  have begins := fun offset s (place : State.At (text ++ rest) offset s) => (operand place).1
  have unary : Takes (parse (fuel + 1) (.unary context)) text rest answer :=
    takes_unary closes begins taken
  have binary : Takes (parse (fuel + 2) (.binary context 0)) text rest answer :=
    takes_binary closes (Nat.succ_pos fuel) begins unary
  intro offset s place
  obtain ⟨node, t, gives, goes, holds⟩ := binary place
  have closer := goes.place.closer closes
  obtain ⟨begins, alone⟩ := operand place
  have follows : ∃ follows, operandFollows.Gives s follows s ∧ ((s.current.token == .word "yield") && follows) = false := by
    by_cases yield : s.current.token = .word "yield"
    · obtain ⟨lexeme, start, after, last⟩ := alone _ (by decide) yield
      exact ⟨false, last.operandFollows, Bool.and_false _⟩
    · obtain ⟨follows, peeked⟩ := gives_operandFollows (s := s)
      exact ⟨follows, peeked, by simp [yield]⟩
  obtain ⟨follows, peeked, other⟩ := follows
  refine ⟨node, t, ?_, goes, holds⟩
  change (assignmentExpression ⟨fuel + 2, parse (fuel + 2)⟩ context).Gives s node t
  refine .bind gives_here (.bind gives_isWord ?_)
  rw [if_neg (by simp [plain.yield])]
  refine .bind gives_isWord (.bind peeked ?_)
  rw [if_neg (by simp [other])]
  refine .bind (gives_arrowParameters begins alone) (.bind gives (.bind gives_token ?_))
  split
  · rename_i same
    exact absurd same (ne_of_closer closer).2.2.1
  · rename_i text same _
    rw [not_assigns_of_closer (same ▸ closer), if_neg Bool.false_ne_true]
    exact .bind (.eatPunct_other (ne_of_closer closer).2.1) .pure
  · exact .pure

end

/-! ### Tokens alone -/

section

variable {context : Context}

theorem takes_literal {token : Token} (closes : Closes rest) (lexes : Lexes text token rest) :
    Takes (literalNode value) text rest fun span node => node = .mk (.literal value) span [] := by
  intro offset s place
  obtain ⟨lexeme, start, after, next, -⟩ := closes.next (offset + byteLength text)
  obtain ⟨t, advanced, goes⟩ := place.advance lexes next
  refine ⟨_, t, .bind gives_lexeme (.bind advanced .pure), goes, ?_⟩
  rw [(place.current lexes).1]

theorem takes_string {value : String} (closes : Closes rest) :
    Takes (primary parts context) (Json.quoteChars value.toList) rest fun span node =>
      node = .mk (.literal (.string value)) span [] := by
  have lexes := lexes_string value rest
  intro offset s place
  obtain ⟨node, t, gives, goes, holds⟩ := takes_literal closes lexes place
  refine ⟨node, t, .bind gives_token ?_, goes, holds⟩
  rw [(place.current lexes).1]
  exact gives

theorem Closes.endsNumber (closes : Closes rest) : EndsNumber rest := by
  intro c head
  cases closes
  all_goals cases head
  all_goals simp

theorem Closes.endsWord (closes : Closes rest) : EndsWord rest := by
  intro c head
  cases closes
  all_goals cases head
  all_goals decide

theorem takes_number {n : Binary64} (rounded : n.IsRounded) (finite : n.isFinite) (closes : Closes rest) :
    Takes (primary parts context) (PropertyValue.numberScript n).toList rest fun span node =>
      node = .mk (.literal (.number n)) span [] := by
  have lexes := lexes_number rounded finite closes.endsNumber
  intro offset s place
  obtain ⟨node, t, gives, goes, holds⟩ := takes_literal closes lexes place
  refine ⟨node, t, .bind gives_token ?_, goes, holds⟩
  rw [(place.current lexes).1]
  exact gives

def wordLiteral? : String → Option Literal
  | "null" => some .null
  | "true" => some (.bool true)
  | "false" => some (.bool false)
  | _ => none

theorem gives_wordLiteral {s : State} (found : wordLiteral? name = some value) (plain : s.current.escaped = false)
    (next : advance.Gives s () t) :
    (wordExpression parts context name).Gives s (.mk (.literal value) s.current.span []) t := by
  have taken := Gives.takeKeyword plain next
  unfold wordLiteral? at found
  split at found
  all_goals cases found
  all_goals exact .bind gives_lexeme (.bind taken .pure)

theorem takes_word (named : isName name) (closes : Closes rest)
    (production : ∀ ⦃s t : State⦄ ⦃lexeme : Lexeme⦄ ⦃start after : Cursor⦄, s.IsLast lexeme start after →
      s.current.token = .word name → advance.Gives s () t →
      (wordExpression parts context name).Gives s (.mk label s.current.span []) t) :
    Takes (primary parts context) name.toList rest fun span node => node = .mk label span [] := by
  have lexes := lexes_word named closes.endsWord
  intro offset s place
  obtain ⟨lexeme, start, after, next, closer, line⟩ := closes.next (offset + byteLength name.toList)
  obtain ⟨t, advanced, goes⟩ := place.advance lexes next
  obtain ⟨current, behind⟩ := place.current lexes
  have last : s.IsLast lexeme start after := ⟨by rw [current], by rw [behind, next], closer, line⟩
  have word : s.current.token = .word name := by rw [current]
  refine ⟨.mk label s.current.span [], t, .bind gives_token ?_, goes, by rw [current]⟩
  rw [word]
  exact production last word advanced

theorem gives_variableName {s : State} (plain : context.Plain) (free : isReserved name = false)
    (other : name ≠ "await") (word : s.current.token = .word name) (next : advance.Gives s () t) :
    (variableName context).Gives s (name, s.current.span) t := by
  have checked : (checkName context name).Gives s () s := by
    unfold checkName
    simp only [free, Bool.false_eq_true, if_false, other, beq_iff_eq, plain.yield, Bool.false_and, Bool.and_eq_true,
      and_false]
    exact .pure
  refine .bind gives_lexeme ?_
  rw [word]
  exact .bind checked (.bind next .pure)

theorem gives_identifier {s : State} {lexeme : Lexeme} (plain : context.Plain) (free : isReserved name = false)
    (other : name ≠ "await") (last : s.IsLast lexeme start after) (word : s.current.token = .word name)
    (next : advance.Gives s () t) :
    (wordExpression parts context name).Gives s (.mk (.identifier name) s.current.span []) t := by
  refine .bind gives_lexeme ?_
  split
  all_goals try cases free
  exact .bind last.atAsyncFunction (.bind (gives_variableName plain free other word next) .pure)

end

/-! ### Expressions -/

/-- Whether a token begins an expression rather than ending a list, leaving an item out, or spreading one. -/
def Token.begins : Token → Bool
  | .punct text => !(["]", ")", ",", "..."].contains text)
  | _ => true

theorem Token.begins_of_isOperand {token : Token} (operand : token.isOperand) : token.begins := by
  unfold isOperand at operand
  split at operand
  · rfl
  · rfl
  · simp only [Bool.or_eq_true, beq_iff_eq] at operand
    rcases operand with rfl | rfl
    all_goals decide
  · rfl
  · cases operand

/-- In the context the text is an expression: wherever one ends behind it, it is parsed as one, with an answer as stated of its place. -/
structure Reads (context : Context) (text : List Char) (answer : Span → Node → Prop) : Prop where
  opens : ∀ ⦃rest⦄, Closes rest → ∀ offset, ∃ lexeme start after,
    Lexer.next ⟨text ++ rest, offset⟩ = .ok (lexeme, start, after) ∧ lexeme.token.begins = true
  parsed : ∀ ⦃fuel rest⦄, fuelFor text.length ≤ fuel → Closes rest →
    Takes (parse fuel (.assignment context)) text rest answer

section

variable {context : Context}

theorem Reads.imp (reads : Reads context text answer) (follows : ∀ span node, answer span node →
    span.stop = span.start + byteLength text → weaker span node) : Reads context text weaker where
  opens := reads.opens
  parsed fuel rest enough closes offset s place := by
    obtain ⟨node, t, gives, goes, holds⟩ := reads.parsed enough closes place
    exact ⟨node, t, gives, goes, follows _ _ holds rfl⟩

theorem Reads.parseExpression {code : String} (reads : Reads .module code.toList answer) :
    ∃ node, parseExpression code = .ok node ∧ answer ⟨0, byteLength code.toList⟩ node := by
  obtain ⟨lexeme, start, after, next, -⟩ := reads.opens .text 0
  obtain ⟨node, t, gives, goes, holds⟩ := reads.parsed (Nat.le_refl _) .text
    (show State.At _ 0 ⟨lexeme, start, after, 0, [], [], none⟩ from next)
  have last : t.current.token ≠ .punct "," := by
    have ended := goes.place.symm.trans (next_nil _)
    simp only [Except.ok.injEq, Prod.mk.injEq] at ended
    simp [ended.1]
  have checked : checkFaults.Gives t () t := by
    refine .bind gives_get ?_
    rw [goes.fault, goes.initialized]
    exact .pure
  have whole : (leadingExpression (fuelFor code.toList.length)).Gives ⟨lexeme, start, after, 0, [], [], none⟩ node t := by
    refine .bind (.bind gives_here (.bind gives (.bind gives_isPunct ?_))) (.bind checked .pure)
    rw [if_neg (by simpa using last)]
    exact .pure
  refine ⟨node, ?_, by simpa using holds⟩
  rw [List.append_nil] at next
  have first : initialState ⟨code.toList, 0⟩ = .ok ⟨lexeme, start, after, 0, [], [], none⟩ := by rw [initialState, next]
  unfold Gives at whole
  simp only [Script.parseExpression, first, bind, Except.bind, whole, pure, Except.pure]

theorem Reads.of_head {token : Token} (plain : context.Plain) (operand : token.isOperand)
    (other : ∀ name ∈ ["async", "yield"], token ≠ .word name)
    (lexes : ∀ ⦃rest⦄, Closes rest → Lexes head token (more ++ rest))
    (taken : ∀ ⦃fuel rest⦄, fuelFor (head ++ more).length ≤ fuel + 3 → Closes rest →
      Takes (leftHandSide ⟨fuel, parse fuel⟩ context) (head ++ more) rest answer) :
    Reads context (head ++ more) answer where
  opens rest closes offset := by
    rw [List.append_assoc]
    exact ⟨_, _, _, lexes closes offset, Token.begins_of_isOperand operand⟩
  parsed fuel rest enough closes := by
    obtain ⟨fuel, rfl⟩ : ∃ k, fuel = k + 3 := ⟨fuel - 3, by rw [fuelFor] at enough; omega⟩
    refine takes_assignment plain closes (fun offset s place => ?_) (taken enough closes)
    rw [List.append_assoc] at place
    have current : s.current.token = token := by rw [(place.current (lexes closes)).1]
    refine ⟨by rw [current]; exact operand, fun name listed word => ?_⟩
    exact absurd (current.symm.trans word) (other name listed)

theorem Reads.of_first {token : Token} (plain : context.Plain) (phrase : Parts → Parse Node)
    (operand : token.isOperand) (other : ∀ name ∈ ["async", "yield"], token ≠ .word name)
    (lexes : ∀ rest, Lexes head token (more ++ rest))
    (production : ∀ ⦃parts s node t⦄, s.current.token = token → (phrase parts).Gives s node t →
      (primary parts context).Gives s node t)
    (taken : ∀ ⦃fuel rest⦄, fuelFor (head ++ more).length ≤ fuel + 3 → Closes rest →
      Takes (phrase ⟨fuel, parse fuel⟩) (head ++ more) rest answer) : Reads context (head ++ more) answer := by
  refine .of_head plain operand other (fun rest _ => lexes rest) fun fuel rest enough closes => ?_
  refine takes_leftHandSide closes (by rw [fuelFor] at enough; show 0 < fuel; omega) fun offset s place => ?_
  obtain ⟨node, t, gives, goes, holds⟩ := taken enough closes place
  rw [List.append_assoc] at place
  exact ⟨node, t, production (by rw [(place.current (lexes rest)).1]) gives, goes, holds⟩

theorem Reads.of_token {token : Token} (plain : context.Plain) (operand : token.isOperand)
    (lexes : ∀ ⦃rest⦄, Closes rest → Lexes text token rest)
    (taken : ∀ parts ⦃rest⦄, Closes rest → Takes (primary parts context) text rest answer) :
    Reads context text answer where
  opens rest closes offset := ⟨_, _, _, lexes closes offset, Token.begins_of_isOperand operand⟩
  parsed := by
    intro fuel rest enough closes
    obtain ⟨fuel, rfl⟩ : ∃ k, fuel = k + 3 := ⟨fuel - 3, by rw [fuelFor] at enough; omega⟩
    have positive : 0 < fuel := by
      rw [fuelFor] at enough
      omega
    refine takes_assignment plain closes (fun offset s place => ?_) (takes_leftHandSide closes positive (taken _ closes))
    obtain ⟨current, behind⟩ := place.current (lexes closes)
    refine ⟨by rw [current]; exact operand, fun name _ word => ?_⟩
    obtain ⟨lexeme, start, after, next, closer, line⟩ := closes.next (offset + byteLength text)
    exact ⟨lexeme, start, after, by rw [current], by rw [behind, next], closer, line⟩

theorem reads_string (plain : context.Plain) (value : String) : Reads context (Json.quoteChars value.toList) fun span node =>
    node = .mk (.literal (.string value)) span [] :=
  .of_token plain rfl (fun rest _ => lexes_string value rest) fun _ _ => takes_string

theorem reads_number {n : Binary64} (plain : context.Plain) (rounded : n.IsRounded) (finite : n.isFinite) :
    Reads context (PropertyValue.numberScript n).toList fun span node => node = .mk (.literal (.number n)) span [] :=
  .of_token plain rfl (fun _ closes => lexes_number rounded finite closes.endsNumber)
    fun _ _ => takes_number rounded finite

theorem reads_wordLiteral (plain : context.Plain) (found : wordLiteral? name = some value) :
    Reads context name.toList fun span node => node = .mk (.literal value) span [] := by
  have named : isName name ∧ (Token.word name).isOperand := by
    unfold wordLiteral? at found
    split at found
    all_goals cases found
    all_goals exact ⟨by decide, by decide⟩
  refine .of_token plain named.2 (fun _ closes => lexes_word named.1 closes.endsWord) fun parts rest closes => ?_
  exact takes_word named.1 closes fun s t lexeme start after last word => gives_wordLiteral found last.plain

structure IsVariable (name : String) : Prop where
  named : isName name = true
  free : isReserved name = false
  other : name ≠ "await"

theorem IsVariable.isOperand (usable : IsVariable name) : (Token.word name).isOperand := by
  have free := usable.free
  simp only [Token.isOperand, List.contains_eq_mem, Bool.not_eq_true', decide_eq_false_iff_not, List.mem_cons,
    List.not_mem_nil, or_false]
  rintro (rfl | rfl | rfl | rfl)
  · cases free
  · cases free
  · cases free
  · exact usable.other rfl

theorem reads_identifier (plain : context.Plain) (usable : IsVariable name) :
    Reads context name.toList fun span node => node = .mk (.identifier name) span [] := by
  refine .of_token plain usable.isOperand (fun _ closes => lexes_word usable.named closes.endsWord) fun parts rest closes => ?_
  exact takes_word usable.named closes fun s t lexeme start after => gives_identifier plain usable.free usable.other

end

/-! ### Lists -/

def Answers {ι : Type} (text : ι → List Char) (answer : ι → Span → Node → Prop) : Nat → List ι → List Node → Prop
  | _, [], nodes => nodes = []
  | _, _ :: _, [] => False
  | offset, item :: items, node :: nodes =>
    answer item ⟨offset, offset + byteLength (text item)⟩ node ∧
      Answers text answer (offset + byteLength (text item) + 2) items nodes

/-- The parser takes the text of each item, which begins with no closing token. -/
structure ReadsItem (p : Parse Node) (close : String) (text : List Char) (answer : Span → Node → Prop) : Prop where
  opens : ∀ ⦃rest⦄, Closes rest → ∀ offset, ∃ lexeme start after,
    Lexer.next ⟨text ++ rest, offset⟩ = .ok (lexeme, start, after) ∧ lexeme.token ≠ .punct close
  taken : ∀ ⦃rest⦄, Closes rest → Takes p text rest answer

section

variable {ι : Type} {text : ι → List Char} {answer : ι → Span → Node → Prop} {close : String} {p : Parse Node}

abbrev joined (text : ι → List Char) (items : List ι) : List Char := join [',', ' '] (items.map text)

theorem opens_joined (each : ∀ item ∈ items, ReadsItem p close (text item) (answer item)) (closes : Closes rest)
    (offset) : ∃ lexeme start after,
      Lexer.next ⟨joined text items ++ rest, offset⟩ = .ok (lexeme, start, after) ∧
        (items ≠ [] → lexeme.token ≠ .punct close) := by
  match items with
  | [] =>
    obtain ⟨lexeme, start, after, next, -⟩ := closes.next offset
    exact ⟨lexeme, start, after, next, fun some => absurd rfl some⟩
  | [item] =>
    obtain ⟨lexeme, start, after, next, other⟩ := (each item List.mem_cons_self).opens closes offset
    exact ⟨lexeme, start, after, next, fun _ => other⟩
  | item :: second :: more =>
    obtain ⟨lexeme, start, after, next, other⟩ := (each item List.mem_cons_self).opens (.item (' ' :: joined text (second :: more) ++ rest)) offset
    refine ⟨lexeme, start, after, ?_, fun _ => other⟩
    rw [← next]
    simp [joined, join]

theorem byteLength_joined (item second : ι) (more) : byteLength (joined text (item :: second :: more)) =
    byteLength (text item) + 2 + byteLength (joined text (second :: more)) := by
  have comma : ','.utf8Size = 1 := rfl
  have blank : ' '.utf8Size = 1 := rfl
  simp [joined, join, byteLength_append, byteLength]
  omega

/-- One step of a loop that collects the items of a list up to its closing token. -/
structure ListStep (p : Parse Node) (close : String) (step : List Node → Parse (List Node ⊕ List Node)) : Prop where
  stops : ∀ ⦃s : State⦄ ⦃done⦄, s.current.token = .punct close → (step done).Gives s (.inr done.reverse) s
  ends : ∀ ⦃s t : State⦄ ⦃done node⦄, s.current.token ≠ .punct close → p.Gives s node t → t.current.token = .punct close →
    (step done).Gives s (.inr (node :: done).reverse) t
  goes : ∀ ⦃s t u : State⦄ ⦃done node⦄, s.current.token ≠ .punct close → p.Gives s node t → t.current.token = .punct "," →
    advance.Gives t () u → u.current.token ≠ .punct close → (step done).Gives s (.inl (node :: done)) u

theorem State.At.skip_blank {text : List Char} {s : State} (place : s.At (' ' :: text) offset) :
    s.At text (offset + 1) := by
  rwa [State.At, next_blank] at place

theorem ListStep.gives (loop : ListStep p close step) (closes : Closes rest)
    (closed : ∀ ⦃offset⦄ ⦃t : State⦄, t.At rest offset → t.current.token = .punct close) {items : List ι}
    (each : ∀ item ∈ items, ReadsItem p close (text item) (answer item)) {fuel offset : Nat} {s : State}
    (enough : items.length < fuel) (place : s.At (joined text items ++ rest) offset) :
    ∃ nodes t, (iterate fuel step done).Gives s (done.reverse ++ nodes) t ∧
      t.At rest (offset + byteLength (joined text items)) ∧ t.fault = s.fault ∧ t.initialized = s.initialized ∧
      Answers text answer offset items nodes := by
  induction items generalizing fuel offset done s with
  | nil =>
    obtain ⟨fuel, rfl⟩ := Nat.exists_eq_succ_of_ne_zero (Nat.ne_of_gt (Nat.lt_of_le_of_lt (Nat.zero_le _) enough))
    refine ⟨[], s, ?_, place, rfl, rfl, rfl⟩
    rw [List.append_nil]
    exact .bind (loop.stops (closed place)) .pure
  | cons item more ih =>
    obtain ⟨fuel, rfl⟩ := Nat.exists_eq_succ_of_ne_zero (Nat.ne_of_gt (Nat.lt_of_le_of_lt (Nat.zero_le _) enough))
    have reads := each item List.mem_cons_self
    have first : s.current.token ≠ .punct close := by
      obtain ⟨lexeme, start, after, next, opens⟩ := opens_joined each closes offset
      cases place.symm.trans next
      exact opens (List.cons_ne_nil _ _)
    cases more with
    | nil =>
      obtain ⟨node, t, gives, goes, holds⟩ := reads.taken closes place
      refine ⟨[node], t, ?_, goes.place, goes.fault, goes.initialized, holds, rfl⟩
      rw [← List.reverse_cons]
      exact .bind (loop.ends first gives (closed goes.place)) .pure
    | cons second more =>
      have split : joined text (item :: second :: more) ++ rest =
          text item ++ ',' :: ' ' :: (joined text (second :: more) ++ rest) := by
        simp [joined, join]
      rw [split] at place
      obtain ⟨node, t, gives, goes, holds⟩ := reads.taken (.item _) place
      have comma := lexes_single (by decide : "," ∈ _) (' ' :: (joined text (second :: more) ++ rest))
      have later := List.forall_mem_cons.mp each
      obtain ⟨lexeme, start, after, next, opens⟩ :=
        opens_joined later.2 closes (offset + byteLength (text item) + 1 + 1)
      obtain ⟨u, advanced, onward⟩ := goes.place.advance comma ((next_blank _ _).trans next)
      have place' := onward.place.skip_blank
      have behind : u.current.token ≠ .punct close := by
        cases place'.symm.trans next
        exact opens (List.cons_ne_nil _ _)
      obtain ⟨nodes, v, rest, last, fault, initialized, answers⟩ := ih later.2 (Nat.lt_of_succ_lt_succ enough) place'
      have found : t.current.token = .punct "," := by rw [(goes.place.current comma).1]
      refine ⟨node :: nodes, v, ?_, ?_, ?_, ?_, holds, answers⟩
      · rw [List.append_cons, ← List.reverse_cons]
        exact .bind (loop.goes first gives found advanced behind) rest
      · rwa [byteLength_joined, ← Nat.add_assoc, ← Nat.add_assoc]
      · exact fault.trans (onward.fault.trans goes.fault)
      · exact initialized.trans (onward.initialized.trans goes.initialized)

theorem ListStep.of_onward {close : String} (apart : close ≠ ",")
    {onward : List Node → Node → Parse (List Node ⊕ List Node)}
    (goes : ∀ ⦃s : State⦄ ⦃done node⦄, s.current.token ≠ .punct close → (onward done node).Gives s (.inl (node :: done)) s) :
    ListStep p close fun done => do
      if ← isPunct close then return .inr done.reverse
      let next ← p
      if ← isPunct close then return .inr (next :: done).reverse
      expectPunct ","
      onward done next where
  stops s done same := by
    refine .bind gives_isPunct ?_
    rw [if_pos (by simpa using same)]
    exact .pure
  ends s t done node other gives same := by
    refine .bind gives_isPunct ?_
    rw [if_neg (by simpa using other)]
    refine .bind gives (.bind gives_isPunct ?_)
    rw [if_pos (by simpa using same)]
    exact .pure
  goes s t u done node other gives same next behind := by
    have comma : t.current.token ≠ .punct close := by
      rw [same]
      exact fun equal => apart (Token.punct.inj equal).symm
    refine .bind gives_isPunct ?_
    rw [if_neg (by simpa using other)]
    refine .bind gives (.bind gives_isPunct ?_)
    rw [if_neg (by simpa using comma)]
    exact .bind (.expectPunct same next) (goes behind)

theorem listStep_literalItems (p : Parse Node) {close : String} (apart : close ≠ ",") (start) : ∃ step, ListStep p close step ∧
    ∀ parts : Parts, literalItems parts start close p =
      (iterate parts.fuel step [] >>= fun items => expectPunct close >>= fun _ => pure items) := by
  refine ⟨_, .of_onward apart fun s done node behind => ?_, fun parts => rfl⟩
  dsimp only
  split
  · refine .bind gives_isPunct ?_
    rw [if_neg (by simpa using behind)]
    exact .pure
  · exact .pure

theorem listStep_delimited (p : Parse Node) {close : String} (apart : close ≠ ",") : ∃ step, ListStep p close step ∧
    ∀ fuel, delimited fuel close p = iterate fuel step [] :=
  ⟨_, .of_onward apart fun _ _ _ _ => .pure, fun _ => rfl⟩

end

end ComponentCompiler.Script
