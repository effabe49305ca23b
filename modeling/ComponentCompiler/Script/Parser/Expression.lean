import ComponentCompiler.Script.Parser.Class

/-! Expressions, from the primary ones up to assignments and arrow functions. -/

namespace ComponentCompiler.Script

open Parse

/-! ### Lists and templates -/

variable (parts : Parts) (context : Context)

def spreadable : Parse Node := do
  let start ← here
  if ← eatPunct "..." then
    let value ← parts.run (.assignment context.withIn)
    node start .spread [value]
  else parts.run (.assignment context.withIn)

def arguments : Parse (List Node) := do
  expectPunct "("
  let items ← delimited parts.fuel ")" (spreadable parts context)
  expectPunct ")"
  return items

def expression : Parse Node := do
  let start ← here
  let first ← parts.run (.assignment context)
  if ← isPunct "," then
    let items ← iterate parts.fuel (fun (done : List Node) => do
      if ← eatPunct "," then
        let next ← parts.run (.assignment context)
        return .inl (next :: done)
      else return .inr done.reverse) [first]
    node start .sequence items
  else return first

def templatePieceAfterBrace : Parse (Quasi × Bool) := do
  if !(← isPunct "\x7d") then unexpected
  let s ← get
  match Lexer.templatePiece (s.start.skip 1) with
  | .error e => failAt e.fault e.offset
  | .ok (quasi, opens, after) =>
    set { s with after := after, current := { s.current with span := ⟨s.current.span.start, after.offset⟩ } }
    advance
    return (quasi, opens)

def templateParts : Parse (List Quasi × List Node) := do
  match ← token with
  | .template quasi opens =>
    advance
    iterate parts.fuel (fun ((quasis, values, opens) : List Quasi × List Node × Bool) => do
      if opens then
        let value ← expression parts context.withIn
        let (quasi, opens) ← templatePieceAfterBrace
        return .inl (quasi :: quasis, value :: values, opens)
      else return .inr (quasis.reverse, values.reverse)) ([quasi], [], opens)
  | _ => unexpected

def templateLiteral : Parse Node := do
  let start ← here
  let (quasis, values) ← templateParts parts context
  if quasis.any (·.cooked.isNone) then failAt .invalidEscape start
  node start (.template quasis) values

/-! ### Arrays and objects -/

def arrayElement : Parse Node := do
  if ← isPunct "," then return .mk .hole (← lexeme).span []
  else
    let start ← here
    if ← eatPunct "..." then
      let value ← parts.run (.assignment context.withIn)
      let spread ← node start .spread [value]
      return spread
    else parts.run (.assignment context.withIn)

variable (start : Nat)

/-- Items with commas between them up to a closing punctuator. A spread with a comma after it, at the end,
is put down under the offset where the literal begins. -/
def literalItems (close : String) (item : Parse Node) : Parse (List Node) := do
  let items ← iterate parts.fuel (fun (done : List Node) => do
    if ← isPunct close then return .inr done.reverse
    let next ← item
    if ← isPunct close then return .inr (next :: done).reverse
    expectPunct ","
    if let .spread := next.label then
      if ← isPunct close then modify fun s => { s with trailing := start :: s.trailing }
    return .inl (next :: done)) []
  expectPunct close
  return items

def arrayLiteral : Parse Node := do
  let start ← here
  expectPunct "["
  let elements ← literalItems parts start "]" (arrayElement parts context)
  node start .array elements

def afterObjectKey : List String := ["(", ",", ":", "=", "\x7d"]

def shorthandMember (name : String) (span : Span) : Parse Node := do
  if isReserved name then failAt .unexpectedToken span.start
  if (context.await && name == "await") || (context.yield && name == "yield") then
    failAt .illegalName span.start
  if ← eatPunct "=" then
    let value ← parts.run (.assignment context.withIn)
    modify fun s => { s with initialized := span.start :: s.initialized }
    node span.start (.initialized name) [.mk (.identifier name) span [], value]
  else return .mk (.shorthand name) span []

def objectMember : Parse Node := do
  let start ← here
  if ← eatPunct "..." then
    let value ← parts.run (.assignment context.withIn)
    node start .spread [value]
  else
    let kind ← memberKind afterObjectKey
    let first ← lexeme
    let key ← propertyKey parts context
    if kind != .plain then
      let function ← memberFunction parts kind
      node start .method [key, function]
    else if ← isPunct "(" then
      let function ← memberFunction parts .plain
      node start .method [key, function]
    else if ← eatPunct ":" then
      let value ← parts.run (.assignment context.withIn)
      node start .property [key, value]
    else
      match first.token with
      | .word name => shorthandMember parts context name first.span
      | _ => unexpected

def objectLiteral : Parse Node := do
  let start ← here
  expectPunct "\x7b"
  let members ← literalItems parts start "\x7d" (objectMember parts context)
  node start .object members

/-! ### Primary expressions -/

def regexLiteral : Parse Node := do
  let s ← get
  match Lexer.regex s.start with
  | .error e => failAt e.fault e.offset
  | .ok after =>
    let span := Span.mk s.start.offset after.offset
    set { s with after := after, current := { s.current with span := span } }
    advance
    return .mk (.literal .regex) span []

def parenthesized : Parse Node := do
  let start ← here
  expectPunct "("
  let inner ← expression parts context.withIn
  expectPunct ")"
  node start .paren [inner]

def superReference : Parse Node := do
  let span := (← lexeme).span
  takeKeyword
  if ← isOneOf [".", "[", "("] then return .mk .superRef span []
  else failAt .unexpectedToken span.start

def importExpression : Parse Node := do
  let start ← here
  takeKeyword
  let called ←
    if ← eatPunct "." then
      if ← eatWord "meta" then pure false
      else if (← eatWord "source") || (← eatWord "defer") then pure true
      else unexpected
    else pure true
  if called then
    expectPunct "("
    let items ← delimited parts.fuel ")" (parts.run (.assignment context.withIn))
    expectPunct ")"
    if items.isEmpty || 2 < items.length then failAt .unexpectedToken start
    node start .importCall items
  else node start .metaProperty []

def newExpression : Parse Node := do
  let start ← here
  takeKeyword
  if ← eatPunct "." then
    expectWord "target"
    node start .metaProperty []
  else
    let callee ← parts.run (.constructed context)
    if let .importCall := callee.label then failAt .unexpectedToken callee.span.start
    if ← isPunct "?." then failHere .illegalOptionalChain
    let items ← if ← isPunct "(" then arguments parts context else pure []
    node start .new (callee :: items)

def literalNode (value : Literal) : Parse Node := do
  let span := (← lexeme).span
  advance
  return .mk (.literal value) span []

def wordExpression (name : String) : Parse Node := do
  let lexeme ← lexeme
  match name with
  | "this" =>
    takeKeyword
    return .mk .this lexeme.span []
  | "null" | "true" | "false" =>
    takeKeyword
    return .mk (.literal (if name == "null" then .null else .bool (name == "true"))) lexeme.span []
  | "function" => functionFrom parts context false false
  | "class" => decoratedClass parts context
  | "new" => newExpression parts context
  | "super" => superReference
  | "import" => importExpression parts context
  | _ =>
    if ← atAsyncFunction then functionFrom parts context false false
    else
      let (name, span) ← variableName context
      return .mk (.identifier name) span []

def primary : Parse Node := do
  match ← token with
  | .word name => wordExpression parts context name
  | .number value => literalNode (.number value)
  | .bigint => literalNode .bigint
  | .string value _ => literalNode (.string value)
  | .template .. => templateLiteral parts context
  | .punct "(" => parenthesized parts context
  | .punct "[" => arrayLiteral parts context
  | .punct "\x7b" => objectLiteral parts context
  | .punct "/" | .punct "/=" => regexLiteral
  | .punct "@" => decoratedClass parts context
  | _ => unexpected

/-! ### Members and calls -/

variable (object : Node)

def memberName : Parse Node := do
  match ← token with
  | .privateName name =>
    advance
    node start (.privateMember name) [object]
  | _ =>
    let (name, _) ← anyName
    node start (.member name) [object]

def indexed : Parse Node := do
  expectPunct "["
  let key ← expression parts context.withIn
  expectPunct "]"
  node start .index [object, key]

def memberSuffix (optional : Bool) : Parse (Option Node) := do
  match ← token with
  | .punct "." =>
    advance
    return some (← memberName start object)
  | .punct "[" =>
    if context.indexing then return some (← indexed parts context start object) else return none
  | .template .. =>
    if optional then failHere .illegalOptionalChain
    let (_, values) ← templateParts parts context
    return some (← node start .tagged (object :: values))
  | _ => return none

def memberChain : Parse Node :=
  iterate parts.fuel (fun (object : Node) => do
    match ← memberSuffix parts context start object false with
    | some next => return .inl next
    | none => return .inr object) object

def optionalSuffix : Parse Node := do
  match ← token with
  | .punct "(" => node start .call (object :: (← arguments parts context))
  | .punct "[" => indexed parts context start object
  | .template .. => failHere .illegalOptionalChain
  | _ => memberName start object

def callChain : Parse Node := do
  let (whole, optional) ← iterate parts.fuel (fun ((object, optional) : Node × Bool) => do
    match ← memberSuffix parts context start object optional with
    | some next => return .inl (next, optional)
    | none =>
      match ← token with
      | .punct "?." =>
        advance
        return .inl (← optionalSuffix parts context start object, true)
      | .punct "(" =>
        let items ← arguments parts context
        return .inl (← node start .call (object :: items), optional)
      | _ => return .inr (object, optional)) (object, false)
  if optional then node start .chain [whole] else return whole

def constructed : Parse Node := do
  let start ← here
  let object ← primary parts context
  memberChain parts context start object

def leftHandSide : Parse Node := do
  let start ← here
  let object ← primary parts context
  callChain parts context start object

/-! ### Operators -/

def precedence? : Token → Option Nat
  | .punct text =>
    match text with
    | "??" => some 1
    | "||" => some 2
    | "&&" => some 3
    | "|" => some 4
    | "^" => some 5
    | "&" => some 6
    | "==" | "!=" | "===" | "!==" => some 7
    | "<" | ">" | "<=" | ">=" => some 8
    | "<<" | ">>" | ">>>" => some 9
    | "+" | "-" => some 10
    | "*" | "/" | "%" => some 11
    | "**" => some 12
    | _ => none
  | .word "instanceof" | .word "as" | .word "satisfies" => some 8
  | .word "in" => if context.inOperator then some 8 else none
  | _ => none

def operatorText : Token → String
  | .punct text | .word text => text
  | _ => ""

def isTypeOperator (token : Token) : Bool := token == .word "as" || token == .word "satisfies"

def isLogical (operand : Node) : Bool :=
  match operand.label with
  | .binary "||" | .binary "&&" => true
  | _ => false

/-- Operators that bind more strongly than `level`, from left to right; powers from right to left. An
operand of `??` that begins with a parenthesis, as `wrapped` says of the first one, may be `||` or `&&`. -/
def binaryRest (start level : Nat) (wrapped : Bool) (left : Node) : Parse Node :=
  iterate parts.fuel (fun (left : Node) => do
    let lexeme ← lexeme
    match precedence? context lexeme.token with
    | none => return .inr left
    | some strength =>
      if strength < level || (strength == level && strength != 12) then return .inr left
      if isTypeOperator lexeme.token then
        if lexeme.newline then return .inr left else unexpected
      takeKeyword
      let rightWrapped ← isPunct "("
      let right ← parts.run (.binary context strength)
      let operator := operatorText lexeme.token
      if operator == "??" && ((isLogical left && !wrapped) || (isLogical right && !rightWrapped)) then
        failAt .mixedOperators start
      return .inl (← node start (.binary operator) [left, right])) left

def privateTest (level : Nat) (name : String) : Parse Node := do
  let start ← here
  advance
  if !context.inOperator || 8 ≤ level then unexpected
  expectWord "in"
  let right ← parts.run (.binary context 8)
  node start (.privateIn name) [right]

def binaryExpression (level : Nat) : Parse Node := do
  let start ← here
  let wrapped ← isPunct "("
  let left ←
    match ← token with
    | .privateName name => privateTest parts context level name
    | _ => parts.run (.unary context)
  binaryRest parts context start level wrapped left

def operandFollows : Parse Bool := do
  match ← peek with
  | none => return false
  | some next =>
    if next.newline then return false
    match next.token with
    | .word _ | .number _ | .bigint | .string .. => return true
    | _ => return false

def unaryOperator? : Token → Option String
  | .punct "!" => some "!"
  | .punct "~" => some "~"
  | .punct "+" => some "+"
  | .punct "-" => some "-"
  | .word "delete" => some "delete"
  | .word "typeof" => some "typeof"
  | .word "void" => some "void"
  | _ => none

def unaryOperand (operator : String) : Parse Node := do
  takeKeyword
  let operand ← parts.run (.unary context)
  if ← isPunct "**" then failHere .mixedOperators
  node start (.unary operator) [operand]

def unaryExpression : Parse Node := do
  let start ← here
  let token ← token
  match unaryOperator? token with
  | some operator => unaryOperand parts context start operator
  | none =>
    match token with
    | .punct "++" | .punct "--" =>
      advance
      let operand ← parts.run (.unary context)
      let target ← simpleTarget operand
      node start (.update (operatorText token)) [target]
    | _ =>
      if token == .word "await" && context.await then unaryOperand parts context start "await"
      else if token == .word "await" && (← operandFollows) then failHere .illegalName
      else
        let operand ← leftHandSide parts context
        if (← isOneOf ["++", "--"]) && !(← lexeme).newline then
          let operator := operatorText (← Parse.token)
          let target ← simpleTarget operand
          advance
          node start (.update operator) [target]
        else return operand

/-! ### Arrow functions -/

def arrowRest (isAsync : Bool) (params : List Node) : Parse Node := do
  if (← lexeme).newline then failHere .illegalLineBreak
  expectPunct "=>"
  let body ←
    if ← isPunct "\x7b" then block parts (.function isAsync false)
    else parts.run (.assignment { context with await := isAsync, yield := false })
  node start .arrow (params ++ [body])

def arrowHead : Parse (List Node) := do
  if (← peek).any (·.token == .punct "@") then unexpected
  let params ← parameters parts context.withIn
  if ← isPunct "=>" then return params else unexpected

def asyncArrowHead : Parse (List Node) := do
  expectWord "async"
  if (← lexeme).newline then failHere .illegalLineBreak
  arrowHead parts { context with await := true }

def asyncSimpleHead : Parse (List Node) := do
  expectWord "async"
  if (← lexeme).newline then failHere .illegalLineBreak
  let (name, span) ← variableName { context with await := true }
  if (← isPunct "=>") && !(← lexeme).newline then return [.mk (.binding name) span []] else unexpected

/-- Whether `async` at hand can only begin an arrow function: empty parentheses with an arrow or a brace
after them, or parentheses that begin with a rest parameter of a plain name. -/
def atAsyncArrow : Parse Bool := do
  let certain ← attempt (lookahead do
    advance
    if (← lexeme).newline || !(← eatPunct "(") then return false
    else if ← eatPunct ")" then isOneOf ["=>", "\x7b"]
    else if ← eatPunct "..." then
      match ← token with
      | .word name => return !isKeyword name
      | _ => return false
    else return false)
  return certain == some true

def arrowParameters? : Parse (Option (Bool × List Node)) := do
  match ← token with
  | .punct "(" => return (← attempt (arrowHead parts context)).map fun params => (false, params)
  | .word "async" =>
    if ← atAsyncArrow then return some (true, ← asyncArrowHead parts context)
    match ← attempt (asyncArrowHead parts context) with
    | some params => return some (true, params)
    | none => return (← attempt (asyncSimpleHead context)).map fun params => (true, params)
  | _ => return none

/-! ### Assignments -/

def yieldExpression : Parse Node := do
  let start ← here
  takeKeyword
  if (← lexeme).newline then node start .yield []
  else
    let delegates ← eatPunct "*"
    let ended ←
      match ← token with
      | .eof | .word "in" => pure true
      | .punct text => pure ([";", "\x7d", ")", "]", ":", ","].contains text)
      | _ => pure false
    if ended && !delegates then node start .yield []
    else
      let value ← parts.run (.assignment context)
      node start .yield [value]

def assignmentOperators : List String :=
  ["=", "+=", "-=", "*=", "/=", "%=", "**=", "<<=", ">>=", ">>>=", "&=", "|=", "^=", "&&=", "||=", "??="]

def conditionalRest (test : Node) : Parse Node := do
  if ← eatPunct "?" then
    let yes ← parts.run (.assignment context.withIn)
    expectPunct ":"
    let no ← parts.run (.assignment context)
    node start .conditional [test, yes, no]
  else return test

def assignmentExpression : Parse Node := do
  let start ← here
  if (← isWord "yield") && context.yield then yieldExpression parts context
  else if (← isWord "yield") && (← operandFollows) then failHere .illegalName
  else
    match ← arrowParameters? parts context with
    | some (isAsync, params) => arrowRest parts context start isAsync params
    | none =>
      let left ← parts.run (.binary context 0)
      match left.label, ← token with
      | .identifier name, .punct "=>" =>
        arrowRest parts context start false [.mk (.binding name) left.span []]
      | _, .punct text =>
        if assignmentOperators.contains text then
          let target ← toTarget left
          advance
          let value ← parts.run (.assignment context)
          node start (.assign text) [target, value]
        else conditionalRest parts context start left
      | _, _ => return left

end ComponentCompiler.Script
