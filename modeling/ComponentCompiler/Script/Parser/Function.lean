import ComponentCompiler.Script.Parser.Pattern

/-! Functions and methods. -/

namespace ComponentCompiler.Script

open Parse

variable (parts : Parts) (context : Context)

def decorators : Parse (List Node) :=
  iterate parts.fuel (fun (done : List Node) => do
    if ← eatPunct "@" then
      let next ← parts.run (.leftHandSide context.decorator)
      return .inl (next :: done)
    else return .inr done.reverse) []

def parameter : Parse Node := do
  let start ← here
  if ← isPunct "..." then restElement parts context ")"
  else if ← isPunct "@" then
    let decorated ← decorators parts context
    let pattern ← patternWithDefault parts context
    node start .decorated (decorated ++ [pattern])
  else patternWithDefault parts context

def parameters : Parse (List Node) := do
  expectPunct "("
  let params ← delimited parts.fuel ")" (parameter parts context)
  expectPunct ")"
  return params

def statements : Parse (List Node) :=
  iterate parts.fuel (fun (done : List Node) => do
    if ← isPunct "\x7d" then return .inr done.reverse
    if (← token) == .eof then unexpected
    let next ← parts.run (.statement context .list)
    return .inl (next :: done)) []

def block : Parse Node := do
  let start ← here
  expectPunct "\x7b"
  let body ← statements parts context
  expectPunct "\x7d"
  node start .block body

def functionRest (start : Nat) (name : Option String) (context : Context) : Parse Node := do
  let params ← parameters parts context
  let body ← block parts context
  node start (.function name) (params ++ [body])

def functionFrom (outer : Context) (isDeclaration nameRequired : Bool) : Parse Node := do
  let start ← here
  let isAsync ← eatWord "async"
  expectWord "function"
  let isGenerator ← eatPunct "*"
  let inner := Context.function isAsync isGenerator
  let name ←
    if ← isPunct "(" then
      if nameRequired then unexpected else pure none
    else
      let (name, _) ← variableName (if isDeclaration then outer else inner)
      pure (some name)
  functionRest parts start name inner

def atAsyncFunction : Parse Bool := do
  if ← isWord "async" then
    match ← peek with
    | some next => return next.token == .word "function" && !next.newline
    | none => return false
  else return false

def method (isAsync isGenerator : Bool) : Parse Node := do
  functionRest parts (← here) none (.function isAsync isGenerator)

def functionParams (function : Node) : List Node := function.parts.dropLast

def checkGetter (function : Node) : Parse Unit := do
  if !(functionParams function).isEmpty then failAt .unexpectedToken function.span.start

def checkSetter (function : Node) : Parse Unit := do
  match functionParams function with
  | [.mk .rest span _] => failAt .misplacedRest span.start
  | [_] => return ()
  | _ => failAt .unexpectedToken function.span.start

inductive MemberKind where
  | plain
  | generator
  | async
  | asyncGenerator
  | getter
  | setter
deriving DecidableEq, Repr

/-- Whether the current word is a modifier of an object's member and not itself a key: no token that
may follow a key comes after it. -/
def isModifier (afterKey : List String) (sameLine : Bool) : Parse Bool := do
  if (← lexeme).escaped then return false
  match ← peek with
  | none => return true
  | some next =>
    if sameLine && next.newline then return false
    match next.token with
    | .punct text => return !afterKey.contains text
    | .eof => return false
    | _ => return true

def memberKind (afterKey : List String) : Parse MemberKind := do
  if ← eatPunct "*" then return .generator
  if (← isWord "async") && (← isModifier afterKey true) then
    advance
    if ← eatPunct "*" then return .asyncGenerator else return .async
  if (← isWord "get") && (← isModifier ("*" :: afterKey) false) then
    advance
    return .getter
  if (← isWord "set") && (← isModifier ("*" :: afterKey) false) then
    advance
    return .setter
  return .plain

def memberFunction (kind : MemberKind) : Parse Node := do
  let function ← method parts (kind == .async || kind == .asyncGenerator)
    (kind == .generator || kind == .asyncGenerator)
  if kind == .getter then checkGetter function
  if kind == .setter then checkSetter function
  return function

end ComponentCompiler.Script
