import ComponentCompiler.Script.Parser.Type

/-!
Classes: their members with the words before them, their decorators and what they inherit from.
-/

namespace ComponentCompiler.Script

open Parse

def modifierWords : List String :=
  ["abstract", "accessor", "async", "declare", "override", "private", "protected", "public", "readonly",
    "static"]

/-- Modifiers of which a member has at most one; a constructor has no others. -/
def accessWords : List String := ["private", "protected", "public"]

def isPlainKey : Token → Bool
  | .word _ | .privateName _ | .string .. | .number _ | .bigint => true
  | _ => false

def canFollowModifier : Token → Bool
  | .punct text => ["[", "\x7b", "*", "..."].contains text
  | token => isPlainKey token

def canFollowAccessor (token : Token) : Bool := token == .punct "[" || isPlainKey token

/-- The word at hand, if it is a modifier after those in `done`. Only `static` may be followed by a line
break, and before a brace it begins a block. -/
def modifier? (done : List String) : Parse (Option String) := do
  match ← token, ← peek with
  | .word name, some next =>
    let isStatic := name == "static"
    let stops := isStatic && (done.contains name || next.token == .punct "\x7b")
    if modifierWords.contains name && canFollowModifier next.token && !stops &&
        (isStatic || !next.newline) then
      return some name
    else return none
  | _, _ => return none

def modifierClashes (done : List String) (name : String) : Bool :=
  done.contains name || (accessWords.contains name && done.any accessWords.contains)

def modifiers (fuel : Nat) : Parse (List String) :=
  iterate fuel (fun (done : List String) => do
    match ← modifier? done with
    | none => return .inr done
    | some name =>
      if modifierClashes done name then reportHere .unexpectedToken
      takeKeyword
      return .inl (name :: done)) []

def classMemberKind (isAsync : Bool) : Parse MemberKind := do
  let next ← peek
  let accessor := next.any fun next => canFollowAccessor next.token
  if (← isWord "get") && accessor then
    takeKeyword
    return .getter
  else if (← isWord "set") && accessor then
    takeKeyword
    return .setter
  else if ← eatPunct "*" then return if isAsync then .asyncGenerator else .generator
  else return if isAsync then .async else .plain

variable (parts : Parts) (context : Context)

def classKey : Parse Node := do
  let lexeme ← lexeme
  match lexeme.token with
  | .privateName name =>
    if name == "constructor" then failHere .illegalName
    advance
    return .mk (.keyPrivate name) lexeme.span []
  | _ => propertyKey parts context

def plainKey? (key : Node) (computed : Bool) : Option String :=
  if computed then none
  else
    match key.label with
    | .keyName name => some name
    | .literal (.string value) => some value
    | _ => none

def fieldRest (start : Nat) (key : Node) : Parse Node := do
  let value ←
    if ← eatPunct "=" then
      let value ← parts.run (.assignment .field)
      pure [value]
    else pure []
  semicolon
  node start .field (key :: value)

def keyedMember (start : Nat) (words : List String) (context : Context) : Parse Node := do
  let kind ← classMemberKind (words.contains "async")
  let isAccessor := kind == .getter || kind == .setter
  let isGenerator := kind == .generator || kind == .asyncGenerator
  if isAccessor && (words.contains "async" || words.contains "declare") then unexpected
  let computed ← isPunct "["
  let keyStart ← here
  let key ← classKey parts context
  let name := plainKey? key computed
  let isStatic := words.contains "static"
  if isStatic && name == some "prototype" then failAt .illegalName keyStart
  let optional ← if isAccessor then pure false else eatPunct "?"
  if isAccessor || isGenerator || (← isPunct "(") then
    let isPlain := kind == .plain && words.all accessWords.contains
    if !isStatic && name == some "constructor" && !isPlain then failAt .illegalName keyStart
    let function ← memberFunction parts kind
    node start .method [key, function]
  else
    if name == some "constructor" then failAt .illegalName keyStart
    if (← eatPunct "!") && optional then failAt .unexpectedToken keyStart
    fieldRest parts start key

def atStaticBlock : Parse Bool := do
  if ← isWord "static" then return (← peek).any (·.token == .punct "\x7b") else return false

def classMember : Parse (List Node) := do
  let decorated ← decorators parts context
  let start ← here
  let words ← modifiers parts.fuel
  if ← atStaticBlock then
    if !decorated.isEmpty || !words.isEmpty then unexpected
    takeKeyword
    let body ← block parts .staticBlock
    return [← node start .staticBlock [body]]
  else return decorated ++ [← keyedMember parts start words context]

def classBody : Parse (List Node) := do
  expectPunct "\x7b"
  iterate parts.fuel (fun (done : List Node) => do
    if ← eatPunct "\x7d" then return .inr done
    if ← eatPunct ";" then return .inl done
    let next ← classMember parts context
    return .inl (done ++ next)) []

def heritage : Parse (List Node) := do
  let parent ←
    if ← eatWord "extends" then
      let parent ← parts.run (.leftHandSide context)
      let arguments ← typeArguments parts context
      pure (parent :: arguments)
    else pure []
  let roles ← if ← eatWord "implements" then typeReferences parts context else pure []
  return parent ++ roles

def className : Parse (Option String) := do
  match ← token with
  | .word name =>
    if name == "extends" || name == "implements" then return none
    else
      let (name, _) ← variableName context
      return some name
  | _ => return none

def classFrom (start : Nat) (decorated : List Node) : Parse Node := do
  expectWord "class"
  let name ← className context
  let inherited ← heritage parts context
  let members ← classBody parts context
  node start (.classNode name) (decorated ++ inherited ++ members)

def decoratedClass : Parse Node := do
  let start ← here
  let decorated ← decorators parts context
  classFrom parts context start decorated

def interfaceFrom : Parse Node := do
  let start ← here
  takeKeyword
  discard (variableName context)
  let inherited ← if ← eatWord "extends" then typeReferences parts context else pure []
  let members ← signatures parts context
  node start .interface (inherited ++ members)

end ComponentCompiler.Script
