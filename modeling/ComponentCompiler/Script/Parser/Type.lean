import ComponentCompiler.Script.Parser.Function

/-! Types, where a class or an interface may name them. They are read for the variables in them. -/

namespace ComponentCompiler.Script

open Parse

variable (parts : Parts) (context : Context)

def dottedName : Parse Node := do
  let start ← here
  let (name, span) ← variableName context
  iterate parts.fuel (fun (object : Node) => do
    if ← eatPunct "." then
      let (name, _) ← anyName
      return .inl (← node start (.member name) [object])
    else return .inr object) (.mk (.identifier name) span [])

def angleClosers : List String := [">", ">>", ">>>", ">=", ">>=", ">>>="]

def closeAngle : Parse Unit := do
  if ← isOneOf angleClosers then
    modify fun s =>
      let start := s.current.span.start
      let bracket : Lexeme := { s.current with token := .punct ">", span := ⟨start, start + 1⟩ }
      { s with current := bracket, after := s.start.skip 1 }
    advance
  else unexpected

def typeArguments : Parse (List Node) := do
  if ← eatPunct "<" then
    let arguments ← iterate parts.fuel (fun (done : List Node) => do
      let next ← parts.run (.type context)
      if ← eatPunct "," then
        if ← isOneOf angleClosers then return .inr (next :: done).reverse
        return .inl (next :: done)
      else return .inr (next :: done).reverse) []
    closeAngle
    return arguments
  else return []

def typeReference : Parse Node := do
  let start ← here
  let name ← dottedName parts context
  let arguments ← if (← lexeme).newline then pure [] else typeArguments parts context
  node start .type (name :: arguments)

def typeReferences : Parse (List Node) :=
  iterate parts.fuel (fun (done : List Node) => do
    let next ← typeReference parts context
    if ← eatPunct "," then return .inl (next :: done) else return .inr (next :: done).reverse) []

def signature : Parse Node := do
  let start ← here
  let key ← propertyKey parts context
  discard (eatPunct "?")
  let params ← if ← isPunct "(" then parameters parts context else pure []
  if !(← eatPunct ",") then semicolon
  node start .signature (key :: params)

def signatures : Parse (List Node) := do
  expectPunct "\x7b"
  iterate parts.fuel (fun (done : List Node) => do
    if ← eatPunct "\x7d" then return .inr done.reverse
    let next ← signature parts context
    return .inl (next :: done)) []

def typeWords : List String :=
  ["any", "bigint", "boolean", "false", "intrinsic", "never", "null", "number", "object", "string",
    "symbol", "this", "true", "undefined", "unknown", "void"]

def typeOperators : List String := ["keyof", "readonly", "unique"]

def wordType (word : String) : Parse Node := do
  let start ← here
  let dotted := (← peek).any (·.token == .punct ".")
  if typeWords.contains word && !dotted then
    advance
    node start .type []
  else if word == "typeof" then
    takeKeyword
    typeReference parts context
  else typeReference parts context

def primaryType : Parse Node := do
  let start ← here
  match ← token with
  | .word word => wordType parts context word
  | .string .. | .number _ | .bigint | .template _ false =>
    advance
    node start .type []
  | .punct "(" =>
    advance
    let inner ← parts.run (.type context)
    expectPunct ")"
    node start .type [inner]
  | .punct "[" =>
    advance
    let elements ← delimited parts.fuel "]" (parts.run (.type context))
    expectPunct "]"
    node start .type elements
  | .punct "\x7b" =>
    let members ← signatures parts context
    node start .type members
  | _ => unexpected

def typeOperatorWords : Parse Unit :=
  iterate parts.fuel (fun (_ : Unit) => do
    match ← token, (← peek).map Lexeme.token with
    | .word word, some (.word _) | .word word, some (.punct "[") =>
      if typeOperators.contains word then
        takeKeyword
        return .inl ()
      else return .inr ()
    | _, _ => return .inr ()) ()

def suffixedType : Parse Node := do
  typeOperatorWords parts
  let start ← here
  let inner ← primaryType parts context
  iterate parts.fuel (fun (inner : Node) => do
    if (← isPunct "[") && !(← lexeme).newline then
      advance
      let index ← if ← isPunct "]" then pure [] else do pure [← parts.run (.type context)]
      expectPunct "]"
      return .inl (← node start .type (inner :: index))
    else return .inr inner) inner

def typeExpression : Parse Node := do
  let start ← here
  if ← isOneOf ["|", "&"] then advance
  let operands ← iterate parts.fuel (fun (done : List Node) => do
    let next ← suffixedType parts context
    if ← isOneOf ["|", "&"] then
      advance
      return .inl (next :: done)
    else return .inr (next :: done).reverse) []
  node start .type operands

end ComponentCompiler.Script
