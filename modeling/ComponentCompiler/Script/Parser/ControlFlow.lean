import ComponentCompiler.Script.Parser.Variable

/-! Statements that direct control: conditions, loops, jumps, `switch` and `try`. -/

namespace ComponentCompiler.Script

open Parse

variable (parts : Parts) (context : Context)

def parenthesizedTest : Parse Node := do
  expectPunct "("
  let test ← expression parts context.withIn
  expectPunct ")"
  return test

def single : Parse Node := parts.run (.statement context .single)

def ifStatement : Parse Node := do
  let start ← here
  takeKeyword
  let test ← parenthesizedTest parts context
  let yes ← single parts context
  if ← eatWord "else" then
    let no ← single parts context
    node start (.control "if") [test, yes, no]
  else node start (.control "if") [test, yes]

def doStatement : Parse Node := do
  let start ← here
  takeKeyword
  let body ← single parts context
  expectWord "while"
  let test ← parenthesizedTest parts context
  discard (eatPunct ";")
  node start (.control "do") [body, test]

def guardedStatement (keyword : String) : Parse Node := do
  let start ← here
  takeKeyword
  let test ← parenthesizedTest parts context
  let body ← single parts context
  node start (.control keyword) [test, body]

variable (start : Nat)

def countingRest (first : List Node) : Parse Node := do
  expectPunct ";"
  let test ←
    if ← isPunct ";" then pure []
    else
      let test ← expression parts context.withIn
      pure [test]
  expectPunct ";"
  let update ←
    if ← isPunct ")" then pure []
    else
      let update ← expression parts context.withIn
      pure [update]
  expectPunct ")"
  let body ← single parts context
  node start (.control "for") (first ++ test ++ update ++ [body])

def iterationRest (overValues : Bool) (left : Node) : Parse Node := do
  takeKeyword
  let right ←
    if overValues then parts.run (.assignment context.withIn) else expression parts context.withIn
  expectPunct ")"
  let body ← single parts context
  node start (.control "for") [left, right, body]

def declaredLoopRest (isAwait : Bool) (left : Node) (check : Parse Unit) : Parse Node := do
  let isOf ← isWord "of"
  if isOf || (← isWord "in") then
    if isAwait && !isOf then unexpected
    iterationRest parts context start isOf left
  else
    if isAwait then unexpected
    check
    countingRest parts context start [left]

def forDeclaration (keyword : String) (isAwait : Bool) : Parse Node := do
  let first ← here
  takeKeyword
  let items ← declarators parts context.withoutIn
  let left ← node first (.declaration keyword) items
  declaredLoopRest parts context start isAwait left (items.forM (checkDeclarator keyword))

def forResource (keyword : String) (isAwait : Bool) : Parse Node := do
  let first ← here
  takeResourceKeyword keyword
  let items ← declarators parts context.withoutIn
  items.forM checkResourceName
  let left ← node first (.declaration keyword) items
  if ← isWord "in" then unexpected
  declaredLoopRest parts context start isAwait left (pure ())

def forExpression (isAwait : Bool) : Parse Node := do
  let first ← here
  let beganWithLet := (← token) == .word "let"
  let beganWithAsync := (← token) == .word "async" && !(← lexeme).escaped
  let init ← expression parts context.withoutIn
  let isOf ← isWord "of"
  if isOf || (← isWord "in") then
    if isAwait && !isOf then unexpected
    if isOf && beganWithLet then failAt .unexpectedToken first
    if isOf && !isAwait && beganWithAsync && init.identifier?.isSome then failAt .unexpectedToken first
    let left ← toTarget init
    iterationRest parts context start isOf left
  else
    if isAwait then unexpected
    countingRest parts context start [init]

def forStatement : Parse Node := do
  let start ← here
  takeKeyword
  let isAwait ←
    if ← isWord "await" then
      if !context.await then unexpected
      takeKeyword
      pure true
    else pure false
  expectPunct "("
  if ← isPunct ";" then
    if isAwait then unexpected
    countingRest parts context start []
  else if ← isWord "var" then forDeclaration parts context start "var" isAwait
  else if ← isWord "const" then forDeclaration parts context start "const" isAwait
  else if ← atLet then forDeclaration parts context start "let" isAwait
  else
    match ← resourceKeyword? with
    | some keyword =>
      if keyword == "using" && (← atUsingOf) then forExpression parts context start isAwait
      else forResource parts context start keyword isAwait
    | none => forExpression parts context start isAwait

def jumpStatement (keyword : String) : Parse Node := do
  let start ← here
  takeKeyword
  if ← canEndStatement then
    semicolon
  else
    discard (variableName context)
    semicolon
  node start (.control keyword) []

def returnStatement : Parse Node := do
  let start ← here
  if !context.returns then failHere .misplacedStatement
  takeKeyword
  if ← canEndStatement then
    semicolon
    node start (.control "return") []
  else
    let value ← expression parts context.withIn
    semicolon
    node start (.control "return") [value]

def throwStatement : Parse Node := do
  let start ← here
  takeKeyword
  if (← lexeme).newline then failHere .illegalLineBreak
  let value ← expression parts context.withIn
  semicolon
  node start (.control "throw") [value]

def switchClause : Parse (List Node) := do
  let test ←
    if ← eatWord "case" then
      let test ← expression parts context.withIn
      pure [test]
    else
      expectWord "default"
      pure []
  expectPunct ":"
  let body ← iterate parts.fuel (fun (done : List Node) => do
    if (← isPunct "\x7d") || (← isWord "case") || (← isWord "default") then return .inr done.reverse
    if (← token) == .eof then unexpected
    if (← resourceKeyword?).isSome then failHere .misplacedStatement
    let next ← parts.run (.statement context .list)
    return .inl (next :: done)) []
  return test ++ body

def switchStatement : Parse Node := do
  let start ← here
  takeKeyword
  let value ← parenthesizedTest parts context
  expectPunct "\x7b"
  let clauses ← iterate parts.fuel (fun (done : List Node) => do
    if ← eatPunct "\x7d" then return .inr done
    let next ← switchClause parts context
    return .inl (done ++ next)) []
  node start (.control "switch") (value :: clauses)

def catchClause : Parse (List Node) := do
  let param ←
    if ← eatPunct "(" then
      let param ← parts.run (.pattern context)
      expectPunct ")"
      pure [param]
    else pure []
  let body ← block parts context
  return param ++ [body]

def tryStatement : Parse Node := do
  let start ← here
  takeKeyword
  let body ← block parts context
  let caught ← isWord "catch"
  let handler ← if ← eatWord "catch" then catchClause parts context else pure []
  let final ←
    if ← eatWord "finally" then
      let final ← block parts context
      pure [final]
    else if caught then pure []
    else unexpected
  node start (.control "try") (body :: handler ++ final)

end ComponentCompiler.Script
