import ComponentCompiler.Script.Parser.Import
import ComponentCompiler.Script.Parser.Variable

/-! Exports: lists of names, everything of another module, a default value and declarations. -/

namespace ComponentCompiler.Script

open Parse

def strictWords : List String :=
  ["await", "implements", "interface", "package", "private", "protected", "public", "static", "yield"]

def exportSpecifier : Parse (ExportSpecifier × Bool) := do
  let (inner, place, quoted) ← moduleName
  let foreign := quoted || isReserved inner || strictWords.contains inner
  if ← eatWord "as" then
    let (exported, _, _) ← moduleName
    return (⟨place, inner, exported⟩, foreign)
  else return (⟨place, inner, inner⟩, foreign)

variable (parts : Parts)

def exportSpecifiers : Parse (List (ExportSpecifier × Bool)) := do
  expectPunct "\x7b"
  iterate parts.fuel (fun (done : List (ExportSpecifier × Bool)) => do
    if ← eatPunct "\x7d" then return .inr done.reverse
    let next ← exportSpecifier
    if ← isPunct "\x7d" then return .inl (next :: done)
    expectPunct ","
    return .inl (next :: done)) []

def atLiteral : Parse Bool := do
  match ← token with
  | .string .. | .number _ | .bigint | .word "null" | .word "true" | .word "false" => return true
  | _ => return false

def exportListStatement (start : Nat) : Parse Node := do
  let specifiers ← exportSpecifiers parts
  let source ←
    if (← eatWord "from") && (← atLiteral) then
      let source ← moduleSource
      importAttributes parts
      pure (some source)
    else pure none
  if source.isNone then
    match specifiers.find? (·.2) with
    | some (specifier, _) => failAt .unexpectedToken specifier.place.start
    | none => pure ()
  semicolon
  node start (.exportList (specifiers.map (·.1)) source) []

def exportAllStatement (start : Nat) : Parse Node := do
  expectPunct "*"
  let name ←
    if ← eatWord "as" then
      let (name, _, _) ← moduleName
      pure (some name)
    else pure none
  expectWord "from"
  let source ← moduleSource
  importAttributes parts
  semicolon
  node start (.exportAll name source) []

def checkDecorators (before : List Node) : Parse Unit := do
  if !before.isEmpty && (← isPunct "@") then unexpected

variable (context : Context)

def exportedClass (before : List Node) : Parse Node := do
  checkDecorators before
  let start ← here
  let decorated ← decorators parts context
  classFrom parts context start (before ++ decorated)

def atInterface : Parse Bool := do
  if ← isWord "interface" then return (← peek).any (!·.newline) else return false

def atAbstractClass : Parse Bool := do
  if ← isWord "abstract" then return (← peek).any (·.token == .word "class") else return false

def exportDefaultStatement (start : Nat) (before : List Node) : Parse Node := do
  takeKeyword
  if (← isWord "class") || (← isPunct "@") then
    let value ← exportedClass parts context before
    node start .exportDefault [value]
  else if ← atAbstractClass then
    let first ← here
    takeKeyword
    let value ← classFrom parts context first before
    node start .exportDefault [value]
  else
    if !before.isEmpty then unexpected
    if ← atInterface then
      let value ← interfaceFrom parts context
      node start .exportDefault [value]
    else if (← isWord "function") || (← atAsyncFunction) then
      let value ← functionFrom parts context true false
      node start .exportDefault [value]
    else
      let value ← parts.run (.assignment context.withIn)
      semicolon
      node start .exportDefault [value]

def exportedDeclaration : Parse Node := do
  match ← token with
  | .word "var" => variableStatement parts context "var"
  | .word "const" => variableStatement parts context "const"
  | .word "let" => variableStatement parts context "let"
  | .word "function" => functionFrom parts context true true
  | _ => if ← atAsyncFunction then functionFrom parts context true true else unexpected

def exportStatement (before : List Node) : Parse Node := do
  let start ← here
  takeKeyword
  match ← token with
  | .word "default" => exportDefaultStatement parts context start before
  | .word "class" | .punct "@" =>
    let declaration ← exportedClass parts context before
    node start .exportDeclaration [declaration]
  | token =>
    if !before.isEmpty then unexpected
    match token with
    | .punct "*" => exportAllStatement parts start
    | .punct "\x7b" => exportListStatement parts start
    | _ =>
      let declaration ← exportedDeclaration parts context
      node start .exportDeclaration [declaration]

end ComponentCompiler.Script
