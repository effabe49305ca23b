import ComponentCompiler.Script.Parser.ControlFlow
import ComponentCompiler.Script.Parser.Export

/-! Statements of every kind. -/

namespace ComponentCompiler.Script

open Parse

variable (parts : Parts) (context : Context) (place : Place)

def expressionStatement : Parse Node := do
  let start ← here
  let first ← lexeme
  let value ← expression parts context.withIn
  match value.label, first.token, ← token with
  | .identifier name, .word _, .punct ":" =>
    if context.await && name == "await" then failAt .illegalName start
    advance
    if (← isWord "function") then
      match ← peek with
      | some next => if next.token == .punct "*" then failHere .misplacedStatement
      | none => pure ()
    let body ←
      if place == .list && (← isWord "function") then parts.run (.statement context .list)
      else single parts context
    node start .labeled [body]
  | _, _, _ =>
    semicolon
    node start .expression [value]

def letOperators : List String :=
  assignmentOperators ++
    ["==", "!=", "===", "!==", "<", "<=", ">", ">=", "<<", ">>", ">>>", "+", "-", "*", "/", "%", "|", "^",
      "&", "**"]

/-- A statement that begins with `let`: a declaration, or an expression that begins with a variable of
that name, as the next token tells. -/
def letStatement : Parse Node := do
  let start ← here
  let next ← peek
  let follows (token : Token) : Bool := next.any (·.token == token)
  if letOperators.any (fun text => follows (.punct text)) || follows (.word "in") ||
      follows (.word "instanceof") then
    let value ← parts.run (.assignment context)
    semicolon
    node start .expression [value]
  else if follows (.punct ".") || follows (.punct "(") then
    let value ← expression parts context
    node start .expression [value]
  else if (place == .single && !follows (.punct "[")) || follows (.punct ";") then
    let (name, span) ← variableName context
    semicolon
    node start .expression [.mk (.identifier name) span []]
  else
    if place == .single then failHere .misplacedStatement
    variableStatement parts context "let"

def atImportExpression : Parse Bool := do
  match ← peek with
  | some next => return next.token == .punct "(" || next.token == .punct "."
  | none => return false

def requireList : Parse Unit := do
  if place == .single then failHere .misplacedStatement

def wordStatement (name : String) : Parse Node := do
  match name with
  | "if" => ifStatement parts context
  | "do" => doStatement parts context
  | "while" | "with" => guardedStatement parts context name
  | "for" => forStatement parts context
  | "continue" | "break" => jumpStatement context name
  | "return" => returnStatement parts context
  | "throw" => throwStatement parts context
  | "switch" => switchStatement parts context
  | "try" => tryStatement parts context
  | "debugger" =>
    let start ← here
    takeKeyword
    semicolon
    node start (.control name) []
  | "var" => variableStatement parts context name
  | "const" =>
    requireList place
    variableStatement parts context name
  | "function" =>
    if place == .single then
      match ← peek with
      | some next => if next.token == .punct "*" then failHere .misplacedStatement
      | none => pure ()
    functionFrom parts context true true
  | "class" =>
    requireList place
    decoratedClass parts context
  | "import" =>
    if ← atImportExpression then expressionStatement parts context place
    else importStatement parts context
  | "export" => exportStatement parts context []
  | _ =>
    if ← atAsyncFunction then
      requireList place
      functionFrom parts context true true
    else if name == "let" && !(← lexeme).escaped then letStatement parts context place
    else
      match ← resourceKeyword? with
      | some keyword =>
        requireList place
        resourceStatement parts context keyword
      | none => expressionStatement parts context place

def decoratedStatement : Parse Node := do
  let start ← here
  let decorated ← decorators parts context
  if ← isWord "export" then exportStatement parts context decorated
  else
    if ← atAbstractClass then takeKeyword
    classFrom parts context start decorated

def statement : Parse Node := do
  let context := context.withIn
  let start ← here
  match ← token with
  | .punct "\x7b" => block parts context
  | .punct ";" =>
    advance
    node start .empty []
  | .punct "@" =>
    requireList place
    decoratedStatement parts context
  | .word name => wordStatement parts context place name
  | _ => expressionStatement parts context place

end ComponentCompiler.Script
