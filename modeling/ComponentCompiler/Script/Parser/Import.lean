import ComponentCompiler.Script.Parser.Expression

/-! Imports: the names they bind, the module these are taken from, and the attributes after it. -/

namespace ComponentCompiler.Script

open Parse

def moduleName : Parse (String × Span × Bool) := do
  let lexeme ← lexeme
  match lexeme.token with
  | .word name =>
    advance
    return (name, lexeme.span, false)
  | .string value whole =>
    if whole then
      advance
      return (value, lexeme.span, true)
    else failHere .illegalName
  | _ => unexpected

def moduleSource : Parse String := do
  match ← token with
  | .string value _ =>
    advance
    return value
  | _ => unexpected

def attributeKey : Parse String := do
  match ← token with
  | .word name | .string name _ =>
    advance
    return name
  | _ => unexpected

def importAttributes (parts : Parts) : Parse Unit := do
  let isAttributes ←
    if ← isWord "with" then pure true
    else
      let lexeme ← lexeme
      pure (lexeme.token == .word "assert" && !lexeme.newline)
  if isAttributes then
    takeKeyword
    expectPunct "\x7b"
    iterate parts.fuel (fun (done : List String) => do
      if ← eatPunct "\x7d" then return .inr ()
      let key ← attributeKey
      if done.contains key then reportHere .unexpectedToken
      expectPunct ":"
      discard moduleSource
      if ← isPunct "\x7d" then return .inl (key :: done)
      expectPunct ","
      return .inl (key :: done)) []

def importedName (context : Context) : Parse String := do
  if (← isWord "yield") || (← isWord "await") then failHere .illegalName
  let (name, _) ← variableName context
  return name

def importSpecifier (context : Context) : Parse ImportSpecifier := do
  let start ← here
  let bound? ← peek
  let renamed := (bound?.map (·.token == .word "as")).getD false
  if renamed then
    let (imported, _, _) ← moduleName
    expectWord "as"
    let bound ← importedName context
    return .named (← spanFrom start) imported bound
  else
    let bound ← importedName context
    return .named (← spanFrom start) bound bound

def importSpecifiers (parts : Parts) (context : Context) : Parse (List ImportSpecifier) := do
  expectPunct "\x7b"
  iterate parts.fuel (fun (done : List ImportSpecifier) => do
    if ← eatPunct "\x7d" then return .inr done.reverse
    let next ← importSpecifier context
    if ← isPunct "\x7d" then return .inl (next :: done)
    expectPunct ","
    return .inl (next :: done)) []

def namespaceSpecifier (context : Context) : Parse ImportSpecifier := do
  let start ← here
  expectPunct "*"
  expectWord "as"
  let (bound, _) ← variableName context
  return .namespace (← spanFrom start) bound

def importClause (parts : Parts) (context : Context) : Parse (List ImportSpecifier) := do
  if ← isPunct "*" then return [← namespaceSpecifier context]
  else if ← isPunct "\x7b" then importSpecifiers parts context
  else
    let start ← here
    let (bound, _) ← variableName context
    let first := ImportSpecifier.default (← spanFrom start) bound
    if ← eatPunct "," then
      if ← isPunct "*" then return [first, ← namespaceSpecifier context]
      else return first :: (← importSpecifiers parts context)
    else return [first]

/-- Whether `source` at hand marks the phase of an import and is not the name it binds: another name
follows it, and `from` is a name only before another `from`. -/
def atSourcePhase : Parse Bool := do
  if ← isWord "source" then
    let certain ← attempt (lookahead do
      advance
      match ← token with
      | .word "from" => return (← peek).any (·.token == .word "from")
      | .word _ => return true
      | _ => return false)
    return certain == some true
  else return false

def atDeferPhase : Parse Bool := do
  if ← isWord "defer" then return (← peek).any (·.token == .punct "*") else return false

def importStatement (parts : Parts) (context : Context) : Parse Node := do
  let start ← here
  takeKeyword
  match ← token with
  | .string .. =>
    let source ← moduleSource
    importAttributes parts
    semicolon
    node start (.importFrom [] source) []
  | _ =>
    if (← atSourcePhase) || (← atDeferPhase) then takeKeyword
    let specifiers ← importClause parts context
    expectWord "from"
    let source ← moduleSource
    importAttributes parts
    semicolon
    node start (.importFrom specifiers source) []

end ComponentCompiler.Script
