import ComponentCompiler.Script.Parser.Expression

/-!
Declarations of variables: those of `var`, `let` and `const`, and resources, which are released at
the end of their block.
-/

namespace ComponentCompiler.Script

open Parse

def checkDeclarator (keyword : String) (declarator : Node) : Parse Unit := do
  match declarator.parts with
  | [target] =>
    match target.label with
    | .binding _ => if keyword == "const" then failAt .missingInitializer declarator.span.stop
    | _ => failAt .missingInitializer declarator.span.stop
  | _ => return ()

def checkResourceName (declarator : Node) : Parse Unit := do
  match declarator.parts with
  | .mk (.binding _) _ _ :: _ => return ()
  | _ => failAt .illegalName declarator.span.start

def checkResource (declarator : Node) : Parse Unit := do
  checkResourceName declarator
  if declarator.parts.length < 2 then failAt .missingInitializer declarator.span.stop

def declarator (parts : Parts) (context : Context) : Parse Node := do
  let start ← here
  let target ← parts.run (.pattern context)
  if ← eatPunct "=" then
    let value ← parts.run (.assignment context)
    node start .declarator [target, value]
  else node start .declarator [target]

def declarators (parts : Parts) (context : Context) : Parse (List Node) :=
  iterate parts.fuel (fun (done : List Node) => do
    let next ← declarator parts context
    if ← eatPunct "," then return .inl (next :: done) else return .inr (next :: done).reverse) []

def variableStatement (parts : Parts) (context : Context) (keyword : String) : Parse Node := do
  let start ← here
  takeKeyword
  let items ← declarators parts context
  items.forM (checkDeclarator keyword)
  semicolon
  node start (.declaration keyword) items

def atLet : Parse Bool := do
  let lexeme ← lexeme
  if lexeme.token == .word "let" && !lexeme.escaped then
    match ← peek with
    | some next =>
      match next.token with
      | .word name => return name != "in"
      | .punct text => return text == "[" || text == "\x7b"
      | _ => return false
    | none => return false
  else return false

def namesResource (next : Lexeme) : Bool :=
  match next.token with
  | .word name => !next.newline && !isReserved name
  | _ => false

def resourceKeyword? : Parse (Option String) := do
  if ← isWord "using" then
    if (← peek).any namesResource then return some "using" else return none
  else if ← isWord "await" then
    let certain ← attempt (lookahead do
      advance
      if ← isWord "using" then return (← peek).any namesResource else return false)
    if certain == some true then return some "await using" else return none
  else return none

def atUsingOf : Parse Bool := do
  let certain ← attempt (lookahead do
    advance
    if ← isWord "of" then
      match ← peek with
      | some next =>
        match next.token with
        | .punct text => return text != "=" && text != ";" && text != ":"
        | _ => return true
      | none => return true
    else return false)
  return certain == some true

def takeResourceKeyword (keyword : String) : Parse Unit := do
  takeKeyword
  if keyword == "await using" then takeKeyword

def resourceStatement (parts : Parts) (context : Context) (keyword : String) : Parse Node := do
  let start ← here
  takeResourceKeyword keyword
  let items ← declarators parts context
  items.forM checkResource
  semicolon
  node start (.declaration keyword) items

end ComponentCompiler.Script
