import ComponentCompiler.Script.Lexer

/-!
The parser's state and its elementary steps. The grammar is recursive through `Goal`: a production
is a function of the parser for the goals inside it.
-/

namespace ComponentCompiler.Script

/-- What surrounds a phrase: whether `in` is an operator, whether `yield` and `await` are operators,
whether `return` is allowed, and whether a bracket after an expression selects a member of it. -/
structure Context where
  inOperator : Bool
  yield : Bool
  await : Bool
  returns : Bool
  indexing : Bool
deriving DecidableEq, Repr

namespace Context

def module : Context := ⟨true, false, true, false, true⟩

def function (isAsync isGenerator : Bool) : Context := ⟨true, isGenerator, isAsync, true, true⟩

def field : Context := ⟨true, false, false, false, true⟩

def staticBlock : Context := ⟨true, false, true, false, true⟩

def withIn (context : Context) : Context := { context with inOperator := true, indexing := true }

def withoutIn (context : Context) : Context := { context with inOperator := false }

def decorator (context : Context) : Context := { context with indexing := false }

end Context

inductive Place where
  | list
  | single
deriving DecidableEq, Repr

structure State where
  current : Lexeme
  start : Cursor
  after : Cursor
  lastEnd : Nat
  /-- Shorthand members with a default that have not been read as part of a pattern. -/
  initialized : List Nat
  /-- Arrays and objects whose last item is a spread followed by a comma. -/
  trailing : List Nat
  fault : Option SyntaxError

abbrev Parse := StateT State (Except SyntaxError)

inductive Goal where
  | assignment (context : Context)
  | binary (context : Context) (level : Nat)
  | unary (context : Context)
  | constructed (context : Context)
  | leftHandSide (context : Context)
  | pattern (context : Context)
  | type (context : Context)
  | statement (context : Context) (place : Place)

/-- The parser for the phrases inside a phrase, and a bound for the length of its lists. -/
structure Parts where
  fuel : Nat
  run : Goal → Parse Node

namespace Parse

def failAt {α : Type} (fault : Fault) (offset : Nat) : Parse α := fun _ => .error ⟨fault, offset⟩

def failHere {α : Type} (fault : Fault) : Parse α :=
  fun s => .error ⟨fault, s.current.span.start⟩

def unexpected {α : Type} : Parse α := failHere .unexpectedToken

def reportAt (fault : Fault) (offset : Nat) : Parse Unit :=
  modify fun s => { s with fault := s.fault.or (some ⟨fault, offset⟩) }

def reportHere (fault : Fault) : Parse Unit := do
  reportAt fault (← get).current.span.start

def lexeme : Parse Lexeme := do return (← get).current

def token : Parse Token := do return (← get).current.token

def here : Parse Nat := do return (← get).current.span.start

def spanFrom (start : Nat) : Parse Span := do return ⟨start, (← get).lastEnd⟩

def node (start : Nat) (label : Label) (parts : List Node) : Parse Node := do
  return .mk label (← spanFrom start) parts

def advance : Parse Unit := fun s =>
  match Lexer.next s.after with
  | .error e => .error e
  | .ok (lexeme, start, after) =>
    .ok ((), { s with current := lexeme, start := start, after := after, lastEnd := s.current.span.stop })

def peek : Parse (Option Lexeme) := do
  let s ← get
  match Lexer.next s.after with
  | .ok (lexeme, _) => return some lexeme
  | .error _ => return none

def lookahead {α : Type} (p : Parse α) : Parse α := do
  let s ← get
  let a ← p
  set s
  return a

def attempt {α : Type} (p : Parse α) : Parse (Option α) := fun s =>
  match p s with
  | .ok (a, s) => .ok (some a, s)
  | .error _ => .ok (none, s)

def iterate {σ α : Type} : Nat → (σ → Parse (σ ⊕ α)) → σ → Parse α
  | 0, _, _ => failHere .tooDeep
  | fuel + 1, step, s => do
    match ← step s with
    | .inl s => iterate fuel step s
    | .inr a => return a

def isPunct (text : String) : Parse Bool := do return (← token) == .punct text

def isOneOf (texts : List String) : Parse Bool := do
  match ← token with
  | .punct text => return texts.contains text
  | _ => return false

def isWord (name : String) : Parse Bool := do return (← token) == .word name

def eatPunct (text : String) : Parse Bool := do
  if ← isPunct text then
    advance
    return true
  else return false

def expectPunct (text : String) : Parse Unit := do
  if ← isPunct text then advance else unexpected

def takeKeyword : Parse Unit := do
  if (← lexeme).escaped then reportHere .escapedKeyword
  advance

def eatWord (name : String) : Parse Bool := do
  if ← isWord name then
    takeKeyword
    return true
  else return false

def expectWord (name : String) : Parse Unit := do
  if ← isWord name then takeKeyword else unexpected

def canEndStatement : Parse Bool := do
  let lexeme ← lexeme
  return lexeme.newline || lexeme.token == .punct ";" || lexeme.token == .punct "\x7d" || lexeme.token == .eof

def semicolon : Parse Unit := do
  if ← eatPunct ";" then return ()
  else if ← canEndStatement then return ()
  else unexpected

def delimited (fuel : Nat) (close : String) (item : Parse Node) : Parse (List Node) :=
  iterate fuel (fun (done : List Node) => do
    if ← isPunct close then return .inr done.reverse
    let next ← item
    if ← isPunct close then return .inr (next :: done).reverse
    expectPunct ","
    return .inl (next :: done)) []

def checkName (context : Context) (name : String) : Parse Unit := do
  if isReserved name then unexpected
  if context.await && name == "await" then failHere .illegalName
  if context.yield && name == "yield" then failHere .illegalName

def variableName (context : Context) : Parse (String × Span) := do
  let lexeme ← lexeme
  match lexeme.token with
  | .word name =>
    checkName context name
    advance
    return (name, lexeme.span)
  | _ => unexpected

def anyName : Parse (String × Span) := do
  let lexeme ← lexeme
  match lexeme.token with
  | .word name =>
    advance
    return (name, lexeme.span)
  | _ => unexpected

end Parse

end ComponentCompiler.Script
