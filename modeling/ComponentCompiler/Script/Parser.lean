import ComponentCompiler.Script.Parser.Statement

/-!
Parsing of whole modules and of single expressions. Main definitions: `Script.parseModule` reads a
module, `Script.parseExpression` reads the one expression at the start of a text and leaves alone
what follows it.
-/

namespace ComponentCompiler.Script

open Parse

def production (parts : Parts) : Goal → Parse Node
  | .assignment context => assignmentExpression parts context
  | .binary context level => binaryExpression parts context level
  | .unary context => unaryExpression parts context
  | .constructed context => constructed parts context
  | .leftHandSide context => leftHandSide parts context
  | .type context => typeExpression parts context
  | .pattern context => bindingPattern parts context
  | .statement context place => statement parts context place

def parse : Nat → Goal → Parse Node
  | 0, _ => failHere .tooDeep
  | fuel + 1, goal => production ⟨fuel, parse fuel⟩ goal

def fuelFor (length : Nat) : Nat := 20 * (length + 2)

def skipInterpreter (text : List Char) : Cursor :=
  let cursor : Cursor := ⟨text, 0⟩
  if Chars.startsWith "#!".toList text then
    cursor.skip (text.takeWhile fun c => !isLineBreak c).length
  else cursor

def initialState (cursor : Cursor) : Except SyntaxError State :=
  match Lexer.next cursor with
  | .error e => .error e
  | .ok (lexeme, start, after) => .ok ⟨lexeme, start, after, 0, [], [], none⟩

def isDirective (statement : Node) : Bool :=
  match statement with
  | .mk .expression _ [.mk (.literal (.string _)) _ _] => true
  | _ => false

mutual

def boundNames : Node → List String
  | .mk (.binding name) _ _ => [name]
  | .mk .withDefault _ (target :: _) => boundNames target
  | .mk .declarator _ (target :: _) => boundNames target
  | .mk .patternProperty _ [_, value] => boundNames value
  | .mk .arrayPattern _ parts => boundNamesOf parts
  | .mk .objectPattern _ parts => boundNamesOf parts
  | .mk .rest _ parts => boundNamesOf parts
  | .mk (.declaration _) _ parts => boundNamesOf parts
  | .mk (.function (some name)) _ _ => [name]
  | .mk (.classNode (some name)) _ _ => [name]
  | _ => []

def boundNamesOf : List Node → List String
  | [] => []
  | node :: rest => boundNames node ++ boundNamesOf rest

end

def exportedNames (statement : Node) : List String :=
  match statement with
  | .mk (.exportList specifiers _) _ _ => specifiers.map (·.exported)
  | .mk (.exportAll (some name) _) _ _ => [name]
  | .mk .exportDefault _ _ => ["default"]
  | .mk .exportDeclaration _ parts => boundNamesOf parts
  | _ => []

mutual

def exportsWithin : Node → List String
  | .mk label span parts => exportedNames (.mk label span parts) ++ exportsWithinAll parts

def exportsWithinAll : List Node → List String
  | [] => []
  | node :: rest => exportsWithin node ++ exportsWithinAll rest

end

def allDistinct : List String → Bool
  | [] => true
  | name :: rest => !rest.contains name && allDistinct rest

/-- Refuses a text in which a fault was put down, or a shorthand member with a default that is part of
no pattern. -/
def checkFaults : Parse Unit := do
  let s ← get
  match s.fault, s.initialized with
  | some e, _ => failAt e.fault e.offset
  | none, offset :: _ => failAt .unexpectedToken offset
  | none, [] => return ()

def moduleBody (fuel : Nat) : Parse Program := do
  let statements ← iterate fuel (fun (done : List Node) => do
    if (← token) == .eof then return .inr done.reverse
    let next ← parse fuel (.statement .module .list)
    return .inl (next :: done)) []
  checkFaults
  if !allDistinct (exportsWithinAll statements) then failAt .duplicateExport 0
  return ⟨statements.takeWhile isDirective, statements.dropWhile isDirective⟩

def parseModule (source : String) : Except SyntaxError Program := do
  let text := source.toList
  let state ← initialState (skipInterpreter text)
  let (program, _) ← moduleBody (fuelFor text.length) state
  return program

def leadingExpression (fuel : Nat) : Parse Node := do
  let value ← expression ⟨fuel, parse fuel⟩ .module
  checkFaults
  return value

/-- Reads the expression at the start of a text; what follows it is not looked at beyond one token. -/
def parseExpression (source : String) : Except SyntaxError Node := do
  let text := source.toList
  let state ← initialState ⟨text, 0⟩
  let (value, _) ← leadingExpression (fuelFor text.length) state
  return value

end ComponentCompiler.Script
