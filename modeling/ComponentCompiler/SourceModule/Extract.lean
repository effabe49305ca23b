import ComponentCompiler.Script.Parser
import ComponentCompiler.Script.Scope
import ComponentCompiler.SourceModule.Basic
import ComponentCompiler.Text.Edit

/-!
Extraction of a module's surface from its source. An annotation is a call in a statement of its own;
it belongs to the function declaration that follows.
-/

namespace ComponentCompiler

def Position.ofOffset (text : String) (offset : Nat) : Position :=
  .after (Chars.takeBytes offset text.toList)

namespace PropertyValue

mutual

def ofNode (source : String) : Script.Node → PropertyValue
  | .mk (.literal (.string value)) _ _ => .string value
  | .mk (.literal (.number value)) _ _ => .number value
  | .mk (.literal (.bool value)) _ _ => .bool value
  | .mk (.literal .null) _ _ => .null
  | .mk (.template [quasi]) _ [] => .string (quasi.cooked.getD quasi.raw)
  | .mk (.identifier name) _ _ => .identifier name
  | .mk .array _ elements => .array (ofElements source elements)
  | .mk .object _ members => .object (ofMembers source members)
  | .mk _ span _ => .raw (span.slice source)

def ofElements (source : String) : List Script.Node → List PropertyValue
  | [] => []
  | .mk .spread span _ :: rest => .raw (span.slice source) :: ofElements source rest
  | .mk .hole span _ :: rest => .raw (span.slice source) :: ofElements source rest
  | element :: rest => ofNode source element :: ofElements source rest

def ofMembers (source : String) : List Script.Node → List (String × PropertyValue)
  | [] => []
  | .mk .property _ [key, value] :: rest => (keyOf source key, ofNode source value) :: ofMembers source rest
  | .mk .method _ [key, function] :: rest =>
    (keyOf source key, .raw (function.span.slice source)) :: ofMembers source rest
  | .mk (.shorthand name) _ _ :: rest => (name, .identifier name) :: ofMembers source rest
  | _ :: rest => ofMembers source rest

def keyOf (source : String) : Script.Node → String
  | .mk (.keyName name) _ _ => name
  | .mk (.literal (.string value)) _ _ => value
  | .mk _ span _ => span.slice source

end

end PropertyValue

namespace SourceModule

def lazyFunction : String := "lazyload"

mutual

def lazyLoadsIn : Script.Node → List LazyLoad
  | .mk .call span (.mk (.identifier name) _ _ :: .mk (.literal (.string specifier)) at' arguments :: rest) =>
    if name = lazyFunction then [⟨specifier, span⟩]
    else lazyLoadsInAll (.mk (.literal (.string specifier)) at' arguments :: rest)
  | .mk _ _ parts => lazyLoadsInAll parts

def lazyLoadsInAll : List Script.Node → List LazyLoad
  | [] => []
  | node :: rest => lazyLoadsIn node ++ lazyLoadsInAll rest

end

/-! ### Annotations -/

def annotationCall? : Script.Node → Option (AnnotationKind × List Script.Node)
  | .mk .expression _ [.mk .call _ (.mk (.identifier name) _ _ :: arguments)] =>
    (AnnotationKind.ofKeyword? name).map (·, arguments)
  | _ => none

def functionDeclaration? : Script.Node → Option (String × Bool)
  | .mk (.function (some name)) _ _ => some (name, false)
  | .mk .exportDeclaration _ [.mk (.function (some name)) _ _] => some (name, true)
  | _ => none

def rootName? : Script.Node → Option String
  | .mk (.identifier name) _ _ => some name
  | .mk (.member _) _ [object] => rootName? object
  | .mk .index _ [object, _] => rootName? object
  | _ => none

def targetRoot? : Script.Node → Option String
  | .mk .paren _ [inner] => targetRoot? inner
  | .mk (.member _) _ [object] => rootName? object
  | .mk .index _ [object, _] => rootName? object
  | _ => none

def isAttachment (name : String) : Script.Node → Bool
  | .mk .expression _ [.mk (.assign _) _ (target :: _)] => targetRoot? target == some name
  | _ => false

def annotationProperties (source : String) (arguments : List Script.Node) : List (String × PropertyValue) :=
  match arguments with
  | .mk .object _ members :: _ => PropertyValue.ofMembers source members
  | _ => []

/-! ### Declarations -/

structure Extraction where
  file : String
  surface : SourceModule

namespace Extraction

def declare (e : Extraction) (name : String) (offset : Nat) : Except Diagnostic Extraction :=
  if e.surface.declarations.contains name then
    let position := Position.ofOffset e.surface.source offset
    .error
      { code := .duplicateDeclaration
        message := "Identifier '" ++ name ++ "' has already been declared"
        file := e.file
        identifier := some name
        line := position.line
        column := position.column }
  else .ok { e with surface.declarations := e.surface.declarations.add name }

def declareExported (offset : Nat) : List String → Extraction → Except Diagnostic Extraction
  | [], e => .ok e
  | name :: rest, e => do
    let e ← e.declare name offset
    declareExported offset rest
      { e with surface.exports := e.surface.exports ++ [{ bound := name, exported := name }] }

def declareSpecifiers : List Script.ImportSpecifier → Extraction → Except Diagnostic Extraction
  | [], e => .ok e
  | specifier :: rest, e => do declareSpecifiers rest (← e.declare specifier.bound specifier.span.start)

def declareVariables : List Script.Node → Extraction → Except Diagnostic Extraction
  | [], e => .ok e
  | .mk .declarator span (.mk (.binding name) _ _ :: _) :: rest, e => do
    declareVariables rest (← e.declare name span.start)
  | _ :: rest, e => declareVariables rest e

def addExports (e : Extraction) (names : List ExportName) : Extraction :=
  { e with surface.exports := e.surface.exports ++ names }

def addForm (e : Extraction) (form : ExportForm) : Extraction :=
  { e with surface.exportForms := e.surface.exportForms ++ [form] }

def addImport (e : Extraction) (statement : ImportStatement) : Extraction :=
  { e with surface.imports := e.surface.imports ++ [statement] }

end Extraction

def declaredNames : Script.Node → List String
  | .mk (.declaration _) _ declarators =>
    declarators.filterMap fun
      | .mk .declarator _ (.mk (.binding name) _ _ :: _) => some name
      | _ => none
  | .mk (.function (some name)) _ _ => [name]
  | .mk (.classNode (some name)) _ _ => [name]
  | _ => []

def importOf (specifiers : List Script.ImportSpecifier) (source : String) (span : Span) : ImportStatement where
  source := source
  named := specifiers.filterMap fun
    | .named _ imported bound => some ⟨imported, bound⟩
    | _ => none
  defaultName := specifiers.findSome? fun
    | .default _ bound => some bound
    | _ => none
  namespaceName := specifiers.findSome? fun
    | .namespace _ bound => some bound
    | _ => none
  origin := .used
  span := span

open Extraction

def collectExportList (specifiers : List Script.ExportSpecifier) (from? : Option String) (span : Span)
    (e : Extraction) : Extraction :=
  let (e, reexportOf) :=
    match from? with
    | none => (e, none)
    | some source =>
      let named := specifiers.map fun (s : Script.ExportSpecifier) => ImportBinding.mk s.inner s.inner
      (e.addImport { source, named, origin := .reexported, span }, some e.surface.imports.length)
  let names := specifiers.map fun (s : Script.ExportSpecifier) =>
    { bound := s.inner, exported := s.exported, reexportOf : ExportName }
  (e.addExports names).addForm (.names span)

def collectExportAll (name? : Option String) (source : String) (span : Span) (e : Extraction) : Extraction :=
  let index := e.surface.imports.length
  let e := e.addImport { source, namespaceName := name?, origin := .reexported, span }
  match name? with
  | some name =>
    (e.addExports [{ bound := name, exported := name, reexportOf := some index }]).addForm (.names span)
  | none =>
    (e.addExports [{ bound := "*", exported := "*", reexportOf := some index, star := true }]).addForm
      (.star span index)

def collectExportDefault (value : Script.Node) (span : Span) (e : Extraction) : Except Diagnostic Extraction := do
  let e := e.addExports [{ bound := "default", exported := "default" }]
  match value.label with
  | .function name | .classNode name =>
    let e ←
      match name with
      | some name => e.declare name value.span.start
      | none => pure e
    return e.addForm (.defaultDeclaration span value.span name)
  | .identifier name => return e.addForm (.defaultExpression span value.span (some name))
  | _ => return e.addForm (.defaultExpression span value.span none)

def collect (statement : Script.Node) (e : Extraction) : Except Diagnostic Extraction :=
  match statement with
  | .mk (.importFrom specifiers source) span _ => do
    let e ← declareSpecifiers specifiers e
    return e.addImport (importOf specifiers source span)
  | .mk .exportDeclaration span [inner] => do
    let e ← declareExported inner.span.start (declaredNames inner) e
    return e.addForm (.declaration span inner.span.start)
  | .mk (.exportList specifiers source) span _ => .ok (collectExportList specifiers source span e)
  | .mk (.exportAll name source) span _ => .ok (collectExportAll name source span e)
  | .mk .exportDefault span [value] => collectExportDefault value span e
  | .mk (.function (some name)) span _ => e.declare name span.start
  | .mk (.classNode (some name)) span _ => e.declare name span.start
  | .mk (.declaration _) _ declarators => declareVariables declarators e
  | _ => .ok e

def collectAnnotated (kind : AnnotationKind) (arguments : List Script.Node) (call : Span)
    (function : Script.Node) (name : String) (exported : Bool) (stop : Nat) (e : Extraction) :
    Except Diagnostic Extraction := do
  let e ← e.declare name function.span.start
  let e :=
    match function with
    | .mk .exportDeclaration span [inner] =>
      (e.addExports [{ bound := name, exported := name }]).addForm (.declaration span inner.span.start)
    | _ => e
  let block : AnnotationBlock :=
    { kind, name, properties := annotationProperties e.surface.source arguments, call
      implementation := ⟨function.span.start, stop⟩, exported }
  return { e with surface.annotations := e.surface.annotations ++ [block] }

def reportUnattached (kind : AnnotationKind) (call : Span) (e : Extraction) : Extraction :=
  let position := Position.ofOffset e.surface.source call.start
  let d : Diagnostic :=
    { code := .annotationTarget
      message := kind.keyword ++ " annotation must be followed by a function declaration"
      file := e.file
      line := position.line
      column := position.column }
  { e with surface.diagnostics := e.surface.diagnostics ++ [d] }

def attachmentsEnd (name : String) (stop : Nat) : List Script.Node → Nat
  | [] => stop
  | statement :: rest =>
    if isAttachment name statement then attachmentsEnd name statement.span.stop rest else stop

/-- What of the statement before still concerns the statements to come. -/
inductive Pending where
  | nothing
  /-- The next statement is the function of an annotation and has been taken. -/
  | function (name : String)
  /-- Assignments to members of this function belong to it. -/
  | attachments (name : String)

def collectAll : Pending → List Script.Node → Extraction → Except Diagnostic Extraction
  | _, [], e => .ok e
  | .function name, _ :: rest, e => collectAll (.attachments name) rest e
  | .attachments name, statement :: rest, e =>
    if isAttachment name statement then collectAll (.attachments name) rest e
    else do
      let (pending, e) ← collectOne statement rest e
      collectAll pending rest e
  | .nothing, statement :: rest, e => do
    let (pending, e) ← collectOne statement rest e
    collectAll pending rest e
where
  collectOne (statement : Script.Node) (rest : List Script.Node) (e : Extraction) :
      Except Diagnostic (Pending × Extraction) :=
    match annotationCall? statement with
    | none => do return (.nothing, ← collect statement e)
    | some (kind, arguments) =>
      match rest with
      | [] => do return (.nothing, ← collect statement (reportUnattached kind statement.span e))
      | function :: after =>
        match functionDeclaration? function with
        | none => do return (.nothing, ← collect statement (reportUnattached kind statement.span e))
        | some (name, exported) => do
          let stop := attachmentsEnd name function.span.stop after
          let e ← collectAnnotated kind arguments statement.span function name exported stop e
          return (.function name, e)

/-- Reads a module and extracts its surface. A module that is malformed or declares a top-level name
twice has none. -/
def extract (source file : String) : Except Diagnostic SourceModule := do
  match Script.parseModule source with
  | .error cause =>
    .error
      { code := .malformedScript
        message := "Syntax error: " ++ cause.fault.message
        file
        hints := ["Fix the syntax error; other files continue to compile."] }
  | .ok program =>
    let e ← collectAll .nothing program.body ⟨file, { source := source }⟩
    return { e.surface with lazyLoads := lazyLoadsInAll program.body }

/-! ### Ends of declarations -/

def plainNames : Script.Node → List String
  | .mk (.declaration _) _ declarators => declarators.filterMap fun
    | .mk .declarator _ (.mk (.binding name) _ _ :: _) => some name
    | _ => none
  | .mk (.function (some name)) _ _ => [name]
  | .mk (.classNode (some name)) _ _ => [name]
  | _ => []

def statementEnds : Script.Node → List (String × Nat)
  | .mk .exportDeclaration span [inner] => (plainNames inner).map (·, span.stop)
  | statement => (plainNames statement).map (·, statement.span.stop)

def declarationEnd? (m : SourceModule) (name : String) : Option Nat :=
  match Script.parseModule m.source with
  | .ok program => (program.body.flatMap statementEnds).reverse.lookup name
  | .error _ => none

def isParsable (source : String) : Bool := (Script.parseModule source).isOk

end SourceModule

end ComponentCompiler
