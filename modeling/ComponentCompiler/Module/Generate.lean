import ComponentCompiler.Module.Annotations
import ComponentCompiler.SourceModule.Extract

/-! Generation of modules. The text of a file is kept but for edits. -/

namespace ComponentCompiler

structure GeneratedModule where
  id : Nat
  code : String
  diagnostics : List Diagnostic := []

namespace GenerationContext

variable (cx : GenerationContext) (r : FileRecord) (m : SourceModule)

def importBindings (index : Nat) (statement : ImportStatement) : String :=
  match r.moduleReference? cx index with
  | none => ""
  | some module =>
    if statement.isSideEffect then if (r.importTarget? index).isSome then module ++ ";" else ""
    else
      let bind (name value : String) : String := "var " ++ name ++ " = " ++ value ++ ";"
      let whole := statement.namespaceName.toList.map fun name => bind name module
      let default := statement.defaultName.toList.filterMap fun name =>
        (r.memberReference? cx index "default").map (bind name)
      let named := statement.named.filterMap fun b => (r.memberReference? cx index b.imported).map (bind b.bound)
      Text.join " " (whole ++ default ++ named)

def importEdits : List Edit :=
  (m.imports.zipIdx.filter fun (statement, _) => statement.origin = .used).map fun (statement, index) =>
    ⟨statement.span, importBindings cx r index statement⟩

/-- Where the declaration of a name ends, with the assignments to members of an annotated function. -/
def declarationEnd? (name : String) : Option Nat :=
  match m.annotations.find? (·.name == name) with
  | some block => some block.implementation.stop
  | none => m.declarationEnd? name

/-- The default export of an expression. That of a name is assigned after its declaration, unless the
declaration is inside the statement. -/
def defaultExpressionEdits (span inner : Span) (identifier : Option String) : List Edit :=
  let inPlace : List Edit :=
    [⟨⟨span.start, inner.start⟩, Loader.assignDefault⟩, ⟨⟨inner.stop, span.stop⟩, ";"⟩]
  match identifier.bind (declarationEnd? m) with
  | none => inPlace
  | some stop =>
    if stop ≤ span.start || span.stop < stop then
      [.removal span, .insertion stop ("\n" ++ Loader.assignDefault ++ inner.slice m.source ++ ";")]
    else inPlace

def exportEdits : ExportForm → List Edit
  | .declaration span start => [.removal ⟨span.start, start⟩]
  | .names span => [.removal span]
  | .star span source => [⟨span, Loader.exportAll ((r.moduleReference? cx source).getD (Script.Writer.braces ""))⟩]
  | .defaultExpression span inner identifier => defaultExpressionEdits m span inner identifier
  | .defaultDeclaration span inner (some _) => [.removal ⟨span.start, inner.start⟩]
  | .defaultDeclaration span inner none => [⟨⟨span.start, inner.start⟩, Loader.assignDefault⟩]

def defaultGetter? : ExportForm → Option String
  | .defaultDeclaration _ _ (some name) => some (Loader.getter "default" name)
  | _ => none

/-- What an exported name stands for; a default export of the file itself is left to its statement. -/
def exportValue? (e : ExportName) : Option String :=
  match e.reexportOf with
  | none => if e.exported == "default" then none else some e.bound
  | some index =>
    if (m.imports[index]?.bind (·.namespaceName)).isSome then r.moduleReference? cx index
    else r.memberReference? cx index e.bound

def exportGetter? (e : ExportName) : Option String :=
  if e.star then none else (exportValue? cx r m e).map (Loader.getter e.exported)

def getters : List String :=
  m.exportForms.filterMap defaultGetter? ++ m.exports.filterMap (exportGetter? cx r m)

def lazyEdits : List Edit :=
  m.lazyLoads.zipIdx.map fun (load, index) =>
    ⟨load.span, cx.lazyReference (r.lazyTarget? index) load.specifier⟩

def lazySubstitutions (span : Span) : List (String × String) :=
  (m.lazyLoads.zipIdx.filter fun (load, _) => span.contains load.span).map fun (load, index) =>
    (load.span.slice m.source, cx.lazyReference (r.lazyTarget? index) load.specifier)

/-- The edits of an annotation, and what is wrong with its template. A function whose definition is
another file's keeps nothing. -/
def annotationEdits (block : AnnotationBlock) : List Edit × List Diagnostic :=
  match cx.registry.get? block.kind block.name with
  | none => ([.removal block.call], [])
  | some d =>
    if d.file != r.key then ([.removal block.call], [])
    else
      let (object, diagnostics) := cx.annotationObject r m d (lazySubstitutions cx r m block.call)
      let attached := "\n" ++ block.name ++ ".annotations = " ++ object ++ ";"
      ([.removal block.call, .insertion block.implementation.stop attached], diagnostics)

def edits : List Edit :=
  importEdits cx r m ++ m.exportForms.flatMap (exportEdits cx r m) ++ lazyEdits cx r m ++
    m.annotations.flatMap fun block => (annotationEdits cx r m block).1

def body : String :=
  Text.join "" ((getters cx r m).map (· ++ "\n")) ++ Edit.applyAll (edits cx r m) m.source

end GenerationContext

open GenerationContext in
def FileRecord.generate (r : FileRecord) (cx : GenerationContext) : Option GeneratedModule :=
  r.surface.map fun m =>
    { id := r.id
      code := "function (" ++ Loader.exports ++ ", " ++ Loader.loader ++ ") " ++
        Script.Writer.braces ("\n" ++ Text.trimEnd (body cx r m) ++ "\n")
      diagnostics := m.annotations.flatMap fun block => (annotationEdits cx r m block).2 }

end ComponentCompiler
