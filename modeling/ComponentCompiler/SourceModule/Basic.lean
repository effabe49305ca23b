import ComponentCompiler.Annotation.Basic
import ComponentCompiler.Diagnostic.Basic

/-!
The surface of a source module: what it imports, exports, declares, annotates and loads on demand.
-/

namespace ComponentCompiler

structure ImportBinding where
  imported : String
  bound : String
deriving DecidableEq, Repr

inductive ImportOrigin where
  | used
  | reexported
deriving DecidableEq, Repr

structure ImportStatement where
  source : String
  named : List ImportBinding := []
  defaultName : Option String := none
  namespaceName : Option String := none
  origin : ImportOrigin
  span : Span
deriving DecidableEq, Repr

namespace ImportStatement

def requestedNames (i : ImportStatement) : List String :=
  i.named.map (·.imported) ++ (if i.defaultName.isSome then ["default"] else [])

def isSideEffect (i : ImportStatement) : Bool :=
  i.named.isEmpty && i.defaultName.isNone && i.namespaceName.isNone

end ImportStatement

structure ExportName where
  bound : String
  exported : String
  reexportOf : Option Nat := none
  star : Bool := false
deriving DecidableEq, Repr

inductive ExportForm where
  | declaration (span : Span) (start : Nat)
  | names (span : Span)
  | star (span : Span) (source : Nat)
  | defaultExpression (span inner : Span) (identifier : Option String)
  | defaultDeclaration (span inner : Span) (name : Option String)
deriving DecidableEq, Repr

structure AnnotationBlock where
  kind : AnnotationKind
  name : String
  properties : List (String × PropertyValue)
  call : Span
  /-- From the function declaration to the last assignment to one of its members. -/
  implementation : Span
  exported : Bool
deriving Repr

structure LazyLoad where
  specifier : String
  span : Span
deriving DecidableEq, Repr

structure SourceModule where
  source : String
  imports : List ImportStatement := []
  exports : List ExportName := []
  exportForms : List ExportForm := []
  annotations : List AnnotationBlock := []
  lazyLoads : List LazyLoad := []
  declarations : SortedSet String := ∅
  diagnostics : List Diagnostic := []

def SourceModule.implementation (m : SourceModule) (block : AnnotationBlock) : String :=
  block.implementation.slice m.source

end ComponentCompiler
