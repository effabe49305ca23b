import ComponentCompiler.Annotation.Definition
import ComponentCompiler.Diagnostic.Log
import ComponentCompiler.Files.Path
import ComponentCompiler.Template.Basic

/-!
The registry of a target: the definitions that its files declare, by kind and name. Services,
providers and pipes share their names.
-/

namespace ComponentCompiler

structure PackageImport where
  package : String := ""
  identifier : String := ""
  global : String := ""
  version : Option String := none
  entry : Path := ⟨""⟩
  exports : SortedSet String := ∅
  openExports : Bool := false
  modules : SortedSet String := ∅

def PackageImport.exportsName (p : PackageImport) (name : String) : Bool :=
  p.openExports || p.exports.contains name

structure SelectorEntry where
  text : String
  selector : Selector
  kind : AnnotationKind
  name : String
deriving DecidableEq, Repr

structure LazyRequest where
  target : Path
  importer : Path
deriving Repr

structure TargetOutput where
  templates : SortedMap String CompiledTemplate := ∅
  externalSlots : SortedMap String (List (Option String)) := ∅
  styles : SortedMap String String := ∅
  templatePaths : SortedMap Path (SortedSet String) := ∅
  stylePaths : SortedMap Path (SortedSet String) := ∅
  lazy : List LazyRequest := []

structure Registry where
  elements : SortedMap String Definition := ∅
  directives : SortedMap String Definition := ∅
  services : SortedMap String Definition := ∅
  modules : SortedMap String Definition := ∅
  index : List SelectorEntry := []
  packages : SortedMap String PackageImport := ∅
  output : TargetOutput := {}

namespace Registry

def empty : Registry := {}

variable (r : Registry)

def definitions : AnnotationKind → SortedMap String Definition
  | .element => r.elements
  | .directive => r.directives
  | .module => r.modules
  | .service | .provider | .pipe => r.services

def withDefinitions (kind : AnnotationKind) (ds : SortedMap String Definition) : Registry :=
  match kind with
  | .element => { r with elements := ds }
  | .directive => { r with directives := ds }
  | .module => { r with modules := ds }
  | .service | .provider | .pipe => { r with services := ds }

def get? (kind : AnnotationKind) (name : String) : Option Definition :=
  (r.definitions kind).get? name

def all : List Definition :=
  r.elements.values ++ r.directives.values ++ r.services.values ++ r.modules.values

def localCount : Nat := (r.all.filter (·.isLocal)).length

variable (d : Definition)

def indexEntries : List SelectorEntry :=
  if d.kind.isSelectable then
    match d.selector? with
    | some text => (Selector.listOfText text).map fun selector => ⟨text, selector, d.kind, d.name⟩
    | none => []
  else []

def store : Registry :=
  { r.withDefinitions d.kind ((r.definitions d.kind).insert d.name d) with
    index := r.index ++ indexEntries d }

def duplicateDiagnostic (d existing : Definition) : Diagnostic where
  code := .duplicateRegistration
  message := d.kind.keyword ++ " '" ++ d.name ++ "' is already registered by " ++ existing.file
  file := d.file
  identifier := some d.name
  hints := ["Rename one of the declarations."]

def selectorDiagnostic? : Option Diagnostic :=
  if !d.kind.isSelectable then none
  else
    match d.selector? with
    | some selector =>
      if d.kind = .element && !Text.containsChar '-' selector then
        some
          { code := .elementSelector
            message := "Element '" ++ d.name ++ "' selector '" ++ selector ++ "' must contain a hyphen"
            file := d.file
            identifier := some d.name }
      else none
    | none =>
      some
        { code := .elementSelector
          message := d.kind.keyword ++ " '" ++ d.name ++ "' declares no selector"
          file := d.file
          identifier := some d.name }

structure Registration where
  registry : Registry
  accepted : Bool
  diagnostics : List Diagnostic

def register : Registration :=
  match r.get? d.kind d.name with
  | some existing => ⟨r, false, [duplicateDiagnostic d existing]⟩
  | none => ⟨r.store d, true, (selectorDiagnostic? d).toList⟩

def registerExternal : Registry :=
  if (r.get? d.kind d.name).isSome then r else r.store d

def declaredIn (file : String) (ds : SortedMap String Definition) : List (AnnotationKind × String) :=
  (ds.toList.filter fun (_, d) => d.isLocal && d.file == file).map fun (name, d) => (d.kind, name)

def withoutFile (file : String) (ds : SortedMap String Definition) : SortedMap String Definition :=
  ds.filter fun _ d => !(d.isLocal && d.file == file)

def deregisterFile (file : String) : Registry × List (AnnotationKind × String) :=
  let removed := declaredIn file r.elements ++ declaredIn file r.directives ++
    declaredIn file r.services ++ declaredIn file r.modules
  let gone (name : String) : Bool := removed.contains (AnnotationKind.element, name)
  ({ r with
      elements := withoutFile file r.elements
      directives := withoutFile file r.directives
      services := withoutFile file r.services
      modules := withoutFile file r.modules
      index := r.index.filter fun entry => !removed.contains (entry.kind, entry.name)
      output :=
        { r.output with
          templates := r.output.templates.filter fun name _ => !gone name
          styles := r.output.styles.filter fun name _ => !gone name } },
    removed)

/-- The element of a custom tag: the first whose selector has an alternative that is the tag alone. -/
def findElement? (tag : String) : Option Definition :=
  (r.index.find? fun entry => entry.kind = .element && entry.selector.bareName? == some tag).bind
    fun entry => r.elements.get? entry.name

def findDirective? (name : String) : Option Definition :=
  (r.index.find? fun entry => entry.kind = .directive && entry.selector.directiveName? == some name).bind
    fun entry => r.directives.get? entry.name

def matchingDirectives (target : MatchTarget) : List Definition :=
  let entries := r.index.filter fun entry =>
    entry.kind = .directive && entry.selector.bareName?.isNone && entry.selector.selects target
  (entries.map (·.name)).eraseDups.filterMap r.directives.get?

def findPipe? (name : String) : Option Definition :=
  r.services.values.find? fun d => d.kind = .pipe && d.pipeName == name

def slots? (element : String) : Option (List (Option String)) :=
  ((r.output.templates.get? element).map (·.slots)).or (r.output.externalSlots.get? element)

end Registry

end ComponentCompiler
