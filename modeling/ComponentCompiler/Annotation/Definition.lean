import ComponentCompiler.Annotation.Basic

/-! Definitions: an annotated function with the properties of its annotation. -/

namespace ComponentCompiler

structure Query where
  property : String
  selector : String
  many : Bool
deriving DecidableEq, Repr

def Query.ofText (raw : String) (many : Bool) : Query :=
  match Text.splitOnce? ':' raw with
  | some (property, selector) => ⟨Text.trim property, Text.trim selector, many⟩
  | none =>
    let selector := Text.trim raw
    ⟨.ofList (selector.toList.dropWhile (· == '#')), selector, many⟩

structure Dependency where
  name : String
  isOptional : Bool
deriving DecidableEq, Repr

def Dependency.ofText (raw : String) : Dependency :=
  match Text.dropPrefix? "?" raw with
  | some name => ⟨name, true⟩
  | none => ⟨raw, false⟩

structure Definition where
  name : String
  kind : AnnotationKind
  properties : List (String × PropertyValue)
  /-- The text of the function and of the assignments to its members. -/
  implementation : String := ""
  file : String
  /-- The owning module, once modules are validated. -/
  module : Option String := none
  /-- The package the definition comes from, unless it is local. -/
  package : Option String := none
  exported : Bool := false
deriving Repr

namespace Definition

variable (d : Definition)

def property? (key : String) : Option PropertyValue := d.properties.lookup key

def stringProperty? (key : String) : Option String :=
  (d.property? key).bind (·.string?)

def selector? : Option String := d.stringProperty? "selector"

def pipeName : String := (d.stringProperty? "name").getD d.name

def isLocal : Bool := d.package.isNone

def items (key : String) : List PropertyValue :=
  ((d.property? key).map (·.items)).getD []

def names (key : String) : List String := (d.items key).filterMap (·.name?)

def dependencies : List Dependency := (d.names "DI").map .ofText

def props : List (String × String) :=
  (d.names "props").map fun raw =>
    match Text.splitOnce? '=' raw with
    | some (property, publicName) => (Text.trim property, Text.trim publicName)
    | none => (raw, raw)

def events : List String :=
  (d.names "events").map fun raw =>
    Text.trim (((Text.splitOnce? ':' raw).map (·.1)).getD raw)

def queries (single many : String) : List Query :=
  (d.names single).map (Query.ofText · false) ++ (d.names many).map (Query.ofText · true)

def contentQueries : List Query := d.queries "contentChild" "contentChildren"

def viewQueries : List Query := d.queries "viewChild" "viewChildren"

def providedTokens : List String :=
  (d.items "services").filterMap fun item => (item.get? "name").bind (·.string?)

def serviceNames : List String := (d.items "services").filterMap (·.name?)

end Definition

def builtinTokens : List String :=
  ["ElementRef", "ChangeDetector", "ViewRef", "TemplateRef", "Injector", "ParentRef"]

end ComponentCompiler
