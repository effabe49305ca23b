import ComponentCompiler.Graph.Basic
import ComponentCompiler.Template.Emit

/-! References between generated modules, and the object that a module attaches to an annotated function. -/

namespace ComponentCompiler

structure GenerationContext where
  graph : FileGraph
  registry : Registry
  library : Bool

namespace Loader

def loader : String := "__required"

def exports : String := "exports"

def module (id : Nat) : String := loader ++ "(" ++ toString id ++ ")"

def member (id : Nat) (name : String) : String :=
  loader ++ "(" ++ toString id ++ ", " ++ Script.Writer.singleQuoted name ++ ")"

def getter (exported value : String) : String :=
  loader ++ ".r(" ++ exports ++ ", " ++ Script.Writer.singleQuoted exported ++ ", " ++
    Script.Writer.function [] ("return " ++ value ++ ";") ++ ");"

def exportAll (module : String) : String := loader ++ ".e(" ++ exports ++ ", " ++ module ++ ");"

def assignDefault : String := exports ++ "['default'] = "

end Loader

namespace FileRecord

def packageAlias? (r : FileRecord) (cx : GenerationContext) (index : Nat) : Option String :=
  if cx.library then
    (((r.resolved? index).bind (·.package?)).bind cx.registry.packages.get?).map (·.identifier)
  else none

def moduleReference? (r : FileRecord) (cx : GenerationContext) (index : Nat) : Option String :=
  match r.importTarget? index with
  | some id => some (Loader.module id)
  | none => r.packageAlias? cx index

def memberReference? (r : FileRecord) (cx : GenerationContext) (index : Nat) (name : String) : Option String :=
  match r.importTarget? index with
  | some id => some (Loader.member id name)
  | none => (r.packageAlias? cx index).map fun package => Script.Writer.member package name

end FileRecord

def GenerationContext.lazyReference (cx : GenerationContext) (target : Option Path) (specifier : String) : String :=
  let found := do
    let id ← cx.graph.lookup? (← target)
    return (id, ((cx.graph.get? id).bind (·.lazyRoot)))
  match found with
  | none => "Promise.reject(new Error(" ++ Script.Writer.string ("Cannot load '" ++ specifier ++ "'") ++ "))"
  | some (id, none) => "Promise.resolve(" ++ Loader.module id ++ ")"
  | some (id, some root) =>
    let load := Loader.loader ++ ".l(" ++ toString root ++ ")"
    if root == id then load
    else load ++ ".then(" ++ Script.Writer.function [] ("return " ++ Loader.module id ++ ";") ++ ")"

namespace PropertyValue

def substitute (substitutions : List (String × String)) (code : String) : String :=
  substitutions.foldl (fun code (old, new) => Text.replaceAll old new code) code

mutual

def mapRaw (f : String → String) : PropertyValue → PropertyValue
  | .raw code => .raw (f code)
  | .array items => .array (mapRawItems f items)
  | .object entries => .object (mapRawEntries f entries)
  | other => other

def mapRawItems (f : String → String) : List PropertyValue → List PropertyValue
  | [] => []
  | item :: rest => mapRaw f item :: mapRawItems f rest

def mapRawEntries (f : String → String) : List (String × PropertyValue) → List (String × PropertyValue)
  | [] => []
  | (key, value) :: rest => (key, mapRaw f value) :: mapRawEntries f rest

end

end PropertyValue

namespace GenerationContext

def notExportedProvider (r : FileRecord) (d : Definition) (name : String) : Diagnostic where
  code := .providerNotExported
  message := d.kind.keyword ++ " " ++ name ++ " is used in a template of " ++ r.key ++
    " but is not exported from " ++ d.file
  file := r.key
  identifier := some name
  context := some d.file
  hints := ["Export the function so other modules can reference it."]

def providerReference (cx : GenerationContext) (r : FileRecord) (m : SourceModule) (name : String) :
    Except (Option Diagnostic) String :=
  if m.declarations.contains name then .ok name
  else
    match ((cx.registry.elements.get? name).or (cx.registry.directives.get? name)).or
        (cx.registry.services.get? name) with
    | none => .error none
    | some d =>
      let member (path : Path) : Except (Option Diagnostic) String :=
        match cx.graph.lookup? path with
        | some id => .ok (Loader.member id name)
        | none => .error none
      match d.package with
      | some package =>
        match cx.registry.packages.get? package with
        | none => .error none
        | some p => if cx.library then .ok (Script.Writer.member p.identifier name) else member p.entry
      | none =>
        if d.exported then member ⟨d.file⟩ else .error (some (notExportedProvider r d name))

def isCompileTimeProperty (key : String) : Bool :=
  ["template", "templateUrl", "styleUrl", "styles"].contains key

def elementMembers (cx : GenerationContext) (r : FileRecord) (m : SourceModule) (d : Definition) :
    List (String × String) × List Diagnostic :=
  let style :=
    if cx.library then optionalMember "style" ((cx.registry.output.styles.get? d.name).map Script.Writer.string)
    else []
  match cx.registry.output.templates.get? d.name with
  | none => (style, [])
  | some t =>
    let references := (SortedSet.toList t.providers).map (cx.providerReference r m)
    let providers := references.filterMap fun | .ok reference => some reference | .error _ => none
    let problems := references.filterMap fun | .error (some d) => some d | _ => none
    (nonemptyMember "providers" providers Script.Writer.list ++ [("template", t.script)] ++ style,
      problems ++ t.missingBodies r.key)

def annotationObject (cx : GenerationContext) (r : FileRecord) (m : SourceModule) (d : Definition)
    (substitutions : List (String × String)) : String × List Diagnostic :=
  let properties := d.properties.filter fun (key, _) => !(d.kind = .element && isCompileTimeProperty key)
  let substitute := PropertyValue.mapRaw (PropertyValue.substitute substitutions)
  let (members, diagnostics) := if d.kind = .element then cx.elementMembers r m d else ([], [])
  (Script.Writer.object (
    ("kind", Script.Writer.singleQuoted d.kind.keyword) ::
    properties.map (fun (key, value) => (Script.Writer.key key, (substitute value).script)) ++
    optionalMember "module" (d.module.map Script.Writer.singleQuoted) ++ members),
    diagnostics)

end GenerationContext

end ComponentCompiler
