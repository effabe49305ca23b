import ComponentCompiler.Annotation.Document
import ComponentCompiler.Registry.Basic

/-! What a library tells its users about the definitions it exports. -/

namespace ComponentCompiler

structure MetadataEntry where
  kind : AnnotationKind
  properties : List (String × PropertyValue) := []
  module : Option String := none
  slots : List (Option String) := []

structure LibraryMetadata where
  name : String
  version : Option String := none
  exports : List String := []
  modules : SortedMap String MetadataEntry := ∅
  services : SortedMap String MetadataEntry := ∅
  pipes : SortedMap String MetadataEntry := ∅
  elements : SortedMap String MetadataEntry := ∅
  directives : SortedMap String MetadataEntry := ∅

namespace LibraryMetadata

def entries (m : LibraryMetadata) : List (String × MetadataEntry) :=
  m.modules.toList ++ m.services.toList ++ m.pipes.toList ++ m.elements.toList ++ m.directives.toList

def add (m : LibraryMetadata) (name : String) (entry : MetadataEntry) : LibraryMetadata :=
  match entry.kind with
  | .element => { m with elements := m.elements.insert name entry }
  | .directive => { m with directives := m.directives.insert name entry }
  | .module => { m with modules := m.modules.insert name entry }
  | .pipe => { m with pipes := m.pipes.insert name entry }
  | .service | .provider => { m with services := m.services.insert name entry }

end LibraryMetadata

namespace MetadataEntry

def document (entry : MetadataEntry) : Json :=
  .obj (
    [("kind", .str entry.kind.keyword), ("properties", PropertyValue.propertiesDocument entry.properties),
      ("module", .ofText? entry.module)] ++
    if entry.slots.isEmpty then [] else [("slots", .arr (entry.slots.map Json.ofText?))])

def shape : Shape := .flat ["kind", "properties", "module", "slots"]

def ofDocument? (document : Json) : Option MetadataEntry := do
  let r ← JsonRecord.of? shape document
  return {
    kind := ← r.required "kind" AnnotationKind.ofDocument?
    properties := ← r.withDefault "properties" PropertyValue.propertiesOfDocument? []
    module := ← r.withDefault "module" (Decoder.optional Decoder.string) none
    slots := ← r.withDefault "slots" (Decoder.list (Decoder.optional Decoder.string)) [] }

end MetadataEntry

namespace LibraryMetadata

def entriesDocument (entries : SortedMap String MetadataEntry) : Json :=
  .obj (entries.toList.map fun (name, entry) => (name, entry.document))

def document (m : LibraryMetadata) : Json :=
  .obj [("name", .str m.name), ("version", .ofText? m.version),
    ("exports", .arr (m.exports.map .str)), ("modules", entriesDocument m.modules),
    ("services", entriesDocument m.services), ("pipes", entriesDocument m.pipes),
    ("elements", entriesDocument m.elements), ("directives", entriesDocument m.directives)]

def shape : Shape :=
  let entries : Shape := .map MetadataEntry.shape
  .record [("name", .whole), ("version", .whole), ("exports", .whole), ("modules", entries),
    ("services", entries), ("pipes", entries), ("elements", entries), ("directives", entries)]

def ofDocument? (document : Json) : Option LibraryMetadata := do
  let r ← JsonRecord.of? shape document
  let entries (key : String) : Option (SortedMap String MetadataEntry) :=
    r.withDefault key (Decoder.map MetadataEntry.ofDocument?) ∅
  return {
    name := ← r.required "name" Decoder.string
    version := ← r.withDefault "version" (Decoder.optional Decoder.string) none
    exports := ← r.withDefault "exports" (Decoder.list Decoder.string) []
    modules := ← entries "modules"
    services := ← entries "services"
    pipes := ← entries "pipes"
    elements := ← entries "elements"
    directives := ← entries "directives" }

end LibraryMetadata

namespace Registry

def isPrivateProperty (key : String) : Bool :=
  ["template", "templateUrl", "styles", "styleUrl"].contains key

def metadataEntry (r : Registry) (d : Definition) : MetadataEntry where
  kind := d.kind
  properties := d.properties.filter fun (key, _) => !isPrivateProperty key
  module := d.module
  slots := ((r.output.templates.get? d.name).map (·.slots)).getD []

def metadata (r : Registry) (name : String) (version : Option String) (exports : SortedSet String) :
    LibraryMetadata :=
  (r.all.filter fun d => d.isLocal && exports.contains d.name).foldl
    (fun m d => m.add d.name (r.metadataEntry d))
    { name := name, version := version, exports := SortedSet.toList exports }

def externalDefinition (package name : String) (entry : MetadataEntry) : Definition where
  name := name
  kind := entry.kind
  properties := entry.properties
  file := package
  module := entry.module
  package := some package
  exported := true

def registerMetadataEntry (package : String) (r : Registry) (entry : String × MetadataEntry) : Registry :=
  let r :=
    if entry.2.kind = .element && !entry.2.slots.isEmpty then
      { r with output := { r.output with
          externalSlots := r.output.externalSlots.insert entry.1 entry.2.slots } }
    else r
  r.registerExternal (externalDefinition package entry.1 entry.2)

def registerMetadata (r : Registry) (package : String) (m : LibraryMetadata) : Registry :=
  m.entries.foldl (registerMetadataEntry package) r

end Registry

end ComponentCompiler
