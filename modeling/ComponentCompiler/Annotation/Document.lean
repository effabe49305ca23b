import ComponentCompiler.Annotation.Definition
import ComponentCompiler.Json.Decode

/-! Annotation kinds, property values and definitions as JSON documents. -/

namespace ComponentCompiler

def AnnotationKind.ofDocument? : Decoder AnnotationKind :=
  Decoder.choice (AnnotationKind.all.map fun kind => (kind.keyword, kind))

namespace PropertyValue

mutual

def document : PropertyValue → Json
  | .string s => .obj [("string", .str s)]
  | .number n => .obj [("number", .float n)]
  | .bool b => .obj [("bool", .bool b)]
  | .null => .str "null"
  | .array items => .obj [("array", .arr (documents items))]
  | .object entries => .obj [("object", .arr (entryDocuments entries))]
  | .identifier s => .obj [("identifier", .str s)]
  | .raw s => .obj [("raw", .str s)]

def documents : List PropertyValue → List Json
  | [] => []
  | item :: rest => document item :: documents rest

def entryDocuments : List (String × PropertyValue) → List Json
  | [] => []
  | (key, value) :: rest => .arr [.str key, document value] :: entryDocuments rest

end

def simple? (kind : String) (content : Json) : Option PropertyValue :=
  match kind with
  | "string" => (Decoder.string content).map .string
  | "number" => (Decoder.number content).map .number
  | "bool" => (Decoder.bool content).map .bool
  | "identifier" => (Decoder.string content).map .identifier
  | "raw" => (Decoder.string content).map .raw
  | "null" =>
    match content with
    | .null => some .null
    | _ => none
  | _ => none

mutual

def ofDocument? : Json → Option PropertyValue
  | .str kind => if kind == "null" then some .null else none
  | .obj [(kind, .arr elements)] =>
    if kind == "array" then (ofDocuments? elements).map .array
    else if kind == "object" then (ofEntries? elements).map .object
    else none
  | .obj [(kind, content)] => simple? kind content
  | _ => none

def ofDocuments? : List Json → Option (List PropertyValue)
  | [] => some []
  | e :: rest => do return (← ofDocument? e) :: (← ofDocuments? rest)

def ofEntries? : List Json → Option (List (String × PropertyValue))
  | [] => some []
  | .arr [.str key, value] :: rest => do return (key, ← ofDocument? value) :: (← ofEntries? rest)
  | _ => none

end

def propertiesDocument (entries : List (String × PropertyValue)) : Json := .arr (entryDocuments entries)

def propertiesOfDocument? : Decoder (List (String × PropertyValue))
  | .arr elements => ofEntries? elements
  | _ => none

end PropertyValue

def Definition.document (d : Definition) : Json :=
  .obj [("name", .str d.name), ("kind", .str d.kind.keyword),
    ("properties", PropertyValue.propertiesDocument d.properties), ("file", .str d.file),
    ("module", .ofText? d.module), ("external", .ofText? d.package), ("exported", .bool d.exported)]

end ComponentCompiler
