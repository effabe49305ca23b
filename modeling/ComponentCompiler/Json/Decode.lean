import ComponentCompiler.Json.Reader

/-!
Reading typed values from JSON documents. A record is written as an object, or as the list of its
fields in the order of their declaration.
-/

namespace ComponentCompiler

abbrev Decoder (α : Type) := Json → Option α

namespace Decoder

variable {α β : Type}

def string : Decoder String
  | .str s => some s
  | _ => none

def bool : Decoder Bool
  | .bool b => some b
  | _ => none

def number : Decoder Binary64
  | .int n => some (.ofInt n)
  | .float n => some n
  | _ => none

def list (decode : Decoder α) : Decoder (List α)
  | .arr elements => elements.mapM decode
  | _ => none

def optional (decode : Decoder α) : Decoder (Option α)
  | .null => some none
  | document => (decode document).map some

def map (decode : Decoder α) : Decoder (SortedMap String α)
  | .obj members => do
    let entries ← members.mapM fun (key, value) => (decode value).map (key, ·)
    return .ofList entries
  | _ => none

def choice (options : List (String × α)) : Decoder α
  | .str name => options.lookup name
  | .obj [(name, .null)] => options.lookup name
  | _ => none

end Decoder

structure JsonRecord where
  fields : List (String × Json)
  named : Bool

namespace JsonRecord

variable {α : Type}

def of? (shape : Shape) : Json → Option JsonRecord
  | .obj members =>
    let fields := members.filter fun (key, _) => shape.names.contains key
    if (fields.map (·.1)).Nodup then some ⟨fields, true⟩ else none
  | .arr elements =>
    if elements.length ≤ shape.names.length then some ⟨shape.names.zip elements, false⟩ else none
  | _ => none

def required (r : JsonRecord) (name : String) (decode : Decoder α) : Option α :=
  (r.fields.lookup name).bind decode

def optional (r : JsonRecord) (name : String) (decode : Decoder α) : Option (Option α) :=
  match r.fields.lookup name with
  | some document => Decoder.optional decode document
  | none => if r.named then some none else none

def withDefault (r : JsonRecord) (name : String) (decode : Decoder α) (initial : α) : Option α :=
  match r.fields.lookup name with
  | some document => decode document
  | none => some initial

end JsonRecord

namespace Json

def decode? {α : Type} (shape : Shape) (decode : Decoder α) (text : String) : Option α :=
  match readAs shape text with
  | .ok document => decode document
  | .error _ => none

end Json

end ComponentCompiler
