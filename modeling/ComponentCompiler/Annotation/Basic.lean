import ComponentCompiler.Script.Writer

/-! Annotations: what kind of definition a function is, and the values of its properties. -/

namespace ComponentCompiler

inductive AnnotationKind where
  | element
  | directive
  | service
  | provider
  | pipe
  | module
deriving DecidableEq, Repr

namespace AnnotationKind

def all : List AnnotationKind := [.element, .directive, .service, .provider, .pipe, .module]

def keyword : AnnotationKind → String
  | .element => "Element"
  | .directive => "Directive"
  | .service => "Service"
  | .provider => "Provider"
  | .pipe => "Pipe"
  | .module => "Module"

def ofKeyword? (keyword : String) : Option AnnotationKind := all.find? (·.keyword == keyword)

def isInjectable : AnnotationKind → Bool
  | .service | .provider | .pipe => true
  | _ => false

def isSelectable : AnnotationKind → Bool
  | .element | .directive => true
  | _ => false

end AnnotationKind

inductive PropertyValue where
  | string (value : String)
  | number (value : Binary64)
  | bool (value : Bool)
  | null
  | array (items : List PropertyValue)
  | object (entries : List (String × PropertyValue))
  | identifier (name : String)
  /-- Any other expression, as its text. -/
  | raw (code : String)
deriving Repr

namespace PropertyValue

def string? : PropertyValue → Option String
  | .string s => some s
  | _ => none

def name? : PropertyValue → Option String
  | .string s => some s
  | .identifier s => some s
  | _ => none

def items : PropertyValue → List PropertyValue
  | .array items => items
  | _ => []

def get? (value : PropertyValue) (key : String) : Option PropertyValue :=
  match value with
  | .object entries => entries.lookup key
  | _ => none

def numberScript (n : Binary64) : String :=
  match n.toInt? with
  | some i => if i.natAbs < Nat.pow 10 15 then toString i else n.positional
  | none => n.positional

mutual

def script : PropertyValue → String
  | .string s => Script.Writer.string s
  | .number n => numberScript n
  | .bool b => if b then "true" else "false"
  | .null => "null"
  | .array items => Script.Writer.list (scripts items)
  | .object entries => Script.Writer.object (entryScripts entries)
  | .identifier name => name
  | .raw code => code

def scripts : List PropertyValue → List String
  | [] => []
  | item :: rest => item.script :: scripts rest

def entryScripts : List (String × PropertyValue) → List (String × String)
  | [] => []
  | (key, value) :: rest => (Script.Writer.key key, value.script) :: entryScripts rest

end

end PropertyValue

end ComponentCompiler
