import ComponentCompiler.Script.Parser
import ComponentCompiler.Script.Scope
import ComponentCompiler.Text.Edit

/-!
Qualification of template expressions: names that are neither bound inside the expression nor global
are read from the context object.
-/

namespace ComponentCompiler.Expression

def contextParameter : String := "ctx"

def eventParameter : String := "$event"

def templateGlobals : List String :=
  ["Math", "console", "JSON", "Date", "String", "Number", "Boolean", "Array", "Object", "Promise",
    "Error", "undefined", "NaN", "Infinity", "parseInt", "parseFloat", "isNaN",
    "encodeURIComponent", "window", "document", "this", contextParameter, eventParameter]

def isGlobal (name : String) : Bool := templateGlobals.contains name

def inContext (name : String) : String := contextParameter ++ "." ++ name

def editOf (reference : Script.Reference) : Option Edit :=
  let qualified := reference.free && !isGlobal reference.name
  let value := if qualified then inContext reference.name else reference.name
  if reference.shorthand then some ⟨reference.span, reference.name ++ ": " ++ value⟩
  else if qualified then some ⟨reference.span, value⟩
  else none

def qualifyNodes (nodes : List Script.Node) (source : String) : String :=
  Edit.applyAll ((Script.referencesOf (Script.scopeNamesOf nodes) nodes).filterMap editOf) source

inductive Error where
  | empty
  | malformed (cause : Script.SyntaxError)
deriving DecidableEq, Repr

def Error.message : Error → String
  | .empty => "empty expression"
  | .malformed cause => cause.fault.message

def qualify (source : String) : Except Error String :=
  match Script.parseExpression source with
  | .error cause => .error (.malformed cause)
  | .ok node => .ok (qualifyNodes [node] source)

def qualifyHandler (source : String) : Except Error String :=
  match Script.parseModule source with
  | .error cause => .error (.malformed cause)
  | .ok program => .ok (qualifyNodes (program.directives ++ program.body) source)

end ComponentCompiler.Expression
