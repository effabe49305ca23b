import ComponentCompiler.Json.Value
import ComponentCompiler.Script.Token

/-! Writing of JavaScript: string literals, keys, lists and object literals. -/

namespace ComponentCompiler.Script.Writer

def string (value : String) : String := Json.quote value

def escapeSingle : Char → List Char
  | '\\' => ['\\', '\\']
  | '\'' => ['\\', '\'']
  | c => [c]

def singleQuoted (value : String) : String := "'" ++ .ofList (value.toList.flatMap escapeSingle) ++ "'"

def member (object name : String) : String :=
  if isName name && name != "default" then object ++ "." ++ name
  else object ++ "[" ++ singleQuoted name ++ "]"

def key (name : String) : String := if isName name then name else string name

def braces (body : String) : String := "\x7b" ++ body ++ "\x7d"

def list (items : List String) : String := "[" ++ Text.join ", " items ++ "]"

def object (members : List (String × String)) : String :=
  if members.isEmpty then braces ""
  else braces (" " ++ Text.join ", " (members.map fun (key, value) => key ++ ": " ++ value) ++ " ")

def function (parameters : List String) (body : String) : String :=
  "function (" ++ Text.join ", " parameters ++ ") " ++ braces (" " ++ body ++ " ")

end ComponentCompiler.Script.Writer
