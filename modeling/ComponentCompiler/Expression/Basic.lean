import ComponentCompiler.Expression.Qualify
import ComponentCompiler.Script.Writer

/-! Template expressions with filters. -/

namespace ComponentCompiler

structure Filter where
  name : String
  pipe : Option String
  args : List String
deriving DecidableEq, Repr

structure Expression where
  source : String
  code : String
  filters : List Filter
  once : Bool
deriving DecidableEq, Repr

namespace Expression

inductive Separator where
  | filter
  | argument
deriving DecidableEq, Repr

def Separator.char : Separator → Char
  | .filter => '|'
  | .argument => ':'

def isQuote (c : Char) : Bool := c == '"' || c == '\'' || c == '\x60'

def isOpening (c : Char) : Bool := c == '(' || c == '[' || c == '\x7b'

def isClosing (c : Char) : Bool := c == ')' || c == ']' || c == '\x7d'

def consHead (c : Char) : List (List Char) → List (List Char)
  | [] => [[c]]
  | piece :: pieces => (c :: piece) :: pieces

/-- Where a split stands: the quote it is inside of, the depth of brackets, whether a question mark
has been passed and whether the character before was a bar. -/
structure Scan where
  quote : Option Char
  depth : Int
  question : Bool
  bar : Bool
deriving DecidableEq, Repr

namespace Scan

def start : Scan := ⟨none, 0, false, false⟩

def pass (scan : Scan) (c : Char) : Scan where
  quote := if isQuote c then some c else none
  depth := if isOpening c then scan.depth + 1 else if isClosing c then scan.depth - 1 else scan.depth
  question := scan.question || c == '?'
  bar := c == '|'

def passQuoted (scan : Scan) (quote c : Char) : Scan where
  quote := if c = quote then none else some quote
  depth := scan.depth
  question := scan.question || c == '?'
  bar := c == '|'

def passEscaped (scan : Scan) (c : Char) : Scan :=
  { scan with question := scan.question || c == '?', bar := c == '|' }

end Scan

/-- Whether a character outside quotes is a cut. Bars next to each other are none, and after a question
mark a colon belongs to a conditional. -/
def isCut (separator : Separator) (scan : Scan) (c : Char) (next : Option Char) : Bool :=
  c == separator.char && scan.depth == 0 &&
    match separator with
    | .filter => next != some '|' && !scan.bar
    | .argument => !scan.question

def splitFrom (separator : Separator) : Scan → List Char → List (List Char)
  | _, [] => [[]]
  | scan, c :: rest =>
    match scan.quote with
    | some quote =>
      if c = '\\' then
        match rest with
        | [] => [[c]]
        | escaped :: rest =>
          consHead c (consHead escaped (splitFrom separator (scan.passEscaped escaped) rest))
      else consHead c (splitFrom separator (scan.passQuoted quote c) rest)
    | none =>
      if isCut separator scan c rest.head? then [] :: splitFrom separator (scan.pass c) rest
      else consHead c (splitFrom separator (scan.pass c) rest)

def splitTopLevel (separator : Separator) (text : String) : List String :=
  (splitFrom separator .start text.toList).map .ofList

def Filter.ofPieces : List String → Except Error Filter
  | [] => .ok ⟨"", none, []⟩
  | name :: args => do
    let args ← args.mapM fun arg => qualify (Text.trim arg)
    return ⟨Text.trim name, none, args⟩

def compile (text : String) : Except Error Expression := do
  let trimmed := Text.trim text
  let (once, body) :=
    match Text.dropPrefix? ":" trimmed with
    | some body => (true, Text.trimStart body)
    | none => (false, trimmed)
  match splitTopLevel .filter body with
  | [] => .error .empty
  | source :: segments =>
    let source := Text.trim source
    if source.isEmpty then .error .empty
    else
      let code ← qualify source
      let filters ← segments.mapM fun segment => Filter.ofPieces (splitTopLevel .argument segment)
      return ⟨source, code, filters, once⟩

def compileHandler (text : String) : Except Error Expression := do
  let source := Text.trim text
  let code ← qualifyHandler source
  return ⟨source, code, [], false⟩

def Filter.script (filter : Filter) : String :=
  Script.Writer.object
    [("pipe", Script.Writer.string (filter.pipe.getD filter.name)),
      ("args", Script.Writer.function [contextParameter]
        ("return " ++ Script.Writer.list filter.args ++ ";"))]

def script (expression : Expression) : String :=
  let accessor := Script.Writer.function [contextParameter] ("return " ++ expression.code ++ ";")
  if expression.filters.isEmpty && !expression.once then accessor
  else
    Script.Writer.object (
      [("fn", accessor)] ++
      (if expression.filters.isEmpty then []
        else [("filters", Script.Writer.list (expression.filters.map Filter.script))]) ++
      (if expression.once then [("once", "true")] else []))

def handlerScript (expression : Expression) : String :=
  let body := (Chars.trimEnd expression.code.toList).reverse.dropWhile (· == ';')
  Script.Writer.function [contextParameter, eventParameter] (.ofList body.reverse ++ ";")

end Expression

end ComponentCompiler
