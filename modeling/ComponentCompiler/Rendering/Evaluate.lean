import ComponentCompiler.Expression.Basic
import ComponentCompiler.Number.Reader

/-!
Values that templates are rendered with, and static evaluation of qualified expressions. Each form is looked for in
the text itself, in a fixed order, and evaluates shorter texts.
-/

namespace ComponentCompiler

abbrev Scope := SortedMap String Json

namespace Json

def number? : Json → Option Binary64
  | .int n => some (.ofInt n)
  | .float n => some n
  | _ => none

def truthy : Json → Bool
  | .null => false
  | .bool b => b
  | .int n => n != 0
  | .float n => !n.isZero
  | .str s => !s.isEmpty
  | .arr _ => true
  | .obj _ => true

def display : Json → String
  | .null => ""
  | .str s => s
  | .bool b => if b then "true" else "false"
  | .int n => toString n
  | .float n =>
    match n.toInt? with
    | some i => if i.natAbs < Nat.pow 10 15 then toString i else compact (.float n)
    | none => compact (.float n)
  | .arr elements => compact (.arr elements)
  | .obj members => compact (.obj members)

end Json

end ComponentCompiler

namespace ComponentCompiler.Evaluate

/-- Replaces escapes by what they stand for; an escape that means nothing stands for its character. -/
def unescape : List Char → List Char
  | [] => []
  | ['\\'] => ['\\']
  | '\\' :: c :: rest =>
    (match c with
      | 'n' => '\n'
      | 'r' => '\r'
      | 't' => '\t'
      | other => other) :: unescape rest
  | c :: rest => c :: unescape rest

def between? (first last : Char) (text : List Char) : Option (List Char) :=
  match text with
  | c :: rest => if c = first && rest.getLast? = some last then some rest.dropLast else none
  | [] => none

variable (text : List Char)

/-- What stands between quotes, if the text is one literal. A quote inside is accepted only next to a backslash
somewhere. -/
def stringLiteral? : Option (Option (List Char)) :=
  let size := Chars.byteLength text
  let isBetween (quote : Char) : Bool := text.head? == some quote && text.getLast? == some quote
  if size < 2 then some none
  else if isBetween '"' || isBetween '\'' then do
    let inner ← Chars.slice? 1 (size - 1) text
    let quote ← Chars.slice? 0 1 text
    return if Chars.contains quote inner && !inner.contains '\\' then none else some (unescape inner)
  else if isBetween '\x60' then do
    let inner ← Chars.slice? 1 (size - 1) text
    return if Chars.contains ['$', '\x7b'] inner then none else some (unescape inner)
  else some none

inductive PathSegment where
  | key (name : List Char)
  | index (n : Nat)
deriving DecidableEq, Repr

def startsPath (c : Char) : Bool := Chars.isAsciiLetter c || c == '_' || c == '$'

def isPathChar (c : Char) : Bool := startsPath c || Chars.isAsciiDigit c

def nameSize (bytes : List UInt8) : Nat := (bytes.takeWhile fun b => isPathChar (.ofUInt8 b)).length

def segments? (text : List Char) : Option (Option (List PathSegment)) :=
  let size := Chars.byteLength text
  match text with
  | [] => some (some [])
  | '.' :: rest => do
    let stop := 1 + nameSize (Chars.bytes rest)
    if stop = 1 then return none
    let name ← Chars.slice? 1 stop ('.' :: rest)
    let after ← Chars.slice? stop size ('.' :: rest)
    let some more ← unop% segments? after | return none
    return some (.key name :: more)
  | '[' :: rest => do
    let some stop := Chars.find? ']' ('[' :: rest) | return none
    let inner ← Chars.slice? 1 stop ('[' :: rest)
    let some index := boundedNat? (Nat.pow 2 64) (Chars.trim inner) | return none
    let after ← Chars.slice? (stop + 1) size ('[' :: rest)
    let some more ← unop% segments? after | return none
    return some (.index index :: more)
  | _ => some none
partial_fixpoint

def path? : Option (Option (List Char × List PathSegment)) :=
  let bytes := Chars.bytes text
  if bytes.head?.any fun b => startsPath (.ofUInt8 b) then do
    let name ← Chars.slice? 0 (nameSize bytes) text
    let after ← Chars.slice? (nameSize bytes) bytes.length text
    let some segments ← segments? after | return none
    return some (name, segments)
  else some none

def follow? : List PathSegment → Json → Option Json
  | [], value => some value
  | .key name :: rest, .obj members =>
    (Json.member? (.obj members) (.ofList name)).bind (follow? rest)
  | .key name :: _, .arr elements =>
    if name = "length".toList then some (.int elements.length) else none
  | .key name :: _, .str text => if name = "length".toList then some (.int text.length) else none
  | .index n :: rest, .arr elements => elements[n]?.bind (follow? rest)
  | _ :: _, _ => none

def lookup? (scope : Scope) (name : List Char) (segments : List PathSegment) : Option Json :=
  (scope.get? (.ofList name)).bind (follow? segments)

/-- Where the search for a conditional stands: the quote it is inside of, the depth of brackets, the place of the
first question mark, and the number of further ones that have no colon yet. -/
structure ConditionalScan where
  quote : Option Char := none
  depth : Int := 0
  question : Option Nat := none
  nested : Nat := 0

/-- The places of the question mark and of its colon, at depth zero and outside quotes. A backslash in quotes hides the
next byte. -/
def conditionalMarks? (s : ConditionalScan) (offset : Nat) : List UInt8 → Option (Nat × Nat)
  | [] => none
  | b :: rest =>
    let c := Char.ofUInt8 b
    match s.quote with
    | some quote =>
      if c = quote then conditionalMarks? { s with quote := none } (offset + 1) rest
      else if c = '\\' then
        match rest with
        | [] => none
        | _ :: rest => conditionalMarks? s (offset + 2) rest
      else conditionalMarks? s (offset + 1) rest
    | none =>
      if Expression.isOpening c then conditionalMarks? { s with depth := s.depth + 1 } (offset + 1) rest
      else if Expression.isClosing c then conditionalMarks? { s with depth := s.depth - 1 } (offset + 1) rest
      else if c = '?' && s.depth = 0 then
        match s.question with
        | none => conditionalMarks? { s with question := some offset } (offset + 1) rest
        | some _ => conditionalMarks? { s with nested := s.nested + 1 } (offset + 1) rest
      else if c = ':' && s.depth = 0 then
        match s.question, s.nested with
        | none, _ => conditionalMarks? s (offset + 1) rest
        | some question, 0 => some (question, offset)
        | some _, nested + 1 => conditionalMarks? { s with nested := nested } (offset + 1) rest
      else if Expression.isQuote c then conditionalMarks? { s with quote := some c } (offset + 1) rest
      else conditionalMarks? s (offset + 1) rest

def conditional? : Option (Option (List Char × List Char × List Char)) :=
  match conditionalMarks? {} 0 (Chars.bytes text) with
  | none => some none
  | some (question, colon) => do
    let condition ← Chars.slice? 0 question text
    let yes ← Chars.slice? (question + 1) colon text
    let no ← Chars.slice? (colon + 1) (Chars.byteLength text) text
    return some (condition, yes, no)

/-- The pieces between occurrences of a non-empty pattern; the number counts characters of an occurrence
still to be passed. -/
def splitOnPattern (pattern : List Char) : Nat → List Char → List (List Char)
  | _, [] => [[]]
  | skip + 1, _ :: rest => splitOnPattern pattern skip rest
  | 0, c :: rest =>
    if Chars.startsWith pattern (c :: rest) then [] :: splitOnPattern pattern (pattern.length - 1) rest
    else
      match splitOnPattern pattern 0 rest with
      | [] => [[c]]
      | piece :: pieces => (c :: piece) :: pieces

def operands? : Option (List (List Char)) :=
  let plus := " + ".toList
  if Chars.contains plus text then some (splitOnPattern plus 0 text) else none

/-- The number of characters up to and with the brace that closes the outermost of `depth` open ones, quotes or not. -/
def closing? : Nat → List Char → Option Nat
  | 0, _ => some 0
  | _ + 1, [] => none
  | depth + 1, c :: rest =>
    (closing? (if c = '\x7b' then depth + 2 else if c = '\x7d' then depth else depth + 1) rest).map (· + 1)

def first? (count : Nat) (text : List Char) : Option (List Char) :=
  if count ≤ text.length then some (text.take count) else none

def normalize : List Char :=
  let trimmed := (Chars.trim text).reverse.dropWhile fun c => c == ';' || Chars.isBlank c
  let body := trimmed.reverse
  Chars.trim ((Chars.dropPrefix? (Expression.contextParameter ++ ".").toList body).getD body)

def sum? (numbers : List Binary64) : Option Json :=
  let total := numbers.foldl Binary64.add (.zero true)
  if total.isFinite then some (.float total) else none

def combine? (values : List Json) : Option Json :=
  match values.mapM (·.number?) with
  | some numbers => sum? numbers
  | none => some (.str (String.join (values.map (·.display))))

def word? : Option Json :=
  match String.ofList text with
  | "true" => some (.bool true)
  | "false" => some (.bool false)
  | "null" | "undefined" => some .null
  | _ => none

/-! ### Values

The value of a text, if it has one, is the inner answer. There is no answer at all where a text is cut at an offset
that is no cut, or where no end is reached. The calls by `unop%` and `binop%` leave no source positions in the term of
the fixpoint. -/

mutual

def value? (scope : Scope) (source : List Char) : Option (Option Json) := do
  let text := normalize source
  if text.isEmpty then return some (.str "")
  if let some literal ← stringLiteral? text then return some (.str (.ofList literal))
  if let some n := Binary64.ofChars? text then return if n.isFinite then some (.float n) else none
  if let some word := word? text then return some word
  if let some (name, segments) ← path? text then return lookup? scope name segments
  if let some value ← binop% conditionalValue? scope text then return some value
  if let some value ← binop% sumValue? scope text then return some value
  if let some value ← binop% templateValue? scope text then return some value
  if let some operand := Chars.dropPrefix? ['!'] text then
    return (← binop% value? scope operand).map fun value => .bool !value.truthy
  if let some inner := between? '(' ')' text then binop% value? scope inner
  else return none
partial_fixpoint

def conditionalValue? (scope : Scope) (text : List Char) : Option (Option Json) := do
  let some (condition, yes, no) ← conditional? text | return none
  let some value ← binop% value? scope condition | return none
  binop% value? scope (if value.truthy then yes else no)
partial_fixpoint

def sumValue? (scope : Scope) (text : List Char) : Option (Option Json) := do
  let some operands := operands? text | return none
  let some values ← binop% values? scope operands | return none
  return combine? values
partial_fixpoint

def values? (scope : Scope) : List (List Char) → Option (Option (List Json))
  | [] => some (some [])
  | text :: rest => do
    let some value ← binop% value? scope text | return none
    let some values ← binop% values? scope rest | return none
    return some (value :: values)
partial_fixpoint

def templateValue? (scope : Scope) (text : List Char) : Option (Option Json) := do
  let some inner := between? '\x60' '\x60' text | return none
  let some text ← binop% templateText? scope inner | return none
  return some (.str text)
partial_fixpoint

def templateText? (scope : Scope) : List Char → Option (Option String)
  | [] => some (some "")
  | '$' :: '\x7b' :: rest => do
    let some stop := closing? 1 rest | return none
    let inner ← first? (stop - 1) rest
    let some value ← binop% value? scope inner | return none
    let some text ← binop% templateText? scope (rest.drop stop) | return none
    return some (value.display ++ text)
  | c :: rest => do
    let some text ← binop% templateText? scope rest | return none
    return some (.singleton c ++ text)
partial_fixpoint

end

def eval (expression : String) (scope : Scope) : Option Json := (value? scope expression.toList).join

end ComponentCompiler.Evaluate
