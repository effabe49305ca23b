import ComponentCompiler.Expression.Basic

/-!
Protection of template markup from the rules of HTML: interpolations and the names of binding
attributes are replaced by placeholders that HTML leaves alone.
-/

namespace ComponentCompiler.Markup

def isSpace (c : Char) : Bool := c == ' ' || c == '\t' || c == '\n' || c == '\x0c' || c == '\r'

def voidNames : List String :=
  ["area", "base", "br", "col", "embed", "hr", "img", "input", "link", "meta", "source", "track", "wbr"]

/-- The text up to the brace that closes the innermost of `depth` open ones, and what follows it. Braces
in quotes do not count, and a backslash hides the next character everywhere. -/
def closeFrom (quote : Option Char) (depth : Nat) : List Char → Option (List Char × List Char)
  | [] => none
  | c :: rest =>
    if c = '\\' then
      match rest with
      | [] => none
      | escaped :: rest =>
        (closeFrom quote depth rest).map fun (inner, after) => (c :: escaped :: inner, after)
    else
      match quote with
      | some q =>
        (closeFrom (if c = q then none else some q) depth rest).map fun (inner, after) =>
          (c :: inner, after)
      | none =>
        if c = '\x7d' && depth = 1 then some ([], rest)
        else
          let depth := if c = '\x7b' then depth + 1 else if c = '\x7d' then depth - 1 else depth
          (closeFrom (if Expression.isQuote c then some c else none) depth rest).map
            fun (inner, after) => (c :: inner, after)

variable (text : List Char)

def closeBrace? : Option (List Char × List Char) := closeFrom none 1 text

def interpolation? : List Char → Option (List Char × List Char)
  | '$' :: '\x7b' :: rest =>
    (closeBrace? rest).map fun (inner, after) => ('$' :: '\x7b' :: inner ++ ['\x7d'], after)
  | '\x7b' :: rest => (closeBrace? rest).map fun (inner, after) => ('\x7b' :: inner ++ ['\x7d'], after)
  | _ => none

inductive TagPiece where
  | space (chars : List Char)
  | stray (c : Char)
  | attribute (name : List Char) (value : Option (List Char))
deriving DecidableEq, Repr

inductive TagClose where
  | unfinished
  | plain
  | selfClosing
deriving DecidableEq, Repr

structure OpenTag where
  name : List Char
  pieces : List TagPiece
  close : TagClose
deriving DecidableEq, Repr

def isNameChar (c : Char) : Bool := !(isSpace c || c == '=' || c == '>' || c == '/')

/-- An attribute's name and what follows it; a name may start with braces that hold anything. -/
def attributeName : List Char × List Char :=
  match text with
  | '\x7b' :: rest =>
    let (start, rest) :=
      match closeBrace? rest with
      | some (inner, after) => ('\x7b' :: inner ++ ['\x7d'], after)
      | none => (['\x7b'], rest)
    (start ++ rest.takeWhile isNameChar, rest.dropWhile isNameChar)
  | text => (text.takeWhile isNameChar, text.dropWhile isNameChar)

def quotedValue (quote : Char) (text : List Char) : List Char × List Char :=
  match Chars.splitOnce? quote text with
  | some (inner, after) => (quote :: inner ++ [quote], after)
  | none => (quote :: text, [])

def attributeValue : List Char × List Char :=
  match text with
  | '"' :: rest => quotedValue '"' rest
  | '\'' :: rest => quotedValue '\'' rest
  | text =>
    let inValue := fun c => !isSpace c && c != '>'
    (text.takeWhile inValue, text.dropWhile inValue)

def readAttribute : TagPiece × List Char :=
  let (name, rest) := attributeName text
  match rest.dropWhile isSpace with
  | '=' :: after =>
    let (value, after) := attributeValue (after.dropWhile isSpace)
    (.attribute name (some value), after)
  | _ => (.attribute name none, rest)

/-- The pieces of a tag, its end and what follows it; the bound counts pieces. -/
def tagPieces : Nat → List Char → List TagPiece × TagClose × List Char
  | 0, rest => ([], .unfinished, rest)
  | fuel + 1, text =>
    let cons (piece : TagPiece) (rest : List Char) :=
      let (pieces, close, rest) := tagPieces fuel rest
      (piece :: pieces, close, rest)
    match text with
    | [] => ([], .unfinished, [])
    | '>' :: rest => ([], .plain, rest)
    | '/' :: '>' :: rest => ([], .selfClosing, rest)
    | c :: rest =>
      if isSpace c then cons (.space (text.takeWhile isSpace)) (text.dropWhile isSpace)
      else if c = '/' || c = '=' then cons (.stray c) rest
      else
        let (piece, rest) := readAttribute text
        cons piece rest

def openTag : OpenTag × List Char :=
  let name := text.takeWhile isNameChar
  let rest := text.dropWhile isNameChar
  let (pieces, close, rest) := tagPieces (rest.length + 1) rest
  (⟨name, pieces, close⟩, rest)

inductive Segment where
  | comment (chars : List Char)
  | tag (tag : OpenTag)
  | interpolation (chars : List Char)
  | plain (c : Char)
deriving DecidableEq, Repr

def comment : List Char → List Char × List Char
  | [] => ([], [])
  | c :: rest =>
    if Chars.startsWith "-->".toList (c :: rest) then (c :: rest.take 2, rest.drop 2)
    else
      let (inner, after) := comment rest
      (c :: inner, after)

/-- Cuts markup into segments. A character outside ASCII may stand only inside a comment, a tag or an
interpolation; elsewhere there is no answer. -/
def segmentsWithin : Nat → List Char → Option (List Segment)
  | _, [] => some []
  | 0, _ :: _ => none
  | fuel + 1, c :: rest =>
    if Chars.startsWith "<!--".toList (c :: rest) then
      let (inner, after) := comment (c :: rest)
      (segmentsWithin fuel after).map (.comment inner :: ·)
    else if c = '<' && rest.head?.any Chars.isAsciiLetter then
      let (tag, after) := openTag rest
      (segmentsWithin fuel after).map (.tag tag :: ·)
    else
      match interpolation? (c :: rest) with
      | some (inner, after) => (segmentsWithin fuel after).map (.interpolation inner :: ·)
      | none => if c.toNat < 128 then (segmentsWithin fuel rest).map (.plain c :: ·) else none

def segments? : Option (List Segment) := segmentsWithin text.length text

def expressionPlaceholder (n : Nat) : List Char := s!"__LOOM_EXPR_{n}__".toList

def attributePlaceholder (n : Nat) : List Char := s!"loom-attr-{n}".toList

def isPlainName (name : List Char) : Bool :=
  name.all fun c => ('a' ≤ c && c ≤ 'z') || Chars.isAsciiDigit c || c == '-' || c == '_'

def TagPiece.names : TagPiece → List (List Char)
  | .attribute name _ => if isPlainName name then [] else [name]
  | _ => []

def TagPiece.html (next : Nat) : TagPiece → List Char
  | .space chars => chars
  | .stray c => [c]
  | .attribute name value =>
    let name := if isPlainName name then name else attributePlaceholder next
    match value with
    | some value => name ++ '=' :: value
    | none => name

def piecesHtml (next : Nat) : List TagPiece → List Char
  | [] => []
  | piece :: rest => piece.html next ++ piecesHtml (next + piece.names.length) rest

/-- The end of a tag. HTML does not let elements close themselves, so they are closed for it. -/
def OpenTag.closeHtml (tag : OpenTag) : List Char :=
  match tag.close with
  | .unfinished => []
  | .plain => ['>']
  | .selfClosing =>
    if voidNames.contains (Text.toAsciiLower (.ofList tag.name)) then ['/', '>']
    else ['>', '<', '/'] ++ tag.name ++ ['>']

def Segment.names : Segment → List (List Char)
  | .tag opening => opening.pieces.flatMap (·.names)
  | _ => []

def Segment.expressions : Segment → List (List Char)
  | .interpolation chars => [chars]
  | _ => []

def Segment.html (expression name : Nat) : Segment → List Char
  | .comment chars => chars
  | .tag opening => '<' :: opening.name ++ piecesHtml name opening.pieces ++ opening.closeHtml
  | .interpolation _ => expressionPlaceholder expression
  | .plain c => [c]

def segmentsHtml (expression name : Nat) : List Segment → List Char
  | [] => []
  | s :: rest =>
    s.html expression name ++
      segmentsHtml (expression + s.expressions.length) (name + s.names.length) rest

structure Normalized where
  html : List Char
  expressions : List (List Char)
  names : List (List Char)
deriving DecidableEq, Repr

def normalize? : Option Normalized :=
  (segments? text).map fun segments =>
    ⟨segmentsHtml 0 0 segments, segments.flatMap (·.expressions), segments.flatMap (·.names)⟩

end ComponentCompiler.Markup
