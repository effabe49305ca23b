import ComponentCompiler.Html.Entities
import ComponentCompiler.Number.Reader
import ComponentCompiler.Text.Basic

/-! Tokens of HTML and the character references inside them. -/

namespace ComponentCompiler.Html

structure Attribute where
  name : String
  value : String
deriving DecidableEq, Repr

structure Doctype where
  name : Option String := none
  publicId : Option String := none
  systemId : Option String := none
  forceOldStyle : Bool := false
deriving DecidableEq, Repr

inductive Token where
  | noise
  | doctype (d : Doctype)
  | startTag (name : String) (attributes : List Attribute) (selfClosing : Bool)
  | endTag (name : String)
  | comment
  /-- A run of characters that are all blank or all not blank. -/
  | text (chars : List Char)
  | null
  | eof
deriving DecidableEq, Repr

inductive Content where
  | data
  | escapable
  | rawText
  | script
  | plaintext
deriving DecidableEq, Repr

def isSpace (c : Char) : Bool := c == ' ' || c == '\t' || c == '\n' || c == '\x0c' || c == '\r'

def replacement : Char := Char.ofNat 0xFFFD

def withoutNull (c : Char) : Char := if c.toNat = 0 then replacement else c

def controlReplacements : List Nat :=
  [0x20AC, 0x81, 0x201A, 0x192, 0x201E, 0x2026, 0x2020, 0x2021, 0x2C6, 0x2030, 0x160, 0x2039, 0x152,
    0x8D, 0x17D, 0x8F, 0x90, 0x2018, 0x2019, 0x201C, 0x201D, 0x2022, 0x2013, 0x2014, 0x2DC, 0x2122,
    0x161, 0x203A, 0x153, 0x9D, 0x17E, 0x178]

def numericCharacter (n : Nat) : Char :=
  if 0x80 ≤ n && n ≤ 0x9F then Char.ofNat (controlReplacements.getD (n - 0x80) n)
  else if n = 0 || 0x10FFFF < n || (0xD800 ≤ n && n ≤ 0xDFFF) then replacement
  else Char.ofNat n

def hexToNat (digits : List Char) : Nat :=
  digits.foldl (fun n c => 16 * n + (Chars.hexValue? c).getD 0) 0

def isHexDigit (c : Char) : Bool := (Chars.hexValue? c).isSome

def dropSemicolon : List Char → List Char
  | ';' :: rest => rest
  | rest => rest

def numericDigits? (isDigit : Char → Bool) (value : List Char → Nat) (text : List Char) :
    Option (List Char × List Char) :=
  let digits := text.takeWhile isDigit
  if digits.isEmpty then none
  else some ([numericCharacter (value digits)], dropSemicolon (text.dropWhile isDigit))

/-- Whether a text of that length that starts with a reference ends it with a semicolon, given what
follows the reference. -/
def endsWithSemicolon (text rest : List Char) : Bool :=
  (text.take (text.length - rest.length)).getLast? == some ';'

def numericReference? : List Char → Option (List Char × List Char)
  | 'x' :: rest => numericDigits? isHexDigit hexToNat rest
  | 'X' :: rest => numericDigits? isHexDigit hexToNat rest
  | rest => numericDigits? Chars.isAsciiDigit digitsToNat rest

/-- Entries with the stems of the brackets around them, of which the innermost comes first. -/
def withStems : List (List Char) → List (List Char) → List (List Char)
  | _, [] => []
  | stems, entry :: rest =>
    let pieces := Chars.splitOn '(' entry
    let stems := pieces.dropLast.reverse ++ stems
    let last := pieces.getLast?.getD []
    (stems.reverse.flatten ++ last.filter (· != ')')) :: withStems (stems.drop (last.count ')')) rest

def namesOf (first : Char) (entry : List Char) : List (List Char × List Char) :=
  let rest := entry.takeWhile fun c => c != ',' && c.toNat < 128
  let value :=
    match entry.drop rest.length with
    | ',' :: points => (Chars.splitOn ',' points).map fun digits => Char.ofNat (hexToNat digits)
    | chars => chars
  let name := first :: rest.filter (· != '?')
  let names := if rest.contains '?' then [name, name ++ [';']] else [name ++ [';']]
  names.map fun name => (name, value)

def longerName (a b : List Char × List Char) : List Char × List Char :=
  if a.1.length < b.1.length then b else a

def longestName? (text : List Char) : Option (List Char × List Char) :=
  match text with
  | [] => none
  | c :: _ =>
    let words := (namedReferences c).flatMap fun line => Chars.splitOn ' ' line.toList
    let entries := (withStems [] words).flatMap (namesOf c)
    let found := (entries.filter fun entry => Chars.startsWith entry.1 text).foldl longerName ([], [])
    if found.1.isEmpty then none else some found

/-- A named reference. In an attribute a name without a semicolon does not count before an equals sign
or a letter or digit. -/
def namedReference? (inAttribute : Bool) (text : List Char) : Option (List Char × List Char) :=
  (longestName? text).bind fun (name, chars) =>
    let rest := text.drop name.length
    let continues := rest.head?.any fun c => c == '=' || Chars.isAsciiAlphanumeric c
    if inAttribute && name.getLast? != some ';' && continues then none else some (chars, rest)

def reference? (inAttribute : Bool) (text : List Char) : Option (List Char × List Char) :=
  match text with
  | '#' :: rest => numericReference? rest
  | text => namedReference? inAttribute text

def decodeValue : Nat → List Char → List Char
  | _, [] => []
  | 0, text => text
  | fuel + 1, '&' :: rest =>
    match reference? true rest with
    | some (chars, rest) => chars ++ decodeValue fuel rest
    | none => '&' :: decodeValue fuel rest
  | fuel + 1, c :: rest => withoutNull c :: decodeValue fuel rest

end ComponentCompiler.Html
