import ComponentCompiler.Text.Chars

/-!
The operations of `Chars` on strings, and places in a text given by byte offsets. A `Span` is a
half-open range of byte offsets.
-/

namespace ComponentCompiler

namespace Text

variable (text : String)

def trim : String := .ofList (Chars.trim text.toList)

def trimStart : String := .ofList (Chars.trimStart text.toList)

def trimEnd : String := .ofList (Chars.trimEnd text.toList)

def splitOn (sep : Char) (text : String) : List String :=
  (Chars.splitOn sep text.toList).map .ofList

def splitOnce? (sep : Char) (text : String) : Option (String × String) :=
  (Chars.splitOnce? sep text.toList).map fun (before, after) => (.ofList before, .ofList after)

def replaceAll (pattern replacement text : String) : String :=
  .ofList (Chars.replaceAll pattern.toList replacement.toList text.toList)

variable (pattern text : String)

def dropPrefix? : Option String :=
  (Chars.dropPrefix? pattern.toList text.toList).map .ofList

def startsWith : Bool := Chars.startsWith pattern.toList text.toList

def endsWith : Bool :=
  Chars.startsWith pattern.toList.reverse text.toList.reverse

def contains : Bool := Chars.contains pattern.toList text.toList

def containsChar (c : Char) (text : String) : Bool := text.toList.contains c

def toAsciiLower : String := .ofList (text.toList.map Chars.toAsciiLower)

def join (separator : String) (pieces : List String) : String :=
  .ofList (Chars.join separator.toList (pieces.map (·.toList)))

def isBlank : Bool := text.toList.all Chars.isBlank

end Text

structure Span where
  start : Nat
  stop : Nat
deriving DecidableEq, Repr, Inhabited

namespace Chars

def takeBytes? : Nat → List Char → Option (List Char)
  | 0, _ => some []
  | _ + 1, [] => none
  | bytes + 1, c :: rest =>
    if c.utf8Size ≤ bytes + 1 then (takeBytes? (bytes + 1 - c.utf8Size) rest).map (c :: ·) else none

/-- The characters that start in the range, when the first one starts at `at`. -/
def slice (span : Span) : Nat → List Char → List Char
  | _, [] => []
  | offset, c :: rest =>
    if span.stop ≤ offset then []
    else if span.start ≤ offset then c :: slice span (offset + c.utf8Size) rest
    else slice span (offset + c.utf8Size) rest

end Chars

namespace Span

def slice (span : Span) (text : String) : String := .ofList (Chars.slice span 0 text.toList)

def contains (span inner : Span) : Bool := span.start ≤ inner.start && inner.stop ≤ span.stop

end Span

/-- A line and a column, both counted from one; columns count bytes. -/
structure Position where
  line : Nat
  column : Nat
deriving DecidableEq, Repr

namespace Position

def after (before : List Char) : Position :=
  before.foldl (fun p c => if c = '\n' then ⟨p.line + 1, 1⟩ else ⟨p.line, p.column + c.utf8Size⟩) ⟨1, 1⟩

def ofOffset? (text : String) (offset : Nat) : Option Position :=
  (Chars.takeBytes? (min offset text.utf8ByteSize) text.toList).map after

end Position

end ComponentCompiler
