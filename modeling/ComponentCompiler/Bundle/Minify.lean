import ComponentCompiler.Json.Value
import ComponentCompiler.Script.Parser

/-! Scripts without blanks. Line breaks are kept, since they may end a statement. -/

namespace ComponentCompiler.Minify

open Script (Label Node)

def isVerbatim : Label → Bool
  | .literal _ | .template _ | .keyName _ | .importFrom .. | .exportList .. | .exportAll .. => true
  | _ => false

mutual

def verbatim : Node → List Span
  | .mk label span parts => if isVerbatim label then [span] else verbatimOf parts

def verbatimOf : List Node → List Span
  | [] => []
  | node :: rest => verbatim node ++ verbatimOf rest

end

/-- A character that is kept, or blanks and comments with the number of line breaks among them. -/
inductive Piece where
  | char (c : Char)
  | gap (breaks : Nat)
deriving DecidableEq, Repr

def addGap (breaks : Nat) : List Piece → List Piece
  | .gap more :: rest => .gap (breaks + more) :: rest
  | rest => .gap breaks :: rest

inductive Region where
  | code
  | lineComment
  | blockStart
  | blockComment
deriving DecidableEq, Repr

def breakCount (c : Char) : Nat := if c == '\n' then 1 else 0

def pieces (kept : List Span) : Region → Nat → List Char → List Piece
  | _, _, [] => []
  | .lineComment, offset, c :: rest =>
    addGap (breakCount c) (pieces kept (if c == '\n' then .code else .lineComment) (offset + c.utf8Size) rest)
  | .blockStart, offset, c :: rest => pieces kept .blockComment (offset + c.utf8Size) rest
  | .blockComment, offset, '*' :: '/' :: rest => addGap 0 (pieces kept .code (offset + 2) rest)
  | .blockComment, offset, c :: rest => addGap (breakCount c) (pieces kept .blockComment (offset + c.utf8Size) rest)
  | .code, offset, c :: rest =>
    if kept.any fun span => span.start ≤ offset && offset < span.stop then
      .char c :: pieces kept .code (offset + c.utf8Size) rest
    else if Chars.startsWith ['/', '/'] (c :: rest) then addGap 0 (pieces kept .lineComment (offset + 1) rest)
    else if Chars.startsWith ['/', '*'] (c :: rest) then addGap 0 (pieces kept .blockStart (offset + 1) rest)
    else if Chars.isBlank c then addGap (breakCount c) (pieces kept .code (offset + c.utf8Size) rest)
    else .char c :: pieces kept .code (offset + c.utf8Size) rest

def needBlank (a b : Char) : Bool :=
  let isWord (c : Char) : Bool := Chars.isAsciiAlphanumeric c || c == '_' || c == '$' || 128 ≤ c.toNat
  (isWord a && (isWord b || b == '.')) || (a == b && (a == '+' || a == '-')) || a == '/' || b == '/'

def textAfter : Option Char → List Piece → List Char
  | _, [] => []
  | _, .char c :: rest => c :: textAfter (some c) rest
  | _, [.gap _] => []
  | before, .gap breaks :: rest =>
    match before, rest with
    | some a, .char b :: _ =>
      if 0 < breaks then '\n' :: textAfter before rest
      else if needBlank a b then ' ' :: textAfter before rest
      else textAfter before rest
    | _, _ => textAfter before rest

/-- For each line of the result, the number of lines since the line that the one before comes from. -/
def lineSteps : Bool → List Piece → List Nat
  | _, [] => []
  | _, .char c :: rest => if c == '\n' then 1 :: lineSteps true rest else lineSteps true rest
  | started, .gap breaks :: rest =>
    if started && 0 < breaks && !rest.isEmpty then breaks :: lineSteps true rest else lineSteps started rest

def leadingLines : List Piece → Nat
  | .gap breaks :: _ => breaks
  | _ => 0

def base64Digits : List Char := "ABCDEFGHIJKLMNOPQRSTUVWXYZabcdefghijklmnopqrstuvwxyz0123456789+/".toList

def base64Digit (n : Nat) : Char := base64Digits[n]?.getD 'A'

/-- Digits of five bits, the lowest first; all but the last are marked. The bound counts digits. -/
def fiveBitDigits : Nat → Nat → List Char
  | 0, _ => []
  | fuel + 1, n =>
    if n < 32 then [base64Digit n] else base64Digit (32 + n % 32) :: fiveBitDigits fuel (n / 32)

def stepDigits (step : Nat) : String := .ofList (fiveBitDigits (step + 1) (2 * step))

def lineMapping (step : Nat) : String := "AA" ++ stepDigits step ++ "A"

def sourceMap (fileName code : String) (ps : List Piece) : Json :=
  let steps := leadingLines ps :: lineSteps false ps
  .obj [("version", .int 3), ("names", .arr []), ("sources", .arr [.str fileName]),
    ("sourcesContent", .arr [.str code]), ("mappings", .str (Text.join ";" (steps.map lineMapping)))]

end Minify

structure MinifiedScript where
  code : String
  map : Option String

open Minify in
def minify? (code fileName : String) (withMap : Bool) : Option MinifiedScript :=
  match Script.parseModule code with
  | .error _ => none
  | .ok program =>
    let ps := pieces (verbatimOf (program.directives ++ program.body)) .code 0 code.toList
    let text : String := .ofList (textAfter none ps)
    if withMap then
      some ⟨text ++ "\n//# sourceMappingURL=" ++ fileName ++ ".map", some (sourceMap fileName code ps).compact⟩
    else some ⟨text, none⟩

end ComponentCompiler
