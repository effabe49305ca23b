import ComponentCompiler.Script.Token

/-! Reading tokens. -/

namespace ComponentCompiler.Script.Lexer

def fail {α : Type} (fault : Fault) (offset : Nat) : Except SyntaxError α := .error ⟨fault, offset⟩

/-! ### Blanks and comments -/

inductive Region where
  | code
  | line
  | block

def skipBlanks : Region → Bool → Nat → List Char → Except SyntaxError (Bool × Cursor)
  | .code, newline, offset, [] => .ok (newline, ⟨[], offset⟩)
  | .line, newline, offset, [] => .ok (newline, ⟨[], offset⟩)
  | .block, _, offset, [] => fail .unterminatedComment offset
  | .code, newline, offset, '/' :: '/' :: rest => skipBlanks .line newline (offset + 2) rest
  | .code, newline, offset, '/' :: '*' :: rest => skipBlanks .block newline (offset + 2) rest
  | .block, newline, offset, '*' :: '/' :: rest => skipBlanks .code newline (offset + 2) rest
  | .code, newline, offset, c :: rest =>
    if isLineBreak c then skipBlanks .code true (offset + c.utf8Size) rest
    else if isSpace c then skipBlanks .code newline (offset + c.utf8Size) rest
    else .ok (newline, ⟨c :: rest, offset⟩)
  | .line, newline, offset, c :: rest =>
    if isLineBreak c then skipBlanks .code true (offset + c.utf8Size) rest
    else skipBlanks .line newline (offset + c.utf8Size) rest
  | .block, newline, offset, c :: rest =>
    skipBlanks .block (newline || isLineBreak c) (offset + c.utf8Size) rest

/-! ### Escapes -/

def hexDigits? : Nat → Nat → List Char → Option (Nat × List Char)
  | 0, value, rest => some (value, rest)
  | _ + 1, _, [] => none
  | count + 1, value, c :: rest => do hexDigits? count (value * 16 + (← Chars.hexValue? c)) rest

def bracedHex? : Bool → Nat → List Char → Option (Nat × List Char)
  | _, _, [] => none
  | some?, value, c :: rest =>
    if c = '\x7d' then if some? then some (value, rest) else none
    else
      match Chars.hexValue? c with
      | none => none
      | some digit =>
        let value := value * 16 + digit
        if 0x10FFFF < value then none else bracedHex? true value rest

def unicodeEscape? : List Char → Option (Nat × List Char)
  | '\x7b' :: rest => bracedHex? false 0 rest
  | rest => hexDigits? 4 0 rest

def isHighSurrogate (n : Nat) : Bool := 0xD800 ≤ n && n ≤ 0xDBFF

def isLowSurrogate (n : Nat) : Bool := 0xDC00 ≤ n && n ≤ 0xDFFF

variable (text : List Char)

/-- The code point of an escape after its `\u`, two escapes of a surrogate pair taken as one. An escape
in braces is never half of a pair. -/
def pairedEscape? : Option (Nat × List Char) := do
  let (high, rest) ← unicodeEscape? text
  if isHighSurrogate high && text.head? != some '\x7b' then
    match rest with
    | '\\' :: 'u' :: more =>
      match hexDigits? 4 0 more with
      | some (low, more) =>
        if isLowSurrogate low then
          pure (0x10000 + (high - 0xD800) * 0x400 + (low - 0xDC00), more)
        else pure (high, rest)
      | none => pure (high, rest)
    | _ => pure (high, rest)
  else pure (high, rest)

/-- The meaning of the text after a backslash: code points, or nothing for a legacy octal escape in
strict places and for malformed escapes. -/
structure Escape where
  points : List Nat
  legacy : Bool
  rest : List Char

def isOctalDigit (c : Char) : Bool := '0' ≤ c && c ≤ '7'

def octalEscape (first : Char) (text : List Char) : Nat × List Char :=
  let value := first.toNat - 48
  match text with
  | c :: rest =>
    if isOctalDigit c then
      let value := value * 8 + (c.toNat - 48)
      match rest with
      | d :: more => if isOctalDigit d && first ≤ '3' then (value * 8 + (d.toNat - 48), more) else (value, rest)
      | [] => (value, [])
    else (value, text)
  | [] => (value, [])

def escape? : List Char → Option Escape
  | [] => none
  | c :: rest =>
    match c with
    | 'n' => some ⟨[10], false, rest⟩
    | 't' => some ⟨[9], false, rest⟩
    | 'r' => some ⟨[13], false, rest⟩
    | 'b' => some ⟨[8], false, rest⟩
    | 'v' => some ⟨[11], false, rest⟩
    | 'f' => some ⟨[12], false, rest⟩
    | 'x' => (hexDigits? 2 0 rest).map fun (n, rest) => ⟨[n], false, rest⟩
    | 'u' => (pairedEscape? rest).map fun (n, rest) => ⟨[n], false, rest⟩
    | '\r' =>
      match rest with
      | '\n' :: rest => some ⟨[], false, rest⟩
      | rest => some ⟨[], false, rest⟩
    | c =>
      if isLineBreak c then some ⟨[], false, rest⟩
      else if c = '0' && !(rest.head?.any Chars.isAsciiDigit) then some ⟨[0], false, rest⟩
      else if isOctalDigit c then
        let (n, rest) := octalEscape c rest
        some ⟨[n], true, rest⟩
      else if c = '8' || c = '9' then some ⟨[c.toNat], true, rest⟩
      else some ⟨[c.toNat], false, rest⟩

def isSurrogate (n : Nat) : Bool := 0xD800 ≤ n && n ≤ 0xDFFF

def hexText (n : Nat) : List Char :=
  let digits := Nat.toDigits 16 n
  List.replicate (4 - digits.length) '0' ++ digits

/-- The text of code points. A text with a lone surrogate writes it, and every replacement character,
as a replacement character followed by four hexadecimal digits. -/
def textOfPoints (points : List Nat) : String :=
  if points.any isSurrogate then
    .ofList (points.flatMap fun n =>
      if isSurrogate n || n == 0xFFFD then Char.ofNat 0xFFFD :: hexText n else [Char.ofNat n])
  else .ofList (points.map Char.ofNat)

/-! ### Words -/

def wordChars : Nat → Bool → List Char → Option (List Char × Bool × List Char)
  | 0, _, _ => none
  | fuel + 1, first, text =>
    match text with
    | '\\' :: 'u' :: rest => do
      let (n, rest) ← unicodeEscape? rest
      let c := Char.ofNat n
      if isSurrogate n || !(if first then isNameStart c else isNamePart c) then none
      else
        let (more, _, rest) ← wordChars fuel false rest
        pure (c :: more, true, rest)
    | '\\' :: _ => none
    | c :: rest =>
      if if first then isNameStart c else isNamePart c then do
        let (more, escaped, rest) ← wordChars fuel false rest
        pure (c :: more, escaped, rest)
      else if first then none
      else pure ([], false, text)
    | [] => if first then none else pure ([], false, [])

def word? : Option (String × Bool × Nat) := do
  let (name, escaped, rest) ← wordChars (text.length + 1) true text
  pure (.ofList name, escaped, text.length - rest.length)

/-! ### Numbers -/

def digits? (isDigit : Char → Bool) : Bool → List Char → Option (List Char × List Char)
  | _, [] => some ([], [])
  | afterDigit, '_' :: rest =>
    if afterDigit && rest.head?.any isDigit then digits? isDigit false rest else none
  | _, c :: rest =>
    if isDigit c then (digits? isDigit true rest).map fun (more, rest) => (c :: more, rest)
    else some ([], c :: rest)

def valueIn (base : Nat) (digits : List Char) : Nat :=
  digits.foldl (fun n c => n * base + (Chars.hexValue? c).getD 0) 0

def appendDigit (base : Nat) (value : Binary64) (c : Char) : Binary64 :=
  match value.toInt? with
  | some n => .ofNat (n.toNat * base + (Chars.hexValue? c).getD 0)
  | none => value

def exactDigits (base : Nat) : Nat :=
  if base == 2 then 64 else if base == 8 then 21 else 16

/-- The value of digits in base two, eight or sixteen. It is rounded once when the digits fit into 64
bits, and otherwise after every digit. -/
def radixValue (base : Nat) (digits : List Char) : Binary64 :=
  if digits.length ≤ exactDigits base then .ofNat (valueIn base digits)
  else digits.foldl (appendDigit base) (.zero false)

def radixNumber? (base : Nat) (text : List Char) : Option (Token × List Char) := do
  let isDigit (c : Char) : Bool := (Chars.hexValue? c).any (· < base)
  let (digits, rest) ← digits? isDigit false text
  if digits.isEmpty then none
  else
    match rest with
    | 'n' :: rest => pure (.bigint, rest)
    | rest => pure (.number (radixValue base digits), rest)

def fraction? : Option (List Char × List Char) :=
  match text with
  | '_' :: _ => none
  | rest => digits? Chars.isAsciiDigit false rest

def exponent? : Option (Int × List Char) :=
  let signed (negative : Bool) (text : List Char) : Option (Int × List Char) := do
    let (digits, rest) ← digits? Chars.isAsciiDigit false text
    if digits.isEmpty then none
    else
      let n : Int := (valueIn 10 digits : Nat)
      pure (if negative then -n else n, rest)
  match text with
  | 'e' :: '+' :: rest | 'E' :: '+' :: rest => signed false rest
  | 'e' :: '-' :: rest | 'E' :: '-' :: rest => signed true rest
  | 'e' :: rest | 'E' :: rest => signed false rest
  | rest => some (0, rest)

def decimalNumber (whole fraction : List Char) (exponent : Int) : Token :=
  .number (Binary64.ofDecimal false (valueIn 10 (whole ++ fraction)) (exponent - (fraction.length : Nat)))

def afterWhole? (whole text : List Char) : Option (Token × List Char) := do
  let (fraction, rest) ←
    match text with
    | '.' :: rest => fraction? rest
    | rest => pure ([], rest)
  let (exponent, rest) ← exponent? rest
  pure (decimalNumber whole fraction exponent, rest)

/-- A number that starts with a zero and another digit: octal unless it has an 8 or a 9. An exponent
right after the digits takes a small letter. -/
def legacyNumber? : Option (Token × List Char) :=
  let digits := text.takeWhile Chars.isAsciiDigit
  let rest := text.dropWhile Chars.isAsciiDigit
  if digits.all isOctalDigit then some (.number (radixValue 8 digits), rest)
  else if rest.head? = some 'E' then none
  else afterWhole? digits rest

def number? : Option (Token × List Char) :=
  match text with
  | '0' :: 'x' :: rest | '0' :: 'X' :: rest => radixNumber? 16 rest
  | '0' :: 'o' :: rest | '0' :: 'O' :: rest => radixNumber? 8 rest
  | '0' :: 'b' :: rest | '0' :: 'B' :: rest => radixNumber? 2 rest
  | '0' :: '_' :: _ => none
  | '0' :: c :: rest =>
    if Chars.isAsciiDigit c then legacyNumber? (c :: rest)
    else if c = 'n' then some (.bigint, rest)
    else afterWhole? ['0'] (c :: rest)
  | '.' :: rest => do
    let (fraction, rest) ← fraction? rest
    let (exponent, rest) ← exponent? rest
    pure (decimalNumber [] fraction exponent, rest)
  | text => do
    let (whole, rest) ← digits? Chars.isAsciiDigit false text
    match rest with
    | 'n' :: rest => pure (.bigint, rest)
    | rest => afterWhole? whole rest

/-! ### Strings, templates and regular expressions -/

def stringPoints : Nat → Char → List Char → Except Fault (List Nat × List Char)
  | 0, _, _ => .error .unterminatedString
  | _, _, [] => .error .unterminatedString
  | fuel + 1, quote, c :: rest =>
    if c = quote then .ok ([], rest)
    else if c = '\\' then
      match rest with
      | [] => .error .unterminatedString
      | rest =>
        match escape? rest with
        | none => .error .invalidEscape
        | some e => do
          let (more, rest) ← stringPoints fuel quote e.rest
          pure (e.points ++ more, rest)
    else if c = '\n' || c = '\r' then .error .unterminatedString
    else do
      let (more, rest) ← stringPoints fuel quote rest
      pure (c.toNat :: more, rest)

structure Piece where
  raw : List Char
  cooked : Option (List Nat)
  opens : Bool
  rest : List Char

def Piece.push (raw : List Char) (points : Option (List Nat)) (piece : Piece) : Piece :=
  { piece with
    raw := raw ++ piece.raw
    cooked := do pure ((← points) ++ (← piece.cooked)) }

def normalizeBreaks : List Char → List Char
  | [] => []
  | '\r' :: '\n' :: rest => '\n' :: normalizeBreaks rest
  | '\r' :: rest => '\n' :: normalizeBreaks rest
  | c :: rest => c :: normalizeBreaks rest

def pieceChars : Nat → List Char → Except Fault Piece
  | 0, _ => .error .unterminatedTemplate
  | fuel + 1, text =>
    match text with
    | [] => .error .unterminatedTemplate
    | '\x60' :: rest => .ok ⟨[], some [], false, rest⟩
    | '$' :: '\x7b' :: rest => .ok ⟨[], some [], true, rest⟩
    | '\r' :: '\n' :: rest => (pieceChars fuel rest).map (·.push ['\n'] (some [10]))
    | '\r' :: rest => (pieceChars fuel rest).map (·.push ['\n'] (some [10]))
    | '\\' :: rest =>
      match rest with
      | [] => .error .unterminatedTemplate
      | first :: after =>
        match escape? rest with
        | none =>
          (pieceChars fuel after).map (·.push ['\\', first] none)
        | some e =>
          let taken := rest.take (rest.length - e.rest.length)
          let points := if e.legacy then none else some e.points
          (pieceChars fuel e.rest).map (·.push ('\\' :: normalizeBreaks taken) points)
    | c :: rest => (pieceChars fuel rest).map (·.push [c] (some [c.toNat]))

def regexBody : Bool → List Char → Option (List Char)
  | _, [] => none
  | inClass, '\\' :: c :: rest => if isLineBreak c then none else regexBody inClass rest
  | inClass, c :: rest =>
    if isLineBreak c then none
    else if c = '\\' then none
    else if c = '[' then regexBody true rest
    else if c = ']' then regexBody false rest
    else if c = '/' && !inClass then some rest
    else regexBody inClass rest

def isFlagChar (c : Char) : Bool := Chars.isAsciiAlphanumeric c || c == '$' || c == '_'

def flagsAreValid (flags : List Char) : Bool :=
  flags.all (fun c => ['d', 'g', 'i', 'm', 's', 'u', 'v', 'y'].contains c) &&
    flags.all (fun c => flags.count c == 1) && !(flags.contains 'u' && flags.contains 'v')

/-! ### Tokens -/

def cursorAt (start : Cursor) (rest : List Char) : Cursor :=
  start.skip (start.rest.length - rest.length)

def regex (start : Cursor) : Except SyntaxError Cursor :=
  match regexBody false (start.rest.drop 1) with
  | none => fail .unterminatedRegex start.offset
  | some rest =>
    let flags := rest.takeWhile isFlagChar
    if flagsAreValid flags then .ok (cursorAt start (rest.dropWhile isFlagChar))
    else fail .invalidRegexFlags start.offset

def templatePiece (start : Cursor) : Except SyntaxError (Quasi × Bool × Cursor) :=
  match pieceChars (start.rest.length + 1) start.rest with
  | .error fault => fail fault start.offset
  | .ok piece =>
    .ok (⟨.ofList piece.raw, piece.cooked.map textOfPoints⟩, piece.opens, cursorAt start piece.rest)

def punct? : Option String :=
  match text with
  | '?' :: '.' :: c :: _ =>
    if Chars.isAsciiDigit c then some "?" else some "?."
  | text => punctuators.find? fun p => Chars.startsWith p.toList text

def startsNumber : List Char → Bool
  | '.' :: c :: _ => Chars.isAsciiDigit c
  | c :: _ => Chars.isAsciiDigit c
  | [] => false

def tokenAt (start : Cursor) : Except SyntaxError (Token × Bool × Cursor) :=
  match start.rest with
  | [] => .ok (.eof, false, start)
  | c :: rest =>
    if c = '"' || c = '\'' then
      match stringPoints (rest.length + 1) c rest with
      | .error fault => fail fault start.offset
      | .ok (points, rest) =>
        .ok (.string (textOfPoints points) (!points.any isSurrogate), false, cursorAt start rest)
    else if c = '\x60' then do
      let (quasi, opens, after) ← templatePiece (start.skip 1)
      pure (.template quasi opens, false, after)
    else if c = '#' then
      match word? rest with
      | none => fail .unexpectedCharacter start.offset
      | some (name, escaped, count) => .ok (.privateName name, escaped, start.skip (count + 1))
    else if startsNumber (c :: rest) then
      match number? (c :: rest) with
      | none => fail .invalidNumber start.offset
      | some (token, rest) =>
        if rest.head?.any (fun c => isNameStart c || Chars.isAsciiDigit c) then fail .invalidNumber start.offset
        else .ok (token, false, cursorAt start rest)
    else if isNameStart c || c = '\\' then
      match word? (c :: rest) with
      | none => fail .invalidEscape start.offset
      | some (name, escaped, count) => .ok (.word name, escaped, start.skip count)
    else
      match punct? (c :: rest) with
      | none => fail .unexpectedCharacter start.offset
      | some text => .ok (.punct text, false, start.skip text.length)

def next (cursor : Cursor) : Except SyntaxError (Lexeme × Cursor × Cursor) := do
  let (newline, start) ← skipBlanks .code false cursor.offset cursor.rest
  let (token, escaped, after) ← tokenAt start
  pure (⟨token, ⟨start.offset, after.offset⟩, newline, escaped⟩, start, after)

end ComponentCompiler.Script.Lexer
