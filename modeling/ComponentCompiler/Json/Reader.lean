import ComponentCompiler.Json.Value

/-!
Reading JSON texts. A `Shape` says which members of a document are read; the others only have to be
well formed.
-/

namespace ComponentCompiler

namespace Binary64

def mul : Binary64 → Binary64 → Binary64
  | .finite n m e, .finite n' m' e' =>
    let (num, den) := ratio m e
    let (num', den') := ratio m' e'
    ofRatio (n != n') (num * num') (den * den')
  | _, _ => .nan

def div : Binary64 → Binary64 → Binary64
  | .finite n m e, .finite n' m' e' =>
    let (num, den) := ratio m e
    let (num', den') := ratio m' e'
    ofRatio (n != n') (num * den') (den * num')
  | _, _ => .nan

end Binary64

/-- Which parts of a document are read. -/
inductive Shape where
  | whole
  /-- The named members of an object, or the elements of an array in the same order. -/
  | record (fields : List (String × Shape))
  | map (values : Shape)

namespace Shape

def member? : Shape → String → Option Shape
  | .whole, _ => some .whole
  | .record fields, key => fields.lookup key
  | .map values, _ => some values

def elements : Shape → List Shape
  | .record fields => fields.map (·.2)
  | _ => []

def names : Shape → List String
  | .record fields => fields.map (·.1)
  | _ => []

def flat (names : List String) : Shape := .record (names.map fun name => (name, .whole))

end Shape

namespace Json

def maxDepth : Nat := 127

inductive ReadError where
  | unexpectedEnd
  | unexpectedChar (c : Char)
  | controlCharacter
  | badEscape
  | badNumber
  | numberOutOfRange
  | tooDeep
  | trailingText
deriving DecidableEq, Repr

def isSpace (c : Char) : Bool := c == ' ' || c == '\n' || c == '\t' || c == '\r'

variable (text : List Char)

def skipSpace : List Char := text.dropWhile isSpace

/-! ### Strings -/

def hex4? : List Char → Option (Nat × List Char)
  | a :: b :: c :: d :: rest => do
    let a ← Chars.hexValue? a
    let b ← Chars.hexValue? b
    let c ← Chars.hexValue? c
    let d ← Chars.hexValue? d
    pure (((a * 16 + b) * 16 + c) * 16 + d, rest)
  | _ => none

def simpleEscape? : Char → Option Char
  | '"' => some '"'
  | '\\' => some '\\'
  | '/' => some '/'
  | 'b' => some '\x08'
  | 'f' => some '\x0c'
  | 'n' => some '\n'
  | 'r' => some '\r'
  | 't' => some '\t'
  | _ => none

def unicodeEscape : Except ReadError (Char × List Char) :=
  match hex4? text with
  | none => .error .badEscape
  | some (high, rest) =>
    if 0xD800 ≤ high && high ≤ 0xDBFF then
      match rest with
      | '\\' :: 'u' :: rest =>
        match hex4? rest with
        | some (low, rest) =>
          if 0xDC00 ≤ low && low ≤ 0xDFFF then
            .ok (Char.ofNat (0x10000 + (high - 0xD800) * 0x400 + (low - 0xDC00)), rest)
          else .error .badEscape
        | none => .error .badEscape
      | _ => .error .badEscape
    else if 0xDC00 ≤ high && high ≤ 0xDFFF then .error .badEscape
    else .ok (Char.ofNat high, rest)

def stringTail : Nat → List Char → Except ReadError (List Char × List Char)
  | 0, _ => .error .unexpectedEnd
  | _, [] => .error .unexpectedEnd
  | fuel + 1, c :: rest =>
    if c = '"' then .ok ([], rest)
    else if c = '\\' then
      match rest with
      | [] => .error .unexpectedEnd
      | 'u' :: rest => do
        let (c, rest) ← unicodeEscape rest
        let (tail, rest) ← stringTail fuel rest
        pure (c :: tail, rest)
      | e :: rest =>
        match simpleEscape? e with
        | none => .error .badEscape
        | some c => do
          let (tail, rest) ← stringTail fuel rest
          pure (c :: tail, rest)
    else if c.toNat < 32 then .error .controlCharacter
    else do
      let (tail, rest) ← stringTail fuel rest
      pure (c :: tail, rest)

def string : Except ReadError (String × List Char) := do
  let (chars, rest) ← stringTail (text.length + 1) text
  pure (.ofList chars, rest)

/-! ### Numbers -/

def digitsValue (digits : List Char) : Nat :=
  digits.foldl (fun n c => n * 10 + (c.toNat - 48)) 0

def maxWhole : Nat := Nat.pow 2 64 - 1

def significand : Nat → List Char → Nat × List Char
  | n, [] => (n, [])
  | n, c :: rest =>
    let next := n * 10 + (c.toNat - 48)
    if maxWhole < next then (n, c :: rest) else significand next rest

def scale? : Nat → Binary64 → Int → Option Binary64
  | 0, f, _ => some f
  | fuel + 1, f, exponent =>
    if exponent.natAbs ≤ 308 then
      let power := Binary64.ofDecimal false 1 exponent.natAbs
      if 0 ≤ exponent then
        let product := f.mul power
        if product.isFinite then some product else none
      else some (f.div power)
    else if f.isZero then some f
    else if 0 ≤ exponent then none
    else scale? fuel (f.div (Binary64.ofDecimal false 1 308)) (exponent + 308)

def exponentPart : Except ReadError (Int × List Char) :=
  let (negative, text) :=
    match text with
    | '-' :: rest => (true, rest)
    | '+' :: rest => (false, rest)
    | other => (false, other)
  let digits := text.takeWhile Chars.isAsciiDigit
  let rest := text.dropWhile Chars.isAsciiDigit
  if digits.isEmpty then .error .badNumber
  else
    let n : Int := (digitsValue digits : Nat)
    .ok (if negative then -n else n, rest)

def floatNumber (negative : Bool) (whole fraction : List Char) (exponent : Int) : Except ReadError Json :=
  let (head, left) := significand 0 whole
  let (head, kept) :=
    if left.isEmpty then
      let (head', left') := significand head fraction
      (head', (fraction.length - left'.length : Nat))
    else (head, 0)
  let exponent := exponent + (left.length : Int) - (kept : Int)
  match scale? 400 (Binary64.ofNat head) exponent with
  | none => .error .numberOutOfRange
  | some f => .ok (.float (if negative then f.neg else f))

structure Numeral where
  whole : List Char
  fraction : Option (List Char)
  exponent : Option Int

def numeral : Except ReadError (Numeral × List Char) := do
  let whole := text.takeWhile Chars.isAsciiDigit
  let rest := text.dropWhile Chars.isAsciiDigit
  if whole.isEmpty || (whole.head? == some '0' && 1 < whole.length) then throw .badNumber
  let (fraction, rest) ←
    match rest with
    | '.' :: rest =>
      let digits := rest.takeWhile Chars.isAsciiDigit
      if digits.isEmpty then throw .badNumber
      else pure (some digits, rest.dropWhile Chars.isAsciiDigit)
    | rest => pure (none, rest)
  let (exponent, rest) ←
    match rest with
    | 'e' :: rest | 'E' :: rest => do
      let (e, rest) ← exponentPart rest
      pure (some e, rest)
    | rest => pure (none, rest)
  return (⟨whole, fraction, exponent⟩, rest)

def number (negative : Bool) (text : List Char) : Except ReadError (Json × List Char) := do
  let (parts, rest) ← numeral text
  let n := digitsValue parts.whole
  if parts.fraction.isNone && parts.exponent.isNone then
    if negative then
      if n = 0 then return (.float (.zero true), rest)
      if n ≤ Nat.pow 2 63 then return (.int (-(n : Int)), rest)
    else if n ≤ maxWhole then return (.int n, rest)
  let value ← floatNumber negative parts.whole (parts.fraction.getD []) (parts.exponent.getD 0)
  return (value, rest)

/-! ### Parts that are passed over -/

def skipString : Nat → List Char → Except ReadError (List Char)
  | 0, _ => .error .unexpectedEnd
  | _, [] => .error .unexpectedEnd
  | fuel + 1, c :: rest =>
    if c = '"' then .ok rest
    else if c = '\\' then
      match rest with
      | [] => .error .unexpectedEnd
      | 'u' :: rest =>
        match hex4? rest with
        | some (_, rest) => skipString fuel rest
        | none => .error .badEscape
      | e :: rest => if (simpleEscape? e).isSome then skipString fuel rest else .error .badEscape
    else if c.toNat < 32 then .error .controlCharacter
    else skipString fuel rest

def skipWord (word : String) (text : List Char) : Except ReadError (List Char) :=
  match Chars.dropPrefix? word.toList text with
  | some rest => .ok rest
  | none => .error .badEscape

mutual

def skipValue : Nat → List Char → Except ReadError (List Char)
  | 0, _ => .error .unexpectedEnd
  | fuel + 1, text =>
    match skipSpace text with
    | [] => .error .unexpectedEnd
    | 'n' :: rest => skipWord "ull" rest
    | 't' :: rest => skipWord "rue" rest
    | 'f' :: rest => skipWord "alse" rest
    | '"' :: rest => skipString (rest.length + 1) rest
    | '[' :: rest =>
      match skipSpace rest with
      | ']' :: rest => .ok rest
      | rest => skipElements fuel rest
    | '\x7b' :: rest =>
      match skipSpace rest with
      | '\x7d' :: rest => .ok rest
      | rest => skipMembers fuel rest
    | '-' :: rest => do return (← numeral rest).2
    | c :: rest =>
      if Chars.isAsciiDigit c then do return (← numeral (c :: rest)).2 else .error (.unexpectedChar c)

def skipElements : Nat → List Char → Except ReadError (List Char)
  | 0, _ => .error .unexpectedEnd
  | fuel + 1, text => do
    match skipSpace (← skipValue fuel text) with
    | [] => .error .unexpectedEnd
    | ']' :: rest => pure rest
    | ',' :: rest => skipElements fuel rest
    | c :: _ => .error (.unexpectedChar c)

def skipMembers : Nat → List Char → Except ReadError (List Char)
  | 0, _ => .error .unexpectedEnd
  | fuel + 1, text =>
    match skipSpace text with
    | '"' :: rest => do
      match skipSpace (← skipString (rest.length + 1) rest) with
      | ':' :: rest =>
        match skipSpace (← skipValue fuel rest) with
        | [] => .error .unexpectedEnd
        | '\x7d' :: rest => pure rest
        | ',' :: rest => skipMembers fuel rest
        | c :: _ => .error (.unexpectedChar c)
      | [] => .error .unexpectedEnd
      | c :: _ => .error (.unexpectedChar c)
    | [] => .error .unexpectedEnd
    | c :: _ => .error (.unexpectedChar c)

end

/-! ### Documents -/

def keyword (word : String) (value : Json) (text : List Char) : Except ReadError (Json × List Char) :=
  match Chars.dropPrefix? word.toList text with
  | some rest => .ok (value, rest)
  | none => .error .badEscape

mutual

def value : Nat → Nat → Shape → List Char → Except ReadError (Json × List Char)
  | 0, _, _, _ => .error .unexpectedEnd
  | fuel + 1, depth, shape, text =>
    match skipSpace text with
    | [] => .error .unexpectedEnd
    | 'n' :: rest => keyword "ull" .null rest
    | 't' :: rest => keyword "rue" (.bool true) rest
    | 'f' :: rest => keyword "alse" (.bool false) rest
    | '"' :: rest => do
      let (s, rest) ← string rest
      pure (.str s, rest)
    | '[' :: rest =>
      match depth with
      | 0 => .error .tooDeep
      | depth + 1 =>
        match skipSpace rest with
        | ']' :: rest => .ok (.arr [], rest)
        | rest => do
          let (elements, rest) ← elements fuel depth shape.elements rest
          pure (.arr elements, rest)
    | '\x7b' :: rest =>
      match depth with
      | 0 => .error .tooDeep
      | depth + 1 =>
        match skipSpace rest with
        | '\x7d' :: rest => .ok (.obj [], rest)
        | rest => do
          let (members, rest) ← members fuel depth shape rest
          pure (.obj members, rest)
    | '-' :: rest => number true rest
    | c :: rest => if Chars.isAsciiDigit c then number false (c :: rest) else .error (.unexpectedChar c)

def elements : Nat → Nat → List Shape → List Char → Except ReadError (List Json × List Char)
  | 0, _, _, _ => .error .unexpectedEnd
  | fuel + 1, depth, shapes, text => do
    let (first, rest) ← value fuel depth (shapes.headD .whole) text
    match skipSpace rest with
    | [] => .error .unexpectedEnd
    | ']' :: rest => pure ([first], rest)
    | ',' :: rest =>
      let (more, rest) ← elements fuel depth (shapes.drop 1) rest
      pure (first :: more, rest)
    | c :: _ => .error (.unexpectedChar c)

def memberValue : Nat → Nat → Shape → String → List Char → Except ReadError (List (String × Json) × List Char)
  | 0, _, _, _, _ => .error .unexpectedEnd
  | fuel + 1, depth, shape, key, text =>
    match shape.member? key with
    | some shape => do
      let (first, rest) ← value fuel depth shape text
      pure ([(key, first)], rest)
    | none => do return ([], ← skipValue text.length text)

def members : Nat → Nat → Shape → List Char → Except ReadError (List (String × Json) × List Char)
  | 0, _, _, _ => .error .unexpectedEnd
  | fuel + 1, depth, shape, text =>
    match skipSpace text with
    | '"' :: rest => do
      let (key, rest) ← string rest
      match skipSpace rest with
      | ':' :: rest =>
        let (first, rest) ← memberValue fuel depth shape key rest
        match skipSpace rest with
        | [] => .error .unexpectedEnd
        | '\x7d' :: rest => pure (first, rest)
        | ',' :: rest =>
          let (more, rest) ← members fuel depth shape rest
          pure (first ++ more, rest)
        | c :: _ => .error (.unexpectedChar c)
      | [] => .error .unexpectedEnd
      | c :: _ => .error (.unexpectedChar c)
    | [] => .error .unexpectedEnd
    | c :: _ => .error (.unexpectedChar c)

end

def readAs (shape : Shape) (text : String) : Except ReadError Json := do
  let chars := text.toList
  let (document, rest) ← value (2 * chars.length + 1) maxDepth shape chars
  if (skipSpace rest).isEmpty then pure document else throw .trailingText

def read (text : String) : Except ReadError Json := readAs .whole text

end Json

end ComponentCompiler
