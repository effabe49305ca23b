import ComponentCompiler.Number.Binary64
import ComponentCompiler.Text.Chars

/-! Reading of numbers: doubles from decimals and naturals of bounded size. -/

namespace ComponentCompiler

def digitsToNat (digits : List Char) : Nat := digits.foldl (fun n c => 10 * n + (c.toNat - 48)) 0

namespace Binary64

def sign : List Char → Bool × List Char
  | '-' :: rest => (true, rest)
  | '+' :: rest => (false, rest)
  | rest => (false, rest)

def exponentOf? : List Char → Option Int
  | [] => some 0
  | c :: rest =>
    if c = 'e' || c = 'E' then
      let (negative, digits) := sign rest
      if digits.isEmpty || !digits.all Chars.isAsciiDigit then none
      else some (signedInt negative (digitsToNat digits))
    else none

def unsignedOf? (negative : Bool) (text : List Char) : Option Binary64 :=
  let whole := text.takeWhile Chars.isAsciiDigit
  let rest := text.dropWhile Chars.isAsciiDigit
  let (fraction, rest) :=
    match rest with
    | '.' :: rest => (rest.takeWhile Chars.isAsciiDigit, rest.dropWhile Chars.isAsciiDigit)
    | rest => ([], rest)
  if whole.isEmpty && fraction.isEmpty then none
  else
    (exponentOf? rest).map fun exponent =>
      ofDecimal negative (digitsToNat (whole ++ fraction)) (exponent - (fraction.length : Int))

def ofChars? (text : List Char) : Option Binary64 :=
  let (negative, body) := sign text
  let word := String.ofList (body.map Chars.toAsciiLower)
  if word = "inf" || word = "infinity" then some (.infinite negative)
  else if word = "nan" then some .nan
  else unsignedOf? negative body

end Binary64

def boundedNat? (bound : Nat) (text : List Char) : Option Nat :=
  let digits :=
    match text with
    | '+' :: rest => rest
    | rest => rest
  if digits.isEmpty || !digits.all Chars.isAsciiDigit then none
  else
    let n := digitsToNat digits
    if n < bound then some n else none

end ComponentCompiler
