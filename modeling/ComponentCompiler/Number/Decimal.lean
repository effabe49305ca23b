import ComponentCompiler.Number.Binary64
import ComponentCompiler.Text.Chars

/-!
Decimal texts of double-precision numbers. `shortest` gives the fewest digits that read back as the
number, and of these the nearest to it.
-/

namespace ComponentCompiler

structure Decimal where
  digits : Nat
  exponent : Int
deriving DecidableEq, Repr

namespace Decimal

/-- The reals that round to a number: twice scaled ends, and whether the ends belong to them. -/
structure Interval where
  low : Nat
  value : Nat
  high : Nat
  den : Nat
  closed : Bool

def Interval.of (mantissa : Nat) (exponent : Int) : Interval :=
  let below := if mantissa = Nat.pow 2 52 && Binary64.minExponent < exponent then 1 else 2
  let (unit, den) := Binary64.ratio 1 (exponent - 2)
  ⟨(4 * mantissa - below) * unit, 4 * mantissa * unit, (4 * mantissa + 2) * unit, den,
    mantissa % 2 == 0⟩

def Interval.contains (i : Interval) (num denom : Nat) : Bool :=
  let point := num * i.den
  if i.closed then i.low * denom ≤ point && point ≤ i.high * denom
  else i.low * denom < point && point < i.high * denom

/-- The power of ten just above the value: `10 ^ (k - 1) ≤ value < 10 ^ k`. -/
def magnitude (num den : Nat) : Int :=
  let estimate := (((Nat.log2 num : Int) - (Nat.log2 den : Int)) * 30103).fdiv 100000
  let below (k : Int) : Bool :=
    match k with
    | .ofNat n => num < den * Nat.pow 10 n
    | .negSucc n => num * Nat.pow 10 (n + 1) < den
  ([estimate - 1, estimate, estimate + 1, estimate + 2].find? below).getD (estimate + 3)

def step (place : Int) : Nat × Nat :=
  match place with
  | .ofNat n => (Nat.pow 10 n, 1)
  | .negSucc n => (1, Nat.pow 10 (n + 1))

def onGrid? (i : Interval) (place : Int) : Option Nat :=
  let (unit, denom) := step place
  let lower := i.value * denom / (i.den * unit)
  let rest := i.value * denom % (i.den * unit)
  let inside (n : Nat) : Bool := i.contains (n * unit) denom
  match inside lower && lower != 0, inside (lower + 1) with
  | true, true =>
    let twice := 2 * rest
    let full := i.den * unit
    some (if twice < full || (twice == full && lower % 2 == 0) then lower else lower + 1)
  | true, false => some lower
  | false, true => some (lower + 1)
  | false, false => none

def stripZeros : Nat → Decimal → Decimal
  | 0, d => d
  | fuel + 1, d => if d.digits % 10 = 0 then stripZeros fuel ⟨d.digits / 10, d.exponent + 1⟩ else d

/-- The fewest digits that round to a positive finite number, nearest to it among these. -/
def shortest (mantissa : Nat) (exponent : Int) : Decimal :=
  let i := Interval.of mantissa exponent
  let top := magnitude i.value i.den
  let found := (List.range 17).findSome? fun n =>
    let place := top - (n + 1 : Nat)
    (onGrid? i place).map fun digits => stripZeros 20 ⟨digits, place⟩
  found.getD ⟨0, 0⟩

def digitChars (n : Nat) : List Char := Nat.toDigits 10 n

def pointed (digits : List Char) (exponent : Int) : List Char × List Char :=
  match exponent with
  | .ofNat n => (digits ++ List.replicate n '0', [])
  | .negSucc n =>
    let places := n + 1
    if digits.length ≤ places then
      (['0'], List.replicate (places - digits.length) '0' ++ digits)
    else (digits.take (digits.length - places), digits.drop (digits.length - places))

def positionalChars (d : Decimal) : List Char :=
  match pointed (digitChars d.digits) d.exponent with
  | (whole, []) => whole
  | (whole, fraction) => whole ++ '.' :: fraction

def exponentChars (d : Decimal) : List Char :=
  let digits := digitChars d.digits
  let power := d.exponent + (digits.length - 1 : Nat)
  let head :=
    match digits with
    | [] => []
    | [c] => [c]
    | c :: rest => c :: '.' :: rest
  let sign := if power < 0 then '-' else '+'
  head ++ 'e' :: sign :: digitChars power.natAbs

def pointPlace (d : Decimal) : Int := d.exponent + (digitChars d.digits).length

/-- Positional from `0.00001` up to below `10 ^ 16`, with a fraction always shown; else an exponent. -/
def scientificChars (d : Decimal) : List Char :=
  if -5 < d.pointPlace && d.pointPlace ≤ 16 then
    match pointed (digitChars d.digits) d.exponent with
    | (whole, []) => whole ++ ['.', '0']
    | (whole, fraction) => whole ++ '.' :: fraction
  else d.exponentChars

end Decimal

namespace Binary64

def signed (negative : Bool) (text : List Char) : String :=
  .ofList (if negative then '-' :: text else text)

def positional : Binary64 → String
  | .finite negative mantissa exponent =>
    signed negative (if mantissa = 0 then ['0'] else (Decimal.shortest mantissa exponent).positionalChars)
  | .infinite negative => signed negative ['i', 'n', 'f']
  | .nan => "NaN"

def scientific? : Binary64 → Option String
  | .finite negative mantissa exponent =>
    some (signed negative
      (if mantissa = 0 then ['0', '.', '0'] else (Decimal.shortest mantissa exponent).scientificChars))
  | _ => none

end Binary64

end ComponentCompiler
