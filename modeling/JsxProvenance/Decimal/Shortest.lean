/-!
The shortest decimal of a binary floating-point number: the fewest digits that read back as the
same number, and of those the nearest. A positive number is `m · 2^q`, and the decimals that read
back are those between the midpoints to its two neighbours, ends included if `m` is even.
-/

namespace JsxProvenance.Decimal

/-- A positive binary number `mantissa · 2^exponent`. The gap below it can be half of that above. -/
structure Binary where
  mantissa : Nat
  exponent : Int
  narrowBelow : Bool := false
  deriving DecidableEq, Repr, Inhabited

/-- A positive fraction. -/
structure Fraction where
  numerator : Nat
  denominator : Nat
  deriving DecidableEq, Repr, Inhabited

def scaled (n : Nat) (exponent : Int) : Fraction :=
  if 0 ≤ exponent then ⟨n * Nat.pow 2 exponent.toNat, 1⟩ else ⟨n, Nat.pow 2 (-exponent).toNat⟩

def decimal (n : Nat) (exponent : Int) : Fraction :=
  if 0 ≤ exponent then ⟨n * Nat.pow 10 exponent.toNat, 1⟩ else ⟨n, Nat.pow 10 (-exponent).toNat⟩

namespace Fraction

/-- Whether the first fraction is less than the second. -/
def lt (a b : Fraction) : Bool :=
  a.numerator * b.denominator < b.numerator * a.denominator

/-- Whether the first fraction is at most the second. -/
def le (a b : Fraction) : Bool :=
  a.numerator * b.denominator ≤ b.numerator * a.denominator

def distance (a b : Fraction) : Fraction :=
  let left := a.numerator * b.denominator
  let right := b.numerator * a.denominator
  ⟨(left - right) + (right - left), a.denominator * b.denominator⟩

end Fraction

namespace Binary

/-- The number itself, in quarters of its last place. -/
def value (b : Binary) : Fraction :=
  scaled (4 * b.mantissa) (b.exponent - 2)

def low (b : Binary) : Fraction :=
  scaled (if b.narrowBelow then 4 * b.mantissa - 1 else 4 * b.mantissa - 2) (b.exponent - 2)

def high (b : Binary) : Fraction :=
  scaled (4 * b.mantissa + 2) (b.exponent - 2)

def readsBack (b : Binary) (f : Fraction) : Bool :=
  if b.mantissa % 2 = 0 then b.low.le f && f.le b.high else b.low.lt f && f.lt b.high

/-- The number of decimal places before the point, one more for each further power of ten. The
first argument bounds the search, the second is a lower bound of the answer. -/
def magnitude (b : Binary) : Nat → Int → Int
  | 0, k => k
  | fuel + 1, k => if b.value.lt (decimal 1 k) then k else b.magnitude fuel (k + 1)

/-- The decimal below the number with its last digit at a power of ten. -/
def floorAt (b : Binary) (place : Int) : Nat :=
  let unit := decimal 1 place
  b.value.numerator * unit.denominator / (b.value.denominator * unit.numerator)

/-- The nearest decimal that reads back and has its last digit at a power of ten. An exact tie goes
to the even digit. -/
def nearestAt? (b : Binary) (place : Int) : Option Nat :=
  let below := b.floorAt place
  let above := below + 1
  let fits (n : Nat) : Bool := b.readsBack (decimal n place)
  let gap (n : Nat) : Fraction := (decimal n place).distance b.value
  match fits below, fits above with
  | true, true =>
      if (gap below).lt (gap above) then some below
      else if (gap above).lt (gap below) then some above
      else if below % 2 = 0 then some below
      else some above
  | true, false => some below
  | false, true => some above
  | false, false => none

/-- The shortest decimal that reads back, as digits and the place of the last of them. The first
argument bounds the number of further digits. -/
def shortestFrom (b : Binary) (top : Int) : Nat → Nat → Nat × Int
  | 0, digits => (b.floorAt (top - digits), top - digits)
  | fuel + 1, digits =>
      match b.nearestAt? (top - digits) with
      | some n => (n, top - digits)
      | none => b.shortestFrom top fuel (digits + 1)

/-- The shortest decimal that reads back, as digits and the place of the last of them. -/
def shortest (b : Binary) : Nat × Int :=
  b.shortestFrom (b.magnitude 700 (-330)) 17 1

end Binary

/-- The number without zeros at its end, and the place of its last digit. -/
def dropZeros : Nat → Nat → Int → Nat × Int
  | 0, n, place => (n, place)
  | fuel + 1, n, place =>
      if n % 10 = 0 && n ≠ 0 then dropZeros fuel (n / 10) (place + 1) else (n, place)

/-- What is special about a way to write numbers. -/
structure Layout where
  /-- The least power of ten of a leading digit that is written without an exponent. -/
  leastFixed : Int
  /-- The least power of ten of a leading digit that is written with an exponent again. -/
  leastScientific : Int
  /-- The least number of digits of an exponent. -/
  exponentDigits : Nat

/-- Numbers from a ten-thousandth up to ten to the sixteenth are written in full. -/
def plainLayout : Layout := ⟨-4, 16, 2⟩

/-- The digits of a number, at least as many as asked for. -/
def paddedDigits (count n : Nat) : List Char :=
  let digits := Nat.toDigits 10 n
  List.replicate (count - digits.length) '0' ++ digits

/-- The text of a positive decimal with its last digit at a power of ten. -/
def Layout.write (l : Layout) (n : Nat) (place : Int) : List Char :=
  let digits := Nat.toDigits 10 n
  let lead : Int := place + digits.length - 1
  if lead < l.leastFixed || l.leastScientific ≤ lead then
    let rest := digits.drop 1
    let sign := if lead < 0 then '-' else '+'
    digits.take 1 ++ (if rest.isEmpty then [] else '.' :: rest)
      ++ 'e' :: sign :: paddedDigits l.exponentDigits lead.natAbs
  else if 0 ≤ place then
    digits ++ List.replicate place.toNat '0' ++ ['.', '0']
  else
    let padded := List.replicate ((-lead).toNat) '0' ++ digits
    let whole := padded.length - (-place).toNat
    padded.take whole ++ '.' :: padded.drop whole

/-- The binary number of a positive finite float, from its bits. -/
def Binary.ofBits (bits : Nat) : Binary :=
  let fraction : Nat := bits % Nat.pow 2 52
  let field : Nat := bits / Nat.pow 2 52 % Nat.pow 2 11
  if field = 0 then ⟨fraction, -1074, false⟩
  else ⟨Nat.pow 2 52 + fraction, (field : Int) - 1075, fraction = 0 && 1 < field⟩

def Layout.text (l : Layout) (f : Float) : String :=
  let bits := f.toBits.toNat
  let magnitude := bits % Nat.pow 2 63
  let sign := if Nat.pow 2 63 ≤ bits then "-" else ""
  let inf := 2047 * Nat.pow 2 52
  if inf < magnitude then "nan"
  else if magnitude = inf then sign ++ "inf"
  else if magnitude = 0 then sign ++ "0.0"
  else
    let short := (Binary.ofBits magnitude).shortest
    let (n, place) := dropZeros 20 short.1 short.2
    sign ++ String.ofList (l.write n place)

/-- The text of a float in the plain layout. -/
def floatText (f : Float) : String :=
  plainLayout.text f

end JsxProvenance.Decimal
