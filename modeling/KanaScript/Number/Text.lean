import KanaScript.Number.Double

/-! The decimal text of a double.  A whole number is written with all its digits and `.0`; any other
number with the fewest decimal places that read back to it, and never with an exponent. -/

namespace KanaScript.Double

-- powers are those of the core library, whatever else is imported
local instance (priority := 2000) : Pow Nat Nat := ⟨Nat.pow⟩

/-- The numbers that read back to one double, scaled so that its ends and its middle are whole. -/
structure Interval where
  low : Nat
  middle : Nat
  high : Nat
  /-- The ends themselves read back. -/
  closed : Bool
  /-- What the other fields are to be divided by. -/
  scale : Nat

/-- The interval of `mantissa / 2 ^ shift`.  Right above a power of two the lower neighbour is only
half as far away; the doubles at the least exponent are evenly spaced. -/
def interval (mantissa shift : Nat) : Interval where
  low := 4 * mantissa - (if mantissa = 2 ^ (52 : Nat) && shift < 1074 then 1 else 2)
  middle := 4 * mantissa
  high := 4 * mantissa + 2
  closed := mantissa % 2 == 0
  scale := 4 * 2 ^ shift

/-- Whether `n / 10 ^ places` reads back. -/
def Interval.holds (i : Interval) (places n : Nat) : Bool :=
  let point := n * i.scale
  let low := i.low * 10 ^ places
  let high := i.high * 10 ^ places
  if i.closed then low ≤ point && point ≤ high else low < point && point < high

/-- Of the two neighbours of the middle among the multiples of `1 / 10 ^ places`, the one that reads
back; of two that do the nearer, and of two as near the larger. -/
def Interval.decimal? (i : Interval) (places : Nat) : Option Nat :=
  let middle := i.middle * 10 ^ places
  let below := middle / i.scale
  let above := below + 1
  match i.holds places below, i.holds places above with
  | true, true =>
    if middle - below * i.scale < above * i.scale - middle then some below else some above
  | true, false => some below
  | false, true => some above
  | false, false => none

/-- The first number of places from `places` on, at most `fuel` more, at which a decimal reads back,
with that decimal. -/
def Interval.fewestPlaces (i : Interval) (places : Nat) : Nat → Nat × Nat
  | 0 => (places, (i.decimal? places).getD 0)
  | fuel + 1 =>
    match i.decimal? places with
    | some n => (places, n)
    | none => fewestPlaces i (places + 1) fuel

/-- The digits of `n / 10 ^ places`, with a point before the last `places` of them. -/
def pointed (n places : Nat) : String :=
  let fraction := Nat.repr (n % 10 ^ places)
  Nat.repr (n / 10 ^ places) ++ "." ++ "".pushn '0' (places - fraction.length) ++ fraction

/-- The text of `mantissa * 2 ^ exponent`. -/
def magnitudeText (mantissa : Nat) (exponent : Int) : String :=
  let shift := (-exponent).toNat
  if 0 ≤ exponent then Nat.repr (mantissa * 2 ^ exponent.toNat) ++ ".0"
  else if mantissa % 2 ^ shift = 0 then Nat.repr (mantissa / 2 ^ shift) ++ ".0"
  else
    let (places, n) := (interval mantissa shift).fewestPlaces 1 shift
    pointed n places

def text (x : Double) : String :=
  match x.parts with
  | .nan => "NaN"
  | .infinite negative => if negative then "-inf" else "inf"
  | .finite negative mantissa exponent =>
    (if negative then "-" else "") ++ magnitudeText mantissa exponent

end KanaScript.Double
