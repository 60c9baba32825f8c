/-! Double-precision binary numbers, kept as their 64 bits.  A finite one is a whole mantissa times a
power of two; reading takes the double nearest to a ratio, a half going to the even mantissa. -/

namespace KanaScript

/-- A double, as the 64 bits of its interchange form. -/
structure Double where
  bits : UInt64
deriving DecidableEq

namespace Double

-- powers are those of the core library, whatever else is imported
local instance (priority := 2000) : Pow Nat Nat := ⟨Nat.pow⟩

/-- What the bits of a double say. -/
inductive Parts
  | nan
  | infinite (negative : Bool)
  /-- The number `mantissa * 2 ^ exponent`, negated if `negative`. -/
  | finite (negative : Bool) (mantissa : Nat) (exponent : Int)

/-- The least exponent of a finite double. -/
def leastExponent : Int := -1074

def parts (x : Double) : Parts :=
  let bits := x.bits.toNat
  let negative := bits / 2 ^ (63 : Nat) == 1
  let biased := bits / 2 ^ (52 : Nat) % 2 ^ (11 : Nat)
  let fraction := bits % 2 ^ (52 : Nat)
  if biased = 2047 then
    if fraction = 0 then .infinite negative else .nan
  else if biased = 0 then .finite negative fraction leastExponent
  else .finite negative (2 ^ (52 : Nat) + fraction) (leastExponent + (biased - 1 : Nat))

/-- Whether two doubles are equal as numbers, finite ones in units of the least exponent.  One that
is not a number is equal to nothing, and the two zeros are equal. -/
def same (x y : Double) : Bool :=
  match x.parts, y.parts with
  | .finite a m e, .finite b n f =>
    (a == b || m == 0) &&
      m * 2 ^ (e - leastExponent).toNat == n * 2 ^ (f - leastExponent).toNat
  | .infinite a, .infinite b => a == b
  | _, _ => false

/-- The whole number nearest to `n / d`, a half going to the even one. -/
def roundToEven (n d : Nat) : Nat :=
  let floor := n / d
  let twice := 2 * (n % d)
  if twice < d then floor
  else if twice = d then floor + floor % 2
  else floor + 1

/-- The positive ratio `n / d` scaled by `2 ^ (-exponent)`, as a ratio. -/
def scale (n d : Nat) (exponent : Int) : Nat × Nat :=
  if 0 ≤ exponent then (n, d * 2 ^ exponent.toNat) else (n * 2 ^ (-exponent).toNat, d)

/-- The exponent at which the mantissa of `n / d` has 53 bits, or the least exponent. -/
def exponentOf (n d : Nat) : Int :=
  let guess := (n.log2 : Int) - d.log2
  let (a, b) := scale n d guess
  max leastExponent (if a < b then guess - 53 else guess - 52)

/-- The double nearest to `n / d`, infinity if that is past the largest. -/
def ofRatio (n d : Nat) : Double :=
  if n = 0 then ⟨0⟩
  else
    let exponent := exponentOf n d
    let (a, b) := scale n d exponent
    let bits := (exponent - leastExponent).toNat * 2 ^ (52 : Nat) + roundToEven a b
    ⟨(min bits (2047 * 2 ^ (52 : Nat))).toUInt64⟩

end Double

end KanaScript
