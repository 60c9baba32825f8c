import KanaScript.Number.Text

/-! Number values: whole numbers and doubles. -/

namespace KanaScript

inductive Number
  | int (value : Int)
  | real (value : Double)
deriving DecidableEq

namespace Number

-- powers are those of the core library, whatever else is imported
local instance (priority := 2000) : Pow Nat Nat := ⟨Nat.pow⟩

/-- The largest whole number that a script can write as such. -/
def maxInt : Nat := 2 ^ (63 : Nat) - 1

def text : Number → String
  | int value => value.repr
  | real value => value.text

/-- The value of decimal digits. -/
def digitsValue (digits : List Char) : Nat :=
  digits.foldl (fun value c => 10 * value + (c.toNat - '0'.toNat)) 0

/-- The number written by a run of digits and points that starts with a digit.  Digits alone are a
whole number as far as `maxInt` reaches; anything else is a double, and what follows a second point
does not count. -/
def ofLiteral (literal : List Char) : Number :=
  let whole := literal.takeWhile Char.isDigit
  let rest := literal.drop whole.length
  if rest.isEmpty && digitsValue whole ≤ maxInt then int (digitsValue whole)
  else
    let fraction := (rest.drop 1).takeWhile Char.isDigit
    real (.ofRatio (digitsValue (whole ++ fraction)) (10 ^ fraction.length))

end Number

end KanaScript
