import KanaScript.Number.Basic

/-! Numeral words.  Digit morphemes are joined by `グ`, which multiplies, and by `ド`, which adds what
stands before it to the sum.  A number is written in base nine, each place as a product of nines and
its digit. -/

namespace KanaScript.Numeral

/-- The digit morphemes of zero to nine. -/
def digitWords : List (List Char) :=
  ["ゼゼソ".toList, "パパン".toList, "ドググ".toList, "グシギ".toList, "ズゴゴ".toList, "ズガギ".toList,
    "ギブグ".toList, "ゲズン".toList, "ゲギド".toList, "バギン".toList]

inductive Morpheme
  | digit (value : Nat)
  | add
  | multiply
deriving DecidableEq

/-- The digit that `cs` starts with. -/
def digit? (cs : List Char) : Option Nat :=
  digitWords.findIdx? fun word => word.isPrefixOf cs

/-- The morphemes of a word, a digit before a connective where both fit. -/
def morphemes : List Char → Option (List Morpheme)
  | [] => some []
  | c :: cs =>
    match digit? (c :: cs) with
    | some value => (morphemes (cs.drop 2)).map (.digit value :: ·)
    | none =>
      if c = 'ド' then (morphemes cs).map (.add :: ·)
      else if c = 'グ' then (morphemes cs).map (.multiply :: ·)
      else none
termination_by cs => cs.length
decreasing_by all_goals simp only [List.length_drop, List.length_cons]; omega

/-- A number that a script can hold. -/
def within (n : Nat) : Option Nat := if n ≤ Number.maxInt then some n else none

/-- The value of morphemes after a sum `total` and a pending product.  Two digits need a connective
between them and `multiply` needs a digit after it. -/
def evaluate (total : Nat) (product : Option Nat) : List Morpheme → Option Nat
  | [] => within (total + product.getD 0)
  | .digit value :: rest =>
    if product.isSome then none else evaluate total (some value) rest
  | .multiply :: .digit value :: rest =>
    match within (product.getD 1 * value) with
    | some scaled => evaluate total (some scaled) rest
    | none => none
  | .multiply :: _ => none
  | .add :: rest =>
    match within (total + product.getD 0) with
    | some sum => evaluate sum none rest
    | none => none

/-- The value of a numeral word. -/
def read? (word : List Char) : Option Nat :=
  if word.isEmpty then none else (morphemes word).bind (evaluate 0 none)

def digitWord (value : Nat) : List Char := digitWords.getD value []

/-- The base nine digits of `n`, units first. -/
def base9 (n : Nat) : List Nat :=
  if n = 0 then [] else n % 9 :: base9 (n / 9)

/-- The word of `value * 9 ^ power`. -/
def term (power value : Nat) : List Char :=
  if power = 0 then digitWord value
  else
    let factors := List.replicate power (digitWord 9)
    ['グ'].intercalate (if value = 1 then factors else factors ++ [digitWord value])

/-- The numeral word of `n`. -/
def spell (n : Nat) : List Char :=
  if n = 0 then digitWord 0
  else
    let places := (base9 n).zipIdx.reverse.filter fun place => place.1 ≠ 0
    ['ド'].intercalate (places.map fun place => term place.2 place.1)

end KanaScript.Numeral
