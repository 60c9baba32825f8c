/-! ASCII identifiers: a letter or an underscore, then letters, digits and underscores. -/

namespace KanaScript.Text

def startsName (c : Char) : Bool := c.isAlpha || c == '_'

def continuesName (c : Char) : Bool := c.isAlphanum || c == '_'

def isIdentifier : List Char → Bool
  | [] => false
  | c :: cs => startsName c && cs.all continuesName

theorem startsName_iff {c : Char} :
    startsName c = true ↔ ('A' ≤ c ∧ c ≤ 'Z') ∨ ('a' ≤ c ∧ c ≤ 'z') ∨ c = '_' := by
  show (decide ('A'.val ≤ c.val ∧ c.val ≤ 'Z'.val) ||
    (decide ('a'.val ≤ c.val) && decide (c.val ≤ 'z'.val)) || c == '_') = true ↔ _
  simp only [Bool.or_eq_true, Bool.and_eq_true, decide_eq_true_eq, beq_iff_eq, Char.le_def, or_assoc]

/-- A name starts with a character above the digits and within ASCII. -/
theorem lt_of_startsName {c : Char} (h : startsName c = true) : 64 < c.toNat ∧ c.toNat < 128 := by
  have hletter := startsName_iff.mp h
  simp only [Char.le_def, UInt32.le_iff_toNat_le, Char.reduceVal, UInt32.reduceToNat] at hletter
  show 64 < c.val.toNat ∧ c.val.toNat < 128
  rcases hletter with hupper | hlower | rfl
  · omega
  · omega
  · decide

end KanaScript.Text
