/-! The digits that numbers are written with, in decimal and in hexadecimal. -/

namespace KanaScript.Text

theorem isDigit_of_mem_repr {n : Nat} {c : Char} (h : c ∈ (Nat.repr n).toList) :
    c.isDigit = true := by
  rw [Nat.toList_repr] at h
  exact Nat.isDigit_of_mem_toDigits (by decide) (by decide) h

/-- A whole number is written with digits and perhaps a sign. -/
theorem mem_intRepr {n : Int} {c : Char} (h : c ∈ n.repr.toList) : c.isDigit = true ∨ c = '-' := by
  rw [Int.repr_eq_if] at h
  split at h
  · exact .inl (isDigit_of_mem_repr h)
  · rw [String.toList_append, List.mem_append] at h
    rcases h with h | h
    · exact .inr (by simpa using h)
    · exact .inl (isDigit_of_mem_repr h)

section Hexadecimal

/-- The value of a hexadecimal digit. -/
def hexDigit (c : Char) : Nat := if c.isDigit then c.toNat - '0'.toNat else c.toNat - 'a'.toNat + 10

/-- The value of hexadecimal digits. -/
def hexValue (digits : List Char) : Nat := digits.foldl (fun value c => 16 * value + hexDigit c) 0

theorem digitChar_hex : ∀ n < 16, hexDigit n.digitChar = n ∧
    n.digitChar ∉ ['\x7d', '\n', '\r'] := by decide

theorem hexValue_toDigits (n : Nat) : hexValue (Nat.toDigits 16 n) = n := by
  induction n using Nat.strongRecOn with
  | _ n ih =>
    rcases Nat.lt_or_ge n 16 with hlt | hge
    · rw [Nat.toDigits_of_lt_base hlt]
      simp [hexValue, (digitChar_hex n hlt).1]
    · have hlast := (digitChar_hex (n % 16) (Nat.mod_lt n (by decide))).1
      have hfront := ih (n / 16) (by omega)
      unfold hexValue at hfront ⊢
      rw [Nat.toDigits_of_base_le (by decide) hge, List.foldl_append, hfront]
      simp only [List.foldl_cons, List.foldl_nil, hlast]
      omega

/-- No hexadecimal digit is a brace or a line end. -/
theorem not_mem_toDigits_hex (n : Nat) {c : Char} (hc : c ∈ ['\x7d', '\n', '\r']) :
    c ∉ Nat.toDigits 16 n := by
  induction n using Nat.strongRecOn with
  | _ n ih =>
    rcases Nat.lt_or_ge n 16 with hlt | hge
    · rw [Nat.toDigits_of_lt_base hlt, List.mem_singleton]
      rintro rfl
      exact (digitChar_hex n hlt).2 hc
    · rw [Nat.toDigits_of_base_le (by decide) hge, List.mem_append, List.mem_singleton]
      rintro (hfront | rfl)
      · exact ih (n / 16) (by omega) hfront
      · exact (digitChar_hex (n % 16) (Nat.mod_lt n (by decide))).2 hc

end Hexadecimal

end KanaScript.Text
