import KanaScript.Number.Double
import Mathlib.Algebra.Order.Field.Power
import Mathlib.Tactic.FieldSimp
import Mathlib.Tactic.Linarith
import Mathlib.Tactic.NormNum
import Mathlib.Tactic.Positivity
import Mathlib.Tactic.Ring

/-! Rounding to doubles.  A number that is not negative rounds to the nearest finite double, to the
one with an even mantissa if two are as near, and from a certain number on to infinity.  Each number
rounds to one double at most, and the double of a ratio is the one that the ratio rounds to. -/

namespace KanaScript.Double

section Values

/-- The number that a finite double is. -/
def value? (x : Double) : Option ℚ :=
  match x.parts with
  | .finite negative mantissa exponent =>
    some ((if negative then -1 else 1) * (mantissa * 2 ^ exponent))
  | _ => none

/-- From here on, halfway between the largest finite double and the next power of two, numbers round
to infinity. -/
def overflow : ℚ := (2 ^ 53 - 1 / 2) * 2 ^ (971 : Int)

/-- The number `q`, which is not negative, rounds to `x`. -/
inductive Rounds (q : ℚ) (x : Double) : Prop
  | finite {mantissa : Nat} {exponent : Int}
      (parts : x.parts = .finite false mantissa exponent) (small : q < overflow)
      (nearest : ∀ (y : Double) (value : ℚ), y.value? = some value →
        |q - mantissa * 2 ^ exponent| ≤ |q - value|)
      (even : ∀ (y : Double) (value : ℚ), y.value? = some value →
        value ≠ mantissa * 2 ^ exponent → |q - value| = |q - mantissa * 2 ^ exponent| →
        mantissa % 2 = 0)
  | infinite (parts : x.parts = .infinite false) (large : overflow ≤ q)

end Values

section Bits

/-- The bits of the positive infinity.  Those of the finite doubles with a positive sign are
below. -/
def infinityBits : Nat := 2047 * 2 ^ 52

def mantissaOf (bits : Nat) : Nat := if bits / 2 ^ 52 = 0 then bits else 2 ^ 52 + bits % 2 ^ 52

/-- The number that bits below `infinityBits` stand for. -/
def magnitude (bits : Nat) : ℚ :=
  mantissaOf bits * 2 ^ (leastExponent + (bits / 2 ^ 52 - 1 : Nat))

theorem toNat_toUInt64 {bits : Nat} (h : bits ≤ infinityBits) : bits.toUInt64.toNat = bits := by
  rw [Nat.toUInt64_eq, UInt64.toNat_ofNat']
  apply Nat.mod_eq_of_lt
  unfold infinityBits at h
  omega

theorem parts_of_lt {x : Double} (h : x.bits.toNat < infinityBits) :
    x.parts = .finite false (mantissaOf x.bits.toNat)
      (leastExponent + (x.bits.toNat / 2 ^ 52 - 1 : Nat)) := by
  unfold parts mantissaOf
  unfold infinityBits at h
  generalize x.bits.toNat = bits at h
  have hsign : bits / 2 ^ 63 = 0 := by omega
  have hbiased : bits / 2 ^ 52 % 2 ^ 11 = bits / 2 ^ 52 := by omega
  have hfinite : bits / 2 ^ 52 ≠ 2047 := by omega
  dsimp only
  rw [hsign, hbiased, if_neg hfinite]
  by_cases hzero : bits / 2 ^ 52 = 0
  · have hfraction : bits % 2 ^ 52 = bits := by omega
    rw [if_pos hzero, if_pos hzero, hfraction, hzero]
    rfl
  · rw [if_neg hzero, if_neg hzero]
    rfl

theorem parts_of_eq {x : Double} (h : x.bits.toNat = infinityBits) : x.parts = .infinite false := by
  unfold parts
  rw [h]
  rfl

/-- Bits beyond those of infinity say that the double is negative or no number. -/
theorem parts_of_gt {x : Double} (h : infinityBits < x.bits.toNat) :
    x.parts = .nan ∨ x.parts = .infinite true ∨ ∃ mantissa exponent,
      x.parts = .finite true mantissa exponent ∧ mantissa < 2 ^ 53 ∧ leastExponent ≤ exponent := by
  have hword := x.bits.toNat_lt
  unfold parts
  unfold infinityBits at h
  generalize x.bits.toNat = bits at h hword
  dsimp only
  by_cases hsign : bits / 2 ^ 63 = 1
  · rw [hsign]
    by_cases hbiased : bits / 2 ^ 52 % 2 ^ 11 = 2047
    · rw [if_pos hbiased]
      by_cases hfraction : bits % 2 ^ 52 = 0
      · rw [if_pos hfraction]
        exact .inr (.inl rfl)
      · rw [if_neg hfraction]
        exact .inl rfl
    · rw [if_neg hbiased]
      by_cases hzero : bits / 2 ^ 52 % 2 ^ 11 = 0
      · rw [if_pos hzero]
        exact .inr (.inr ⟨_, _, rfl, by omega, le_rfl⟩)
      · rw [if_neg hzero]
        exact .inr (.inr ⟨_, _, rfl, by omega, by omega⟩)
  · have hbiased : bits / 2 ^ 52 % 2 ^ 11 = 2047 := by omega
    have hfraction : bits % 2 ^ 52 ≠ 0 := by omega
    rw [if_pos hbiased, if_neg hfraction]
    exact .inl rfl

theorem of_parts_eq_finite {x : Double} {mantissa : Nat} {exponent : Int}
    (h : x.parts = .finite false mantissa exponent) :
    x.bits.toNat < infinityBits ∧ mantissa = mantissaOf x.bits.toNat ∧
      mantissa * 2 ^ exponent = magnitude x.bits.toNat := by
  rcases Nat.lt_trichotomy x.bits.toNat infinityBits with hlt | heq | hgt
  · rw [parts_of_lt hlt] at h
    cases h
    exact ⟨hlt, rfl, rfl⟩
  · rw [parts_of_eq heq] at h
    cases h
  · rcases parts_of_gt hgt with hp | hp | ⟨_, _, hp, -⟩ <;> rw [hp] at h <;> cases h

theorem of_parts_eq_infinite {x : Double} (h : x.parts = .infinite false) :
    x.bits.toNat = infinityBits := by
  rcases Nat.lt_trichotomy x.bits.toNat infinityBits with hlt | heq | hgt
  · rw [parts_of_lt hlt] at h
    cases h
  · exact heq
  · rcases parts_of_gt hgt with hp | hp | ⟨_, _, hp, -⟩ <;> rw [hp] at h <;> cases h

theorem value?_of_lt {x : Double} (h : x.bits.toNat < infinityBits) :
    x.value? = some (magnitude x.bits.toNat) := by
  rw [value?, parts_of_lt h]
  simp [magnitude]

/-- No finite double has more than 53 bits or an exponent below the least. -/
theorem exists_of_value? {x : Double} {value : ℚ} (h : x.value? = some value) :
    ∃ (mantissa : Int) (exponent : Int), |mantissa| < 2 ^ 53 ∧ leastExponent ≤ exponent ∧
      value = mantissa * 2 ^ exponent := by
  rcases Nat.lt_trichotomy x.bits.toNat infinityBits with hlt | heq | hgt
  · rw [value?_of_lt hlt] at h
    cases h
    refine ⟨mantissaOf x.bits.toNat, _, ?_, Int.le_add_of_nonneg_right (Int.natCast_nonneg _), rfl⟩
    have hmantissa : mantissaOf x.bits.toNat < 2 ^ 53 := by
      unfold mantissaOf
      split <;> omega
    rw [abs_of_nonneg (Int.natCast_nonneg _)]
    exact_mod_cast hmantissa
  · rw [value?, parts_of_eq heq] at h
    cases h
  · rcases parts_of_gt hgt with hp | hp | ⟨mantissa, exponent, hp, hlt, hle⟩
    · rw [value?, hp] at h
      cases h
    · rw [value?, hp] at h
      cases h
    · rw [value?, hp] at h
      cases h
      refine ⟨-mantissa, exponent, ?_, hle, by simp⟩
      rw [abs_neg, abs_of_nonneg (Int.natCast_nonneg _)]
      exact_mod_cast hlt

theorem mantissaOf_mod (bits : Nat) : mantissaOf bits % 2 = bits % 2 := by
  unfold mantissaOf
  split <;> omega

/-- A mantissa of 53 bits at an exponent.  The one after the largest is the smallest at the next
exponent. -/
theorem magnitude_eq {k r : Nat} (hk : k = 0 ∨ 2 ^ 52 ≤ r) (hr : r ≤ 2 ^ 53) :
    magnitude (k * 2 ^ 52 + r) = r * 2 ^ (leastExponent + k) := by
  unfold magnitude mantissaOf
  rcases Nat.lt_or_ge r (2 ^ 52) with hsmall | hlarge
  · obtain rfl : k = 0 := by omega
    have hquotient : (0 * 2 ^ 52 + r) / 2 ^ 52 = 0 := by omega
    rw [hquotient, if_pos rfl, Nat.zero_mul, Nat.zero_add]
  · rcases Nat.lt_or_ge r (2 ^ 53) with hbelow | htop
    · have hquotient : (k * 2 ^ 52 + r) / 2 ^ 52 = k + 1 := by omega
      have hmantissa : 2 ^ 52 + (k * 2 ^ 52 + r) % 2 ^ 52 = r := by omega
      rw [hquotient, if_neg (Nat.succ_ne_zero k), hmantissa, Nat.add_sub_cancel]
    · obtain rfl : r = 2 ^ 53 := by omega
      have hquotient : (k * 2 ^ 52 + 2 ^ 53) / 2 ^ 52 = k + 2 := by omega
      have hmantissa : 2 ^ 52 + (k * 2 ^ 52 + 2 ^ 53) % 2 ^ 52 = 2 ^ 52 := by omega
      have hexponent : leastExponent + (k + 2 - 1 : Nat) = leastExponent + k + 1 := by omega
      rw [hquotient, if_neg (Nat.succ_ne_zero _), hmantissa, hexponent,
        zpow_add_one₀ (by norm_num)]
      push_cast
      ring

theorem magnitude_strictMono : StrictMono magnitude := by
  apply strictMono_nat_of_lt_succ
  intro bits
  -- the exponent of the one below is that of both
  obtain ⟨k, r, hk, hr, rfl⟩ : ∃ k r, (k = 0 ∨ 2 ^ 52 ≤ r) ∧ r < 2 ^ 53 ∧
      bits = k * 2 ^ 52 + r := by
    refine ⟨bits / 2 ^ 52 - 1, bits - (bits / 2 ^ 52 - 1) * 2 ^ 52, ?_, ?_, ?_⟩ <;> omega
  rw [magnitude_eq hk hr.le, Nat.add_assoc, magnitude_eq (hk.imp_right Nat.le_succ_of_le) hr]
  have hpos : (0 : ℚ) < 2 ^ (leastExponent + k) := by positivity
  push_cast
  linarith

end Bits

section Nearest

/-- The whole number `r` is the nearest to `t`, and even if another one is as near. -/
structure NearestEven (t : ℚ) (r : Nat) : Prop where
  nearest : ∀ s : Int, |t - r| ≤ |t - s|
  even : ∀ s : Int, s ≠ r → |t - s| = |t - r| → r % 2 = 0

theorem NearestEven.of_lt {t : ℚ} {r : Nat} (h : ∀ s : Int, s ≠ r → |t - r| < |t - s|) :
    NearestEven t r where
  nearest s := by
    by_cases hs : s = r
    · rw [hs, Int.cast_natCast]
    · exact (h s hs).le
  even s hs heq := absurd heq (h s hs).ne'

/-- The nearest whole number to one between `f` and `f + 1`. -/
theorem nearestEven_floor_add (f : Nat) {ρ : ℚ} (hnonneg : 0 ≤ ρ) (hlt : ρ < 1) :
    NearestEven (f + ρ)
      (if ρ < 1 / 2 then f else if ρ = 1 / 2 then f + f % 2 else f + 1) := by
  by_cases hsmall : ρ < 1 / 2
  · rw [if_pos hsmall]
    refine .of_lt fun s hs => ?_
    rw [add_sub_cancel_left, abs_of_nonneg hnonneg, lt_abs]
    rcases lt_or_gt_of_ne hs with hs | hs
    · have hs : (s : ℚ) + 1 ≤ f := by exact_mod_cast hs
      exact .inl (by linarith)
    · have hs : (f : ℚ) + 1 ≤ s := by exact_mod_cast hs
      exact .inr (by linarith)
  by_cases hhalf : ρ = 1 / 2
  · rw [if_neg hsmall, if_pos hhalf]
    have hr : |(f : ℚ) + ρ - (f + f % 2 : Nat)| = 1 / 2 := by
      rcases Nat.mod_two_eq_zero_or_one f with hf | hf
      · rw [hf, hhalf]
        norm_num
      · rw [hf, hhalf]
        push_cast
        rw [add_sub_add_left_eq_sub]
        norm_num
    refine ⟨fun s => ?_, fun _ _ _ => by omega⟩
    rw [hr, le_abs]
    rcases le_or_gt s f with hs | hs
    · have hs : (s : ℚ) ≤ f := by exact_mod_cast hs
      exact .inl (by linarith)
    · have hs : (f : ℚ) + 1 ≤ s := by exact_mod_cast hs
      exact .inr (by linarith)
  · rw [if_neg hsmall, if_neg hhalf]
    have hlarge : 1 / 2 < ρ := lt_of_le_of_ne (not_lt.mp hsmall) (Ne.symm hhalf)
    refine .of_lt fun s hs => ?_
    have hr : |(f : ℚ) + ρ - (f + 1 : Nat)| = 1 - ρ := by
      push_cast
      rw [add_sub_add_left_eq_sub, abs_sub_comm, abs_of_pos (by linarith)]
    rw [hr, lt_abs]
    rcases lt_or_gt_of_ne hs with hs | hs
    · have hs : (s : ℚ) ≤ f := by exact_mod_cast Int.lt_add_one_iff.mp (by exact_mod_cast hs)
      exact .inl (by linarith)
    · have hs : (f : ℚ) + 1 + 1 ≤ s := by exact_mod_cast hs
      exact .inr (by linarith)

theorem nearestEven_roundToEven (a : Nat) {b : Nat} (hb : 0 < b) :
    NearestEven (a / b) (roundToEven a b) := by
  have hpos : (0 : ℚ) < b := by exact_mod_cast hb
  have hratio : (a / b : ℚ) = (a / b : Nat) + (a % b : Nat) / b := by
    have hdiv : (b * (a / b : Nat) + (a % b : Nat) : ℚ) = a := by
      exact_mod_cast Nat.div_add_mod a b
    rw [← hdiv]
    field_simp
  have hlt : ((a % b : Nat) : ℚ) / b < 1 := by
    rw [div_lt_one hpos]
    exact_mod_cast Nat.mod_lt a hb
  have hnearest := nearestEven_floor_add (a / b) (by positivity) hlt
  have hsmall : ((a % b : Nat) : ℚ) / b < 1 / 2 ↔ 2 * (a % b) < b := by
    rw [div_lt_div_iff₀ hpos two_pos, one_mul, mul_comm]
    exact_mod_cast Iff.rfl
  have hhalf : ((a % b : Nat) : ℚ) / b = 1 / 2 ↔ 2 * (a % b) = b := by
    rw [div_eq_div_iff hpos.ne' two_ne_zero, one_mul, mul_comm]
    exact_mod_cast Iff.rfl
  rw [hratio]
  unfold roundToEven
  simpa only [hsmall, hhalf] using hnearest

theorem NearestEven.le_of_le {t : ℚ} {r s : Nat} (h : NearestEven t r) (hs : t ≤ s) : r ≤ s := by
  by_contra hlt
  have hlt : (s : ℚ) + 1 ≤ r := by exact_mod_cast not_le.mp hlt
  have hnearest := h.nearest s
  rw [Int.cast_natCast, abs_sub_comm, abs_of_nonneg (by linarith), abs_sub_comm,
    abs_of_nonneg (by linarith)] at hnearest
  linarith

theorem NearestEven.le_of_ge {t : ℚ} {r s : Nat} (h : NearestEven t r) (hs : s ≤ t) : s ≤ r := by
  by_contra hlt
  have hlt : (r : ℚ) + 1 ≤ s := by exact_mod_cast not_le.mp hlt
  have hnearest := h.nearest s
  rw [Int.cast_natCast, abs_of_nonneg (by linarith), abs_of_nonneg (by linarith)] at hnearest
  linarith

/-- Half a step below an even number, rounding goes up to it. -/
theorem NearestEven.lt_iff {t : ℚ} {r s : Nat} (h : NearestEven t r) (hs : s % 2 = 0) :
    r < s ↔ t < s - 1 / 2 := by
  constructor
  · intro hlt
    by_contra hge
    have hcast : (r : ℚ) + 1 ≤ s := by exact_mod_cast hlt
    have hnearest := h.nearest s
    rw [Int.cast_natCast, abs_of_nonneg (a := t - r) (by linarith)] at hnearest
    rcases le_total (s : ℚ) t with hst | hst
    · rw [abs_of_nonneg (by linarith)] at hnearest
      linarith
    · rw [abs_of_nonpos (by linarith)] at hnearest
      -- both neighbours are as near, and the lower one is odd
      have hodd : r + 1 = s := by
        have heq : (r : ℚ) + 1 = s := by linarith
        exact_mod_cast heq
      have htie : |t - (s : Int)| = |t - r| := by
        rw [Int.cast_natCast, abs_of_nonpos (by linarith), abs_of_nonneg (by linarith)]
        linarith
      have heven := h.even s (by omega) htie
      omega
  · intro hlt
    by_contra hge
    have hcast : (s : ℚ) ≤ r := by exact_mod_cast not_lt.mp hge
    have hnearest := h.nearest (s - 1)
    push_cast at hnearest
    rw [abs_of_nonpos (a := t - r) (by linarith)] at hnearest
    rcases le_total ((s : ℚ) - 1) t with hst | hst
    · rw [abs_of_nonneg (by linarith)] at hnearest
      linarith
    · rw [abs_of_nonpos (by linarith)] at hnearest
      linarith

end Nearest

section Exponents

theorem scale_spec (n : Nat) {d : Nat} (hd : 0 < d) (exponent : Int) :
    0 < (scale n d exponent).2 ∧
      ((scale n d exponent).1 : ℚ) / (scale n d exponent).2 = n / d / 2 ^ exponent := by
  unfold scale
  split
  · next h =>
    obtain ⟨k, rfl⟩ := Int.eq_ofNat_of_zero_le h
    refine ⟨Nat.mul_pos hd (Nat.two_pow_pos _), ?_⟩
    push_cast
    rw [Int.toNat_natCast, zpow_natCast, div_div]
  · next h =>
    obtain ⟨k, hk⟩ := Int.eq_ofNat_of_zero_le (show 0 ≤ -exponent by omega)
    obtain rfl : exponent = -k := by omega
    refine ⟨hd, ?_⟩
    push_cast
    rw [neg_neg, Int.toNat_natCast, zpow_neg, zpow_natCast, div_inv_eq_mul]
    ring

theorem two_pow_mul (k : Nat) (exponent : Int) :
    (2 ^ k * 2 ^ exponent : ℚ) = 2 ^ (k + exponent) := by
  rw [← zpow_natCast, ← zpow_add₀ two_ne_zero]

theorem two_mul_two_zpow_le {a b : Int} (h : a < b) : (2 * 2 ^ a : ℚ) ≤ 2 ^ b := by
  rw [← zpow_one_add₀ two_ne_zero]
  apply zpow_le_zpow_right₀ one_le_two
  omega

/-- A ratio is within a factor of two of the power of two that the sizes of its parts suggest. -/
theorem ratio_bounds {n d : Nat} (hn : 0 < n) (hd : 0 < d) :
    (2 ^ ((n.log2 : Int) - d.log2 - 1) : ℚ) < n / d ∧
      (n / d : ℚ) < 2 ^ ((n.log2 : Int) - d.log2 + 1) := by
  have hpos : (0 : ℚ) < d := by exact_mod_cast hd
  have hnlow : (2 ^ n.log2 : ℚ) ≤ n := by exact_mod_cast Nat.log2_self_le hn.ne'
  have hnhigh : (n : ℚ) < 2 ^ (n.log2 + 1) := by exact_mod_cast Nat.lt_log2_self
  have hdlow : (2 ^ d.log2 : ℚ) ≤ d := by exact_mod_cast Nat.log2_self_le hd.ne'
  have hdhigh : (d : ℚ) < 2 ^ (d.log2 + 1) := by exact_mod_cast Nat.lt_log2_self
  constructor
  · rw [lt_div_iff₀ hpos]
    calc (2 ^ ((n.log2 : Int) - d.log2 - 1) : ℚ) * d
      _ < 2 ^ ((n.log2 : Int) - d.log2 - 1) * 2 ^ (d.log2 + 1) := by gcongr
      _ = 2 ^ n.log2 := by
        rw [← zpow_natCast, ← zpow_natCast, ← zpow_add₀ two_ne_zero]
        congr 1
        push_cast
        ring
      _ ≤ n := hnlow
  · rw [div_lt_iff₀ hpos]
    calc (n : ℚ)
      _ < 2 ^ (n.log2 + 1) := hnhigh
      _ = 2 ^ ((n.log2 : Int) - d.log2 + 1) * 2 ^ d.log2 := by
        rw [← zpow_natCast, ← zpow_natCast, ← zpow_add₀ two_ne_zero]
        congr 1
        push_cast
        ring
      _ ≤ 2 ^ ((n.log2 : Int) - d.log2 + 1) * d := by gcongr

theorem exponentOf_spec {n d : Nat} (hn : 0 < n) (hd : 0 < d) :
    leastExponent ≤ exponentOf n d ∧ (n / d : ℚ) < 2 ^ 53 * 2 ^ exponentOf n d ∧
      (leastExponent < exponentOf n d → (2 ^ 52 * 2 ^ exponentOf n d : ℚ) ≤ n / d) := by
  obtain ⟨hlow, hhigh⟩ := ratio_bounds hn hd
  unfold exponentOf
  dsimp only
  generalize (n.log2 : Int) - d.log2 = guess at hlow hhigh ⊢
  have hscale := scale_spec n hd guess
  generalize scale n d guess = scaled at hscale
  obtain ⟨a, b⟩ := scaled
  dsimp only at hscale ⊢
  have hlt : a < b ↔ (n / d : ℚ) < 2 ^ guess := by
    rw [← div_lt_one (by positivity : (0 : ℚ) < 2 ^ guess), ← hscale.2,
      div_lt_one (by exact_mod_cast hscale.1)]
    exact_mod_cast Iff.rfl
  -- the exponent without its lower bound has both properties
  obtain ⟨e, he, hlow, hhigh⟩ : ∃ e, (if a < b then guess - 53 else guess - 52) = e ∧
      (2 ^ 52 * 2 ^ e : ℚ) ≤ n / d ∧ (n / d : ℚ) < 2 ^ 53 * 2 ^ e := by
    by_cases h : a < b
    · refine ⟨guess - 53, if_pos h, ?_, ?_⟩
      · rw [two_pow_mul, show ((52 : Nat) : Int) + (guess - 53) = guess - 1 by omega]
        exact hlow.le
      · rw [two_pow_mul, show ((53 : Nat) : Int) + (guess - 53) = guess by omega]
        exact hlt.mp h
    · refine ⟨guess - 52, if_neg h, ?_, ?_⟩
      · rw [two_pow_mul, show ((52 : Nat) : Int) + (guess - 52) = guess by omega]
        exact not_lt.mp fun hsmall => h (hlt.mpr hsmall)
      · rw [two_pow_mul, show ((53 : Nat) : Int) + (guess - 52) = guess + 1 by omega]
        exact hhigh
  rw [he]
  refine ⟨le_max_left _ _, ?_, ?_⟩
  · calc (n / d : ℚ)
      _ < 2 ^ 53 * 2 ^ e := hhigh
      _ ≤ 2 ^ 53 * 2 ^ max leastExponent e := by
        gcongr
        · norm_num
        · exact le_max_right _ _
  · intro hclear
    rw [max_eq_right (by omega)]
    exact hlow

end Exponents

section Rounding

/-- A finite double is a multiple of the unit at an exponent or has less than 53 bits there. -/
theorem grid {y : Double} {value : ℚ} (h : y.value? = some value) (k : Nat) :
    (∃ s : Int, value = s * 2 ^ (leastExponent + k)) ∨
      (k ≠ 0 ∧ value < 2 ^ 52 * 2 ^ (leastExponent + k)) := by
  obtain ⟨mantissa, exponent, hmantissa, hexponent, rfl⟩ := exists_of_value? h
  by_cases hle : leastExponent + k ≤ exponent
  · obtain ⟨j, hj⟩ := Int.eq_ofNat_of_zero_le (Int.sub_nonneg_of_le hle)
    obtain rfl : exponent = j + (leastExponent + k) := by omega
    refine .inl ⟨mantissa * 2 ^ j, ?_⟩
    push_cast
    rw [mul_assoc, two_pow_mul]
  · refine .inr ⟨by omega, ?_⟩
    have hlt : (mantissa : ℚ) < 2 ^ 53 := by exact_mod_cast lt_of_le_of_lt (le_abs_self _) hmantissa
    calc (mantissa : ℚ) * 2 ^ exponent
      _ < 2 ^ 53 * 2 ^ exponent := by gcongr
      _ = 2 ^ (53 + exponent) := two_pow_mul 53 exponent
      _ ≤ 2 ^ (52 + (leastExponent + k)) := by
        apply zpow_le_zpow_right₀ one_le_two
        omega
      _ = 2 ^ 52 * 2 ^ (leastExponent + k) := (two_pow_mul 52 _).symm

variable {q : ℚ} {k r : Nat}

theorem abs_sub_mul_unit (q : ℚ) (s : ℚ) (exponent : Int) :
    |q - s * 2 ^ exponent| = |q / 2 ^ exponent - s| * 2 ^ exponent := by
  have hpos : (0 : ℚ) < 2 ^ exponent := by positivity
  rw [← abs_of_pos hpos, ← abs_mul, abs_of_pos hpos]
  congr 1
  field_simp

/-- The nearest multiple of the unit is the nearest double. -/
theorem nearest_of_nearestEven (h : NearestEven (q / 2 ^ (leastExponent + k)) r)
    (hlow : k = 0 ∨ 2 ^ 52 * 2 ^ (leastExponent + k) ≤ q) {y : Double} {value : ℚ}
    (hvalue : y.value? = some value) :
    |q - r * 2 ^ (leastExponent + k)| ≤ |q - value| ∧
      (value ≠ r * 2 ^ (leastExponent + k) →
        |q - value| = |q - r * 2 ^ (leastExponent + k)| → r % 2 = 0) := by
  have hpos : (0 : ℚ) < 2 ^ (leastExponent + k) := by positivity
  have hmultiple : ∀ s : Int,
      |q - r * 2 ^ (leastExponent + k)| ≤ |q - s * 2 ^ (leastExponent + k)| := by
    intro s
    rw [abs_sub_mul_unit, abs_sub_mul_unit]
    exact mul_le_mul_of_nonneg_right (h.nearest s) hpos.le
  rcases grid hvalue k with ⟨s, rfl⟩ | ⟨hk, hsmall⟩
  · refine ⟨hmultiple s, fun hne heq => ?_⟩
    rw [abs_sub_mul_unit, abs_sub_mul_unit] at heq
    refine h.even s (fun hs => hne ?_) (mul_right_cancel₀ hpos.ne' heq)
    rw [hs, Int.cast_natCast]
  · -- a double with less bits is below the smallest one with all, which is not above `q`
    have hlow := hlow.resolve_left hk
    have hlt : |q - r * 2 ^ (leastExponent + k)| < |q - value| := by
      calc |q - r * 2 ^ (leastExponent + k)|
        _ ≤ |q - (2 ^ 52 : Int) * 2 ^ (leastExponent + k)| := hmultiple _
        _ = q - 2 ^ 52 * 2 ^ (leastExponent + k) := by
          push_cast
          exact abs_of_nonneg (sub_nonneg.mpr hlow)
        _ < q - value := sub_lt_sub_left hsmall q
        _ ≤ |q - value| := le_abs_self _
    exact ⟨hlt.le, fun _ heq => absurd heq hlt.ne'⟩

theorem NearestEven.le_two_pow (h : NearestEven (q / 2 ^ (leastExponent + k)) r)
    (hhigh : q < 2 ^ 53 * 2 ^ (leastExponent + k)) : r ≤ 2 ^ 53 := by
  apply h.le_of_le
  push_cast
  exact (div_le_iff₀ (by positivity)).mpr hhigh.le

theorem NearestEven.two_pow_le (h : NearestEven (q / 2 ^ (leastExponent + k)) r)
    (hlow : k = 0 ∨ 2 ^ 52 * 2 ^ (leastExponent + k) ≤ q) : k = 0 ∨ 2 ^ 52 ≤ r := by
  refine hlow.imp_right fun hlow => h.le_of_ge ?_
  push_cast
  exact (le_div_iff₀ (by positivity)).mpr hlow

/-- The bits reach those of infinity exactly from the overflow on. -/
theorem lt_infinityBits_iff (h : NearestEven (q / 2 ^ (leastExponent + k)) r)
    (hhigh : q < 2 ^ 53 * 2 ^ (leastExponent + k))
    (hlow : k = 0 ∨ 2 ^ 52 * 2 ^ (leastExponent + k) ≤ q) :
    k * 2 ^ 52 + r < infinityBits ↔ q < overflow := by
  have hr := h.le_two_pow hhigh
  have hk := h.two_pow_le hlow
  have hpos : (0 : ℚ) < 2 ^ (971 : Int) := by positivity
  unfold infinityBits overflow
  rcases Nat.lt_trichotomy k 2045 with hsmall | rfl | hlarge
  · have hunit : (2 * 2 ^ (leastExponent + k) : ℚ) ≤ 2 ^ (971 : Int) := by
      apply two_mul_two_zpow_le
      unfold leastExponent
      omega
    generalize (2 : ℚ) ^ (971 : Int) = unit at hpos hunit ⊢
    exact iff_of_true (by omega) (by linarith)
  · have hround := h.lt_iff (s := 2 ^ 53) rfl
    rw [div_lt_iff₀ (by positivity), Nat.cast_pow, Nat.cast_ofNat,
      show leastExponent + (2045 : Nat) = 971 from rfl] at hround
    rw [← hround]
    omega
  · have hunit : (2 * 2 ^ (971 : Int) : ℚ) ≤ 2 ^ (leastExponent + k) := by
      apply two_mul_two_zpow_le
      unfold leastExponent
      omega
    have hlow := hlow.resolve_left (by omega)
    generalize (2 : ℚ) ^ (971 : Int) = unit at hpos hunit ⊢
    exact iff_of_false (by omega) (by linarith)

/-- The double that a mantissa of 53 bits at an exponent makes, infinity where there is none. -/
theorem rounds_of_nearestEven (h : NearestEven (q / 2 ^ (leastExponent + k)) r)
    (hhigh : q < 2 ^ 53 * 2 ^ (leastExponent + k))
    (hlow : k = 0 ∨ 2 ^ 52 * 2 ^ (leastExponent + k) ≤ q) :
    Rounds q ⟨(min (k * 2 ^ 52 + r) infinityBits).toUInt64⟩ := by
  have hword := toNat_toUInt64 (Nat.min_le_right (k * 2 ^ 52 + r) infinityBits)
  have hiff := lt_infinityBits_iff h hhigh hlow
  by_cases hlt : k * 2 ^ 52 + r < infinityBits
  · rw [Nat.min_eq_left hlt.le] at hword ⊢
    have hparts := parts_of_lt (x := ⟨(k * 2 ^ 52 + r).toUInt64⟩) (by rwa [hword])
    have hvalue := magnitude_eq (h.two_pow_le hlow) (h.le_two_pow hhigh)
    rw [hword] at hparts
    unfold magnitude at hvalue
    refine .finite hparts (hiff.mp hlt) ?_ ?_
    · intro y value hy
      rw [hvalue]
      exact (nearest_of_nearestEven h hlow hy).1
    · intro y value hy hne heq
      rw [hvalue] at hne heq
      have heven := (nearest_of_nearestEven h hlow hy).2 hne heq
      rw [mantissaOf_mod]
      omega
  · rw [Nat.min_eq_right (not_lt.mp hlt)] at hword ⊢
    exact .infinite (parts_of_eq hword) (not_lt.mp fun hsmall => hlt (hiff.mpr hsmall))

/-- The double of a ratio is the one that the ratio rounds to. -/
theorem rounds_ofRatio (n : Nat) {d : Nat} (hd : 0 < d) : (ofRatio n d).Rounds (n / d) := by
  unfold ofRatio
  by_cases hn : n = 0
  · subst hn
    have hnearest : NearestEven ((0 : Nat) / d / 2 ^ (leastExponent + (0 : Nat)) : ℚ) 0 := by
      refine .of_lt fun s hs => ?_
      simpa using hs
    rw [if_pos rfl]
    exact rounds_of_nearestEven hnearest (by simp; positivity) (.inl rfl)
  · obtain ⟨hleast, hhigh, hlow⟩ := exponentOf_spec (Nat.pos_of_ne_zero hn) hd
    obtain ⟨hpos, hratio⟩ := scale_spec n hd (exponentOf n d)
    have hnearest := nearestEven_roundToEven (scale n d (exponentOf n d)).1 hpos
    rw [hratio] at hnearest
    obtain ⟨k, hk⟩ := Int.eq_ofNat_of_zero_le (Int.sub_nonneg_of_le hleast)
    rw [if_neg hn]
    dsimp only
    rw [hk, Int.toNat_natCast]
    have hexponent : exponentOf n d = leastExponent + k := by omega
    rw [hexponent] at hhigh hlow hnearest ⊢
    refine rounds_of_nearestEven hnearest hhigh ?_
    rcases Nat.eq_zero_or_pos k with hzero | hpositive
    · exact .inl hzero
    · exact .inr (hlow (by omega))

end Rounding

section Unique

variable {q : ℚ} {x y : Double}

/-- Halfway between two doubles that are no neighbours, one in between is nearer. -/
theorem exists_nearer {bits more : Nat} (hgap : bits + 1 < more) (hmore : more < infinityBits)
    (hmiddle : 2 * q = magnitude bits + magnitude more) :
    ∃ (z : Double) (value : ℚ), z.value? = some value ∧ |q - value| < |q - magnitude bits| := by
  have hword := toNat_toUInt64 (hgap.trans hmore).le
  refine ⟨⟨(bits + 1).toUInt64⟩, _, value?_of_lt (by rw [hword]; exact hgap.trans hmore), ?_⟩
  rw [hword]
  have hbelow := magnitude_strictMono (Nat.lt_succ_self bits)
  have habove := magnitude_strictMono hgap
  rw [abs_of_pos (a := q - magnitude bits) (by linarith), abs_lt]
  constructor <;> linarith

/-- Two doubles that are as near are neighbours, and one of them is odd. -/
theorem Rounds.bits_le (hx : x.Rounds q) (hy : y.Rounds q) : y.bits.toNat ≤ x.bits.toNat := by
  by_contra hnot
  have hlt := Nat.lt_of_not_le hnot
  cases hx with
  | infinite hparts hlarge =>
    rw [of_parts_eq_infinite hparts] at hlt
    cases hy with
    | infinite hparts' => exact absurd (of_parts_eq_infinite hparts') hlt.ne'
    | finite hparts' => exact absurd (of_parts_eq_finite hparts').1 hlt.not_gt
  | finite hparts hsmall hnearest heven =>
    cases hy with
    | infinite hparts' hlarge => exact absurd hsmall (not_lt.mpr hlarge)
    | finite hparts' hsmall' hnearest' heven' =>
      obtain ⟨hbits, hmantissa, hvalue⟩ := of_parts_eq_finite hparts
      obtain ⟨hbits', hmantissa', hvalue'⟩ := of_parts_eq_finite hparts'
      rw [hvalue] at hnearest heven
      rw [hvalue'] at hnearest' heven'
      have hordered := magnitude_strictMono hlt
      have htie : |q - magnitude x.bits.toNat| = |q - magnitude y.bits.toNat| :=
        le_antisymm (hnearest y _ (value?_of_lt hbits')) (hnearest' x _ (value?_of_lt hbits))
      rcases Nat.lt_or_ge (x.bits.toNat + 1) y.bits.toNat with hgap | hnext
      · have hmiddle : 2 * q = magnitude x.bits.toNat + magnitude y.bits.toNat := by
          rcases abs_eq_abs.mp htie with hsame | hopposite
          · linarith
          · linarith
        obtain ⟨z, value, hz, hnearer⟩ := exists_nearer hgap hbits' hmiddle
        exact absurd (hnearest z value hz) (not_le.mpr hnearer)
      · have hfirst := heven y _ (value?_of_lt hbits') hordered.ne' htie.symm
        have hsecond := heven' x _ (value?_of_lt hbits) hordered.ne htie
        rw [hmantissa, mantissaOf_mod] at hfirst
        rw [hmantissa', mantissaOf_mod] at hsecond
        omega

/-- A number rounds to one double at most. -/
theorem Rounds.unique (hx : x.Rounds q) (hy : y.Rounds q) : x = y := by
  have hbits : x.bits = y.bits :=
    UInt64.toNat_inj.mp (Nat.le_antisymm (hy.bits_le hx) (hx.bits_le hy))
  cases x
  cases y
  exact congrArg mk hbits

end Unique

end KanaScript.Double
