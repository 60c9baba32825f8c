import KanaScript.C.Expression
import KanaScript.Proofs.Number.Rounding
import KanaScript.Proofs.Token.Items

/-! Numbers written with digits and points.  A run of them that starts with a digit is one token.
Digits alone are a whole number as far as those reach; any other run is the double to which its
front up to the second point rounds, and that front is a decimal fraction whatever the run. -/

namespace KanaScript

section Texts

/-- The text writes the number `q`, by digits alone or with a point and digits after it. -/
inductive Writes : List Char → ℚ → Prop
  | whole {digits : List Char} (ne_nil : digits ≠ []) (all : ∀ c ∈ digits, c.isDigit = true) :
      Writes digits (decimalValue digits)
  | pointed {whole fraction : List Char} (ne_nil : whole ≠ [])
      (all : ∀ c ∈ whole, c.isDigit = true) (fractional : ∀ c ∈ fraction, c.isDigit = true) :
      Writes (whole ++ '.' :: fraction)
        (decimalValue whole + decimalValue fraction / 10 ^ fraction.length)

/-- A reader of decimal fractions: it takes every text that writes a number, and answers with the
double to which the number rounds. -/
def ReadsDecimals (read : List Char → Option Double) : Prop :=
  ∀ text q, Writes text q → ∃ x, read text = some x ∧ x.Rounds q

/-- The longest part of `run`, from its beginning on, that has at most one point. -/
structure IsFront (front run : List Char) : Prop where
  isPrefix : front <+: run
  count_le : front.count '.' ≤ 1
  longest : ∀ other, other <+: run → other.count '.' ≤ 1 → other <+: front

/-- The text of `n` in decimal, which has no leading zero. -/
structure IsCanonical (n : Nat) (text : List Char) : Prop where
  ne_nil : text ≠ []
  all : ∀ c ∈ text, c.isDigit = true
  value : decimalValue text = n
  leading : text.head? = some '0' → text = ['0']

end Texts

section Values

theorem decimalValue_append (front back : List Char) :
    decimalValue (front ++ back) =
      decimalValue front * 10 ^ back.length + decimalValue back := by
  unfold decimalValue
  rw [List.reverse_append, List.map_append, Nat.ofDigits_append, List.length_map,
    List.length_reverse, Nat.add_comm, Nat.mul_comm]

/-- A fraction is a ratio of whole numbers. -/
theorem ratio_eq (whole fraction : List Char) :
    (Number.digitsValue (whole ++ fraction) : ℚ) / (10 ^ fraction.length : Nat) =
      decimalValue whole + decimalValue fraction / 10 ^ fraction.length := by
  rw [digitsValue_eq, decimalValue_append]
  push_cast
  field_simp

theorem rounds_fraction (whole fraction : List Char) :
    (Double.ofRatio (Number.digitsValue (whole ++ fraction)) (10 ^ fraction.length)).Rounds
      (decimalValue whole + decimalValue fraction / 10 ^ fraction.length) := by
  rw [← ratio_eq]
  exact Double.rounds_ofRatio _ (Nat.pow_pos (by decide))

theorem rounds_whole (digits : List Char) :
    (Double.ofRatio (Number.digitsValue digits) 1).Rounds (decimalValue digits) := by
  rw [digitsValue_eq]
  have h := Double.rounds_ofRatio (decimalValue digits) Nat.one_pos
  rwa [Nat.cast_one, div_one] at h

theorem head?_toDigits {n : Nat} (hn : 0 < n) : (Nat.toDigits 10 n).head? ≠ some '0' := by
  induction n using Nat.strong_induction_on with
  | _ n ih =>
  rcases Nat.lt_or_ge n 10 with hlt | hge
  · rw [Nat.toDigits_of_lt_base hlt, List.head?_singleton, ne_eq, Option.some_inj]
    intro hzero
    have hcode := Nat.toNat_digitChar_of_lt_ten hlt
    rw [hzero, show '0'.toNat = 48 from rfl] at hcode
    omega
  · have hfront : Nat.toDigits 10 (n / 10) ≠ [] := Nat.toDigits_ne_nil
    rw [Nat.toDigits_of_base_le (by decide) hge, List.head?_append_of_ne_nil _ hfront]
    exact ih (n / 10) (by omega) (by omega)

theorem isCanonical_repr (n : Nat) : IsCanonical n (Nat.repr n).toList := by
  rw [Nat.toList_repr]
  refine ⟨Nat.toDigits_ne_nil, fun c hc => ?_, ?_, fun hzero => ?_⟩
  · exact Nat.isDigit_of_mem_toDigits (by decide) (by decide) hc
  · rw [← digitsValue_eq]
    exact Nat.ofDigitChars_toDigits (by decide) (by decide)
  · rcases Nat.eq_zero_or_pos n with rfl | hpos
    · rfl
    · exact absurd hzero (head?_toDigits hpos)

end Values

section Runs

variable {whole fraction tail : List Char}

theorem count_point (h : ∀ c ∈ whole, c.isDigit = true) : whole.count '.' = 0 :=
  List.count_eq_zero.mpr fun hmem => absurd (h '.' hmem) (by decide)

/-- Digits have no point, so they are their own front. -/
theorem isFront_digits (h : ∀ c ∈ whole, c.isDigit = true) : IsFront whole whole :=
  ⟨List.prefix_rfl, by simp [count_point h], fun _ hother _ => hother⟩

/-- The front ends at the second point. -/
theorem isFront_pointed (hwhole : ∀ c ∈ whole, c.isDigit = true)
    (hfraction : ∀ c ∈ fraction, c.isDigit = true) (htail : ∀ c ∈ tail.head?, c = '.') :
    IsFront (whole ++ '.' :: fraction) (whole ++ '.' :: fraction ++ tail) := by
  have hcount : (whole ++ '.' :: fraction).count '.' = 1 := by
    rw [List.count_append, List.count_cons_self, count_point hwhole, count_point hfraction]
  refine ⟨List.prefix_append _ _, hcount.le, fun other hother hone => ?_⟩
  rcases List.prefix_or_prefix_of_prefix hother (List.prefix_append _ tail) with hshort | ⟨more, rfl⟩
  · exact hshort
  cases more with
  | nil => rw [List.append_nil]
  | cons c more =>
    -- What is longer has the second point.
    rw [List.prefix_append_right_inj] at hother
    obtain ⟨rest, rfl⟩ := hother
    obtain rfl : c = '.' := htail c rfl
    rw [List.count_append, hcount, List.count_cons_self] at hone
    omega

/-- A run that starts with a digit has digits, and then perhaps a point and digits up to a second
point. -/
theorem exists_parts {c : Char} {cs : List Char} (hc : c.isDigit = true)
    (hcs : ∀ d ∈ cs, d.isDigit = true ∨ d = '.') :
    ∃ whole, whole ≠ [] ∧ (∀ d ∈ whole, d.isDigit = true) ∧ (c :: cs = whole ∨
      ∃ fraction tail, c :: cs = whole ++ '.' :: fraction ++ tail ∧
        (∀ d ∈ fraction, d.isDigit = true) ∧ ∀ d ∈ tail.head?, d = '.') := by
  have hpoint : ∀ d ∈ c :: cs, d.isDigit = false → d = '.' := by
    intro d hd hno
    rcases List.forall_mem_cons.mpr ⟨.inl hc, hcs⟩ d hd with hyes | hpoint
    · rw [hno] at hyes
      cases hyes
    · exact hpoint
  obtain ⟨whole, rest, hrun, hwhole⟩ := Text.exists_isRun Char.isDigit (c :: cs)
  have hne : whole ≠ [] := by
    rintro rfl
    have hstop := hwhole.stop c (by rw [← List.nil_append rest, ← hrun, List.head?_cons]; rfl)
    rw [hc] at hstop
    cases hstop
  refine ⟨whole, hne, hwhole.all, ?_⟩
  cases rest with
  | nil => exact .inl (hrun.trans (List.append_nil whole))
  | cons point more =>
    obtain rfl := hpoint point (by simp [hrun]) (hwhole.stop point rfl)
    obtain ⟨fraction, tail, rfl, hfraction⟩ := Text.exists_isRun Char.isDigit more
    refine .inr ⟨fraction, tail, by simp [hrun], hfraction.all, fun d hd => ?_⟩
    exact hpoint d (by simp [hrun, List.mem_of_mem_head? hd]) (hfraction.stop d hd)

theorem ofLiteral_pointed (hwhole : ∀ c ∈ whole, c.isDigit = true)
    (hfraction : ∀ c ∈ fraction, c.isDigit = true) (htail : ∀ c ∈ tail.head?, c = '.') :
    Number.ofLiteral (whole ++ '.' :: fraction ++ tail) =
      .real (.ofRatio (Number.digitsValue (whole ++ fraction)) (10 ^ fraction.length)) := by
  have hfirst : Text.IsRun Char.isDigit whole ('.' :: (fraction ++ tail)) :=
    ⟨hwhole, fun c hc => by cases hc; rfl⟩
  have hsecond : Text.IsRun Char.isDigit fraction tail :=
    ⟨hfraction, fun c hc => by rw [htail c hc]; rfl⟩
  rw [List.append_assoc, List.cons_append, Number.ofLiteral, hfirst.takeWhile_append,
    List.drop_left]
  dsimp only
  rw [List.drop_one, List.tail_cons, hsecond.takeWhile_append]
  rfl

/-- What a run of digits and points means. -/
theorem ofLiteral_eq {c : Char} {cs : List Char} (hc : c.isDigit = true)
    (hcs : ∀ d ∈ cs, d.isDigit = true ∨ d = '.') :
    ∃ front q x, IsFront front (c :: cs) ∧ Writes front q ∧ Double.Rounds q x ∧
      Number.ofLiteral (c :: cs) =
        if '.' ∉ c :: cs ∧ decimalValue (c :: cs) ≤ 2 ^ 63 - 1 then
          .int (decimalValue (c :: cs)) else .real x := by
  obtain ⟨whole, hne, hwhole, hrun | ⟨fraction, tail, hrun, hfraction, htail⟩⟩ := exists_parts hc hcs
  · rw [hrun]
    refine ⟨_, _, _, isFront_digits hwhole, .whole hne hwhole, rounds_whole whole, ?_⟩
    have hmem : '.' ∉ whole := List.count_eq_zero.mp (count_point hwhole)
    rw [ofLiteral_digits hwhole]
    simp only [hmem, not_false_eq_true, true_and]
    rfl
  · rw [hrun]
    refine ⟨_, _, _, isFront_pointed hwhole hfraction htail, .pointed hne hwhole hfraction,
      rounds_fraction whole fraction, ?_⟩
    rw [ofLiteral_pointed hwhole hfraction htail, if_neg (by simp)]

/-- A run of digits and points is one token. -/
theorem tokenize_run {c : Char} {cs : List Char} (hc : c.isDigit = true)
    (hcs : ∀ d ∈ cs, d.isDigit = true ∨ d = '.') :
    tokenize (String.ofList (c :: cs)) = [⟨.number, .number (.ofLiteral (c :: cs)), ⟨1, 1⟩⟩,
      ⟨.eof, .none, ⟨1, 1 + (c :: cs).length⟩⟩] := by
  have hrun : Text.IsRun Lexeme.continuesNumber cs [] :=
    ⟨fun d hd => by simpa [Lexeme.continuesNumber] using hcs d hd, nofun⟩
  have hstarts : ¬Layout.Starts (c :: cs) := by
    apply Layout.not_starts_cons (not_isBlank (by decide) hc)
    rintro rfl
    exact absurd hc (by decide)
  have hline : '\n' ∉ c :: cs := by
    intro hmem
    rcases List.forall_mem_cons.mpr ⟨.inl hc, hcs⟩ _ hmem with h | h
    · exact absurd h (by decide)
    · exact absurd h (by decide)
  exact tokenize_spelling (.number hc hrun) hstarts hline

end Runs

section Reading

/-- A reader of decimal fractions. -/
def readDecimal (text : List Char) : Option Double :=
  let whole := text.takeWhile Char.isDigit
  match text.drop whole.length with
  | [] => if whole.isEmpty then none else some (.ofRatio (Number.digitsValue whole) 1)
  | point :: fraction =>
    if point = '.' && !whole.isEmpty && fraction.all Char.isDigit then
      some (.ofRatio (Number.digitsValue (whole ++ fraction)) (10 ^ fraction.length))
    else none

theorem readsDecimals_readDecimal : ReadsDecimals readDecimal := by
  intro text q hwrites
  cases hwrites with
  | whole hne hall =>
    have hrun : Text.IsRun Char.isDigit text [] := ⟨hall, nofun⟩
    have htake : text.takeWhile Char.isDigit = text := by simpa using hrun.takeWhile_append
    refine ⟨_, ?_, rounds_whole text⟩
    simp [readDecimal, htake, hne]
  | @pointed whole fraction hne hall hfraction =>
    have hrun : Text.IsRun Char.isDigit whole ('.' :: fraction) :=
      ⟨hall, fun c hc => by cases hc; rfl⟩
    refine ⟨_, ?_, rounds_fraction whole fraction⟩
    simpa [readDecimal, hrun.takeWhile_append, hne] using hfraction

/-- A run of digits and points that starts with a digit is one number token.  It is a whole number
exactly if it has no point and is at most `2 ^ 63 - 1`, and is then printed in canonical decimal.
Otherwise it is the double that any reader of decimal fractions answers for the run's front, which is
always one. -/
theorem tokenize_digitsAndPoints {c : Char} {cs : List Char} (hc : c.isDigit = true)
    (hcs : ∀ d ∈ cs, d.isDigit = true ∨ d = '.') {read : List Char → Option Double}
    (hread : ReadsDecimals read) :
    ∃ value front q x, tokenize (String.ofList (c :: cs)) =
        [⟨.number, .number value, ⟨1, 1⟩⟩, ⟨.eof, .none, ⟨1, 1 + (c :: cs).length⟩⟩] ∧
      IsFront front (c :: cs) ∧ Writes front q ∧ Double.Rounds q x ∧ read front = some x ∧
      (value = if '.' ∉ c :: cs ∧ decimalValue (c :: cs) ≤ 2 ^ 63 - 1 then
        .int (decimalValue (c :: cs)) else .real x) ∧
      ∀ (n : Nat) (position : Position), value = .int n →
        IsCanonical n (Expr.number value position).code.toList := by
  obtain ⟨front, q, x, hfront, hwrites, hrounds, hvalue⟩ := ofLiteral_eq hc hcs
  obtain ⟨y, hy, hrounds'⟩ := hread front q hwrites
  obtain rfl := hrounds.unique hrounds'
  refine ⟨_, front, q, x, tokenize_run hc hcs, hfront, hwrites, hrounds, hy, hvalue, ?_⟩
  intro n position hn
  rw [hn]
  exact isCanonical_repr n

/-- What follows the second point does not count. -/
theorem tokenize_digitsAndPoints_twoPoints : ∃ value front q x, tokenize "007.50.25" =
      [⟨.number, .number value, ⟨1, 1⟩⟩, ⟨.eof, .none, ⟨1, 10⟩⟩] ∧
    IsFront front "007.50.25".toList ∧ Writes front q ∧ Double.Rounds q x ∧
    readDecimal front = some x ∧
    (value = if '.' ∉ "007.50.25".toList ∧ decimalValue "007.50.25".toList ≤ 2 ^ 63 - 1 then
      .int (decimalValue "007.50.25".toList) else .real x) ∧
    ∀ (n : Nat) (position : Position), value = .int n →
      IsCanonical n (Expr.number value position).code.toList :=
  @tokenize_digitsAndPoints '0' "07.50.25".toList (by decide) (by simp) readDecimal
    readsDecimals_readDecimal

end Reading

end KanaScript
