import KanaScript.Proofs.Numeral.Value
import KanaScript.Proofs.Token.Cut
import Mathlib.Tactic.Ring

/-! The numeral word of a number is a word of the script that means that number: the scanner finds
nothing else in it, and reads it as the number as far as whole numbers reach. -/

namespace KanaScript

namespace Numeral

section Places

/-- The factors of `value * 9 ^ power`, as they are written. -/
def factors (power value : Nat) : List Nat :=
  List.replicate power 9 ++ if power ≠ 0 ∧ value = 1 then [] else [value]

theorem term_eq (power value : Nat) : term power value = productWord (factors power value) := by
  by_cases hp : power = 0
  · simp [term, factors, productWord, hp, List.intercalate]
  · by_cases hv : value = 1
    · simp [term, factors, productWord, hp, hv]
    · simp [term, factors, productWord, hp, hv]

theorem prod_factors (power value : Nat) : (factors power value).prod = value * 9 ^ power := by
  rw [factors, List.prod_append, List.prod_replicate]
  split
  · rename_i h
    simp [h.2]
  · simp [Nat.mul_comm]

theorem factors_ne_nil (power value : Nat) : factors power value ≠ [] := by
  unfold factors
  split
  · rename_i h
    simp [h.1]
  · simp

theorem mem_factors {power value d : Nat} (h : d ∈ factors power value) : d = 9 ∨ d = value := by
  rw [factors, List.mem_append] at h
  rcases h with h | h
  · exact .inl (List.eq_of_mem_replicate h)
  · split at h
    · cases h
    · exact .inr (List.mem_singleton.mp h)

theorem lt_of_mem_base9 {n d : Nat} (h : d ∈ base9 n) : d < 9 := by
  fun_induction base9 n with
  | case1 => cases h
  | case2 n hn ih =>
    rcases List.mem_cons.mp h with rfl | h
    · exact Nat.mod_lt _ (by decide)
    · exact ih h

/-- The digits in base nine, each at its place, make up the number. -/
theorem sum_base9 (n power : Nat) :
    (((base9 n).zipIdx power).map fun place => place.1 * 9 ^ place.2).sum = n * 9 ^ power := by
  fun_induction base9 n generalizing power with
  | case1 => simp
  | case2 n hn ih =>
    rw [List.zipIdx_cons, List.map_cons, List.sum_cons, ih]
    calc n % 9 * 9 ^ power + n / 9 * 9 ^ (power + 1)
      _ = (n % 9 + 9 * (n / 9)) * 9 ^ power := by ring
      _ = n * 9 ^ power := by rw [Nat.mod_add_div]

/-- The places that are written, highest first. -/
def places (n : Nat) : List (Nat × Nat) :=
  (base9 n).zipIdx.reverse.filter fun place => place.1 ≠ 0

theorem mem_places {n : Nat} {place : Nat × Nat} (h : place ∈ places n) :
    0 < place.1 ∧ place.1 < 9 := by
  rw [places, List.mem_filter, List.mem_reverse] at h
  have hdigit := lt_of_mem_base9 (List.fst_mem_of_mem_zipIdx h.1)
  have hzero : place.1 ≠ 0 := by simpa using h.2
  omega

/-- Places of digit zero add nothing. -/
theorem sum_filter (xs : List (Nat × Nat)) :
    ((xs.filter fun place => place.1 ≠ 0).map fun place => place.1 * 9 ^ place.2).sum =
      (xs.map fun place => place.1 * 9 ^ place.2).sum := by
  induction xs with
  | nil => rfl
  | cons place xs ih =>
    by_cases hzero : place.1 = 0
    · rw [List.filter_cons_of_neg (by simpa using hzero), ih]
      simp [hzero]
    · rw [List.filter_cons_of_pos (by simpa using hzero), List.map_cons, List.sum_cons, ih,
        List.map_cons, List.sum_cons]

theorem sum_places (n : Nat) : ((places n).map fun place => place.1 * 9 ^ place.2).sum = n := by
  rw [places, sum_filter, List.map_reverse, List.sum_reverse, sum_base9, Nat.pow_zero, Nat.mul_one]

/-- The sum that the numeral word of `n` spells. -/
def sumOf (n : Nat) : List (List Nat) :=
  if n = 0 then [[0]] else (places n).map fun place => factors place.2 place.1

theorem spell_eq (n : Nat) : spell n = sumWord (sumOf n) := by
  unfold spell sumOf
  split
  · rfl
  · simp [sumWord, places, term_eq, Function.comp_def]

theorem sumOf_ne_nil (n : Nat) : sumOf n ≠ [] := by
  unfold sumOf
  split
  · exact List.cons_ne_nil _ _
  · rename_i hn
    intro hnil
    have hsum := sum_places n
    rw [List.map_eq_nil_iff.mp hnil] at hsum
    exact hn hsum.symm

theorem isSum_sumOf (n : Nat) : IsSum (sumOf n) := by
  unfold sumOf
  split
  · simp [IsSum]
  · intro ds hds
    obtain ⟨place, hplace, rfl⟩ := List.mem_map.mp hds
    refine ⟨factors_ne_nil _ _, fun d hd => ?_⟩
    have hdigit := mem_places hplace
    rcases mem_factors hd with rfl | rfl
    · decide
    · omega

/-- The word that is written for a number is read as that number, and as none that is larger than
whole numbers reach. -/
theorem read?_spell (n : Nat) : read? (spell n) = within n := by
  obtain ⟨ds, products, hsum⟩ := List.exists_cons_of_ne_nil (sumOf_ne_nil n)
  rw [spell_eq, hsum, read?_sumWord (hsum ▸ isSum_sumOf n), ← hsum]
  by_cases hn : n = 0
  · subst hn
    rfl
  · have hpos : ∀ ds ∈ sumOf n, ∀ d ∈ ds, 0 < d := by
      rw [sumOf, if_neg hn]
      intro ds hds d hd
      obtain ⟨place, hplace, rfl⟩ := List.mem_map.mp hds
      have hdigit := mem_places hplace
      rcases mem_factors hd with rfl | rfl
      · decide
      · exact hdigit.1
    have htotal : ((sumOf n).map List.prod).sum = n := by
      rw [sumOf, if_neg hn, List.map_map]
      simpa [Function.comp_def, prod_factors] using sum_places n
    rw [sumAfter?_eq (Nat.zero_le _) hpos, htotal, Nat.zero_add]

end Places

section Characters

theorem isKatakana_digitWord {d : Nat} (hd : d < 10) :
    (digitWord d).all Text.isKatakana = true := by
  interval_cases d <;> decide

theorem forall_mem_intercalate {p : Char → Prop} {c : Char} (hc : p c) {words : List (List Char)}
    (h : ∀ word ∈ words, ∀ d ∈ word, p d) : ∀ d ∈ [c].intercalate words, p d := by
  cases words with
  | nil => simp [List.intercalate]
  | cons word words =>
    rw [List.forall_mem_cons] at h
    rw [intercalate_cons, List.forall_mem_append]
    refine ⟨h.1, fun d hd => ?_⟩
    obtain ⟨other, hother, hd⟩ := List.mem_flatMap.mp hd
    rcases List.mem_cons.mp hd with rfl | hd
    · exact hc
    · exact h.2 other hother d hd

theorem isKatakana_spell (n : Nat) : ∀ c ∈ spell n, Text.isKatakana c = true := by
  have hsum := isSum_sumOf n
  rw [spell_eq]
  refine forall_mem_intercalate (by decide) fun word hword => ?_
  obtain ⟨ds, hds, rfl⟩ := List.mem_map.mp hword
  refine forall_mem_intercalate (by decide) fun word hword => ?_
  obtain ⟨d, hd, rfl⟩ := List.mem_map.mp hword
  exact List.all_eq_true.mp (isKatakana_digitWord ((hsum ds hds).2 d hd))

/-- A numeral word starts with a digit. -/
theorem exists_spell_eq (n : Nat) : ∃ d rest, d < 10 ∧ spell n = digitWord d ++ rest := by
  have hsum := isSum_sumOf n
  obtain ⟨ds, products, hcons⟩ := List.exists_cons_of_ne_nil (sumOf_ne_nil n)
  rw [hcons] at hsum
  obtain ⟨hne, hdigits⟩ := hsum ds List.mem_cons_self
  obtain ⟨d, es, rfl⟩ := List.exists_cons_of_ne_nil hne
  rw [spell_eq, hcons, sumWord_cons, productWord_cons, List.append_assoc]
  exact ⟨d, _, hdigits d List.mem_cons_self, rfl⟩

end Characters

end Numeral

section Tokens

open Numeral Vocabulary

/-- A word that starts with a digit is in no table whose words do not. -/
theorem lookup_of_digitWord {table : List (String × String)} {d : Nat} (hd : d < 10)
    (h : ∀ entry ∈ table, ∀ d < 10, ¬digitWord d <+: entry.1.toList) (rest : List Char) :
    table.lookup (String.ofList (digitWord d ++ rest)) = none := by
  rw [List.lookup_eq_none_iff]
  intro entry hentry
  rw [bne_iff_ne]
  rintro heq
  refine h entry hentry d hd ⟨rest, ?_⟩
  rw [← heq, String.toList_ofList]

theorem classify_of_digitWord {d : Nat} (hd : d < 10) (rest : List Char) :
    Lexeme.classify (String.ofList (digitWord d ++ rest)) =
      match read? (digitWord d ++ rest) with
      | some value => (.number, .number (.int value))
      | none => (.identifier, .text (String.ofList (digitWord d ++ rest))) := by
  have hkeyword : keyword? (String.ofList (digitWord d ++ rest)) = none := by
    rw [keyword?, lookup_of_digitWord hd (by decide), lookup_of_digitWord hd (by decide),
      lookup_of_digitWord hd (by decide)]
    rfl
  have hoperator : operator? (String.ofList (digitWord d ++ rest)) = none :=
    lookup_of_digitWord hd (by decide) rest
  cases hread : read? (digitWord d ++ rest) with
  | none => simp only [Lexeme.classify, hkeyword, hoperator, String.toList_ofList, hread]
  | some value => simp only [Lexeme.classify, hkeyword, hoperator, String.toList_ofList, hread]

/-- Neither layout nor a bracket starts with a digit. -/
theorem starts_of_digitWord {d : Nat} (hd : d < 10) (rest : List Char) :
    ¬Layout.Starts (digitWord d ++ rest) ∧ bracket? (digitWord d ++ rest) = none := by
  constructor
  · intro h
    interval_cases d <;> cases h <;> rename_i hc <;> exact absurd hc (by decide)
  · interval_cases d <;> rfl

/-- A katakana word with nothing else around it is one token. -/
theorem tokenize_word {c : Char} {cs : List Char} {kind : TokenKind} {payload : Payload}
    (hall : ∀ d ∈ c :: cs, Text.isKatakana d = true) (hstarts : ¬Layout.Starts (c :: cs))
    (hbracket : bracket? (c :: cs) = none)
    (hmeaning : Lexeme.classify (String.ofList (c :: cs)) = (kind, payload)) :
    tokenize (String.ofList (c :: cs)) =
      [⟨kind, payload, ⟨1, 1⟩⟩, ⟨.eof, .none, ⟨1, 1 + (c :: cs).length⟩⟩] := by
  have hrun : Text.IsRun Text.continuesWord cs [] :=
    ⟨fun d hd => by simp [Text.continuesWord, hall d (List.mem_cons_of_mem c hd)], nofun⟩
  have hspelled : Lexeme.Spelled [] ⟨kind, payload, c :: cs⟩ :=
    .word (hall c List.mem_cons_self) hrun (by simpa using hbracket) hmeaning
  exact tokenize_spelling hspelled hstarts fun hmem => absurd (hall '\n' hmem) (by decide)

/-- The numeral word of a number is one token, which carries the number as far as whole numbers
reach.  Beyond, the word is no numeral and the token is a name. -/
theorem tokenize_spell (n : Nat) :
    read? (spell n) = (if n ≤ Number.maxInt then some n else none) ∧
      tokenize (String.ofList (spell n)) =
        [if n ≤ Number.maxInt then ⟨.number, .number (.int n), ⟨1, 1⟩⟩
          else ⟨.identifier, .text (String.ofList (spell n)), ⟨1, 1⟩⟩,
          ⟨.eof, .none, ⟨1, 1 + (spell n).length⟩⟩] := by
  refine ⟨read?_spell n, ?_⟩
  obtain ⟨d, rest, hd, hword⟩ := exists_spell_eq n
  have hall := isKatakana_spell n
  have hmeaning := classify_of_digitWord hd rest
  obtain ⟨hstarts, hbracket⟩ := starts_of_digitWord hd rest
  rw [← hword] at hmeaning hstarts hbracket
  rw [read?_spell] at hmeaning
  obtain ⟨c, cs, hcons⟩ : ∃ c cs, spell n = c :: cs := by
    obtain ⟨a, b, c, hdigit⟩ := exists_digitWord_eq hd
    exact ⟨a, b :: c :: rest, by rw [hword, hdigit]; rfl⟩
  generalize spell n = word at *
  subst hcons
  rcases Nat.lt_or_ge Number.maxInt n with hlt | hle
  · rw [within_of_lt hlt] at hmeaning
    rw [tokenize_word hall hstarts hbracket hmeaning, if_neg (Nat.not_le.mpr hlt)]
  · rw [within_of_le hle] at hmeaning
    rw [tokenize_word hall hstarts hbracket hmeaning, if_pos hle]

end Tokens

end KanaScript
