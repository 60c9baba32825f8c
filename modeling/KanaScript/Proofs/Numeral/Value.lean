import KanaScript.Numeral
import Mathlib.Algebra.Order.BigOperators.GroupWithZero.List
import Mathlib.Tactic.IntervalCases

/-! What numeral words mean.  A sum of products of digits, written with its connectives, is cut into
the digits and connectives that it was written with, and read as the sum; where a product or a sum
on the way is too large, it is no numeral.  If no factor is zero, the whole sum decides. -/

namespace KanaScript.Numeral

section Words

/-- The word of a product: its factors with `グ` between them. -/
def productWord (factors : List Nat) : List Char := ['グ'].intercalate (factors.map digitWord)

/-- The word of a sum of products, with `ド` between them. -/
def sumWord (products : List (List Nat)) : List Char := ['ド'].intercalate (products.map productWord)

theorem intercalate_cons {α : Type} (c : α) (word : List α) (words : List (List α)) :
    [c].intercalate (word :: words) = word ++ words.flatMap (c :: ·) := by
  induction words generalizing word with
  | nil => simp [List.intercalate]
  | cons next words ih =>
    have hcons : [c].intercalate (word :: next :: words) =
        word ++ [c] ++ [c].intercalate (next :: words) := by simp [List.intercalate]
    rw [hcons, ih]
    simp

theorem productWord_cons (d : Nat) (ds : List Nat) :
    productWord (d :: ds) = digitWord d ++ ds.flatMap fun e => 'グ' :: digitWord e := by
  rw [productWord, List.map_cons, intercalate_cons, List.flatMap_map]

theorem sumWord_cons (ds : List Nat) (products : List (List Nat)) :
    sumWord (ds :: products) =
      productWord ds ++ products.flatMap fun es => 'ド' :: productWord es := by
  rw [sumWord, List.map_cons, intercalate_cons, List.flatMap_map]

end Words

section Morphemes

/-- The word is cut into these morphemes, whatever follows it. -/
def Segments (word : List Char) (found : List Morpheme) : Prop :=
  ∀ rest, morphemes (word ++ rest) = (morphemes rest).map (found ++ ·)

theorem Segments.append {first second : List Char} {a b : List Morpheme} (ha : Segments first a)
    (hb : Segments second b) : Segments (first ++ second) (a ++ b) := by
  intro rest
  rw [List.append_assoc, ha, hb, Option.map_map]
  simp [Function.comp_def]

theorem Segments.flatMap {α : Type} {word : α → List Char} {found : α → List Morpheme}
    {xs : List α} (h : ∀ x ∈ xs, Segments (word x) (found x)) :
    Segments (xs.flatMap word) (xs.flatMap found) := by
  induction xs with
  | nil => simp [Segments]
  | cons x xs ih =>
    rw [List.forall_mem_cons] at h
    exact h.1.append (ih h.2)

theorem Segments.eq_some {word : List Char} {found : List Morpheme} (h : Segments word found) :
    morphemes word = some found := by
  simpa [morphemes] using h []

theorem digit?_digitWord {d : Nat} (hd : d < 10) (rest : List Char) :
    digit? (digitWord d ++ rest) = some d := by
  interval_cases d <;> rfl

theorem exists_digitWord_eq {d : Nat} (hd : d < 10) : ∃ a b c, digitWord d = [a, b, c] := by
  interval_cases d <;> exact ⟨_, _, _, rfl⟩

theorem segments_digit {d : Nat} (hd : d < 10) : Segments (digitWord d) [.digit d] := by
  intro rest
  have hdigit := digit?_digitWord hd rest
  obtain ⟨a, b, c, hword⟩ := exists_digitWord_eq hd
  rw [hword] at hdigit ⊢
  simp only [List.cons_append, List.nil_append] at hdigit ⊢
  rw [morphemes, hdigit]
  rfl

/-- The connectives as they are written. -/
def connectives : List (Char × Morpheme) := [('グ', .multiply), ('ド', .add)]

/-- No digit is read across a connective and the digit after it. -/
theorem segments_connective {c : Char} {m : Morpheme} (hc : (c, m) ∈ connectives) {d : Nat}
    (hd : d < 10) : Segments (c :: digitWord d) [m, .digit d] := by
  intro rest
  simp only [connectives, List.mem_cons, Prod.mk.injEq, List.not_mem_nil, or_false] at hc
  have hdigit : digit? (c :: (digitWord d ++ rest)) = none := by
    rcases hc with ⟨rfl, -⟩ | ⟨rfl, -⟩ <;> interval_cases d <;> rfl
  rw [List.cons_append, morphemes, hdigit, segments_digit hd rest]
  rcases hc with ⟨rfl, rfl⟩ | ⟨rfl, rfl⟩ <;> simp [Function.comp_def]

/-- The morphemes of a product. -/
def productMorphemes : List Nat → List Morpheme
  | [] => []
  | d :: ds => .digit d :: ds.flatMap fun e => [.multiply, .digit e]

theorem segments_product {ds : List Nat} (h : ∀ d ∈ ds, d < 10) :
    Segments (productWord ds) (productMorphemes ds) := by
  cases ds with
  | nil => simp [Segments, productWord, productMorphemes, List.intercalate]
  | cons d ds =>
    rw [List.forall_mem_cons] at h
    rw [productWord_cons]
    exact (segments_digit h.1).append
      (.flatMap fun e he => segments_connective (by decide) (h.2 e he))

theorem segments_summand {ds : List Nat} (hne : ds ≠ []) (h : ∀ d ∈ ds, d < 10) :
    Segments ('ド' :: productWord ds) (.add :: productMorphemes ds) := by
  cases ds with
  | nil => exact absurd rfl hne
  | cons d ds =>
    rw [List.forall_mem_cons] at h
    rw [productWord_cons]
    exact (segments_connective (by decide) h.1).append
      (.flatMap fun e he => segments_connective (by decide) (h.2 e he))

/-- A sum that can be written: its products are of digits, and none is empty. -/
def IsSum (products : List (List Nat)) : Prop := ∀ ds ∈ products, ds ≠ [] ∧ ∀ d ∈ ds, d < 10

theorem segments_sum {ds : List Nat} {products : List (List Nat)} (h : IsSum (ds :: products)) :
    Segments (sumWord (ds :: products))
      (productMorphemes ds ++ products.flatMap fun es => .add :: productMorphemes es) := by
  rw [IsSum, List.forall_mem_cons] at h
  rw [sumWord_cons]
  exact (segments_product h.1.2).append
    (.flatMap fun es hes => segments_summand (h.2 es hes).1 (h.2 es hes).2)

end Morphemes

section Values

/-- The product of `factors`, unless a product on the way is too large. -/
def product? (factors : List Nat) : Option Nat := factors.foldlM (fun p d => within (p * d)) 1

/-- The sum of `products` and `total`, unless something on the way is too large. -/
def sumAfter? (total : Nat) (products : List (List Nat)) : Option Nat :=
  products.foldlM (fun s ds => (product? ds).bind fun p => within (s + p)) total

theorem within_of_le {n : Nat} (h : n ≤ Number.maxInt) : within n = some n := if_pos h

theorem within_of_lt {n : Nat} (h : Number.maxInt < n) : within n = none :=
  if_neg (Nat.not_le.mpr h)

theorem digit_le {d : Nat} (hd : d < 10) : d ≤ Number.maxInt :=
  Nat.le_trans (Nat.le_of_lt hd) (by decide)

/-- Factors after the pending product scale it one by one. -/
theorem evaluate_multiply (total p d : Nat) (rest : List Morpheme) :
    evaluate total (some p) (.multiply :: .digit d :: rest) =
      (within (p * d)).bind fun scaled => evaluate total (some scaled) rest := by
  rw [evaluate, Option.getD_some]
  cases within (p * d) <;> rfl

theorem evaluate_add (total p : Nat) (rest : List Morpheme) :
    evaluate total (some p) (.add :: rest) =
      (within (total + p)).bind fun sum => evaluate sum none rest := by
  rw [evaluate, Option.getD_some]
  cases within (total + p) <;> rfl

theorem evaluate_factors (total p : Nat) (ds : List Nat) (rest : List Morpheme) :
    evaluate total (some p) ((ds.flatMap fun e => [.multiply, .digit e]) ++ rest) =
      (ds.foldlM (fun p d => within (p * d)) p).bind fun q => evaluate total (some q) rest := by
  induction ds generalizing p with
  | nil => rfl
  | cons d ds ih =>
    rw [List.flatMap_cons, List.append_assoc, List.foldlM_cons, List.cons_append,
      List.singleton_append, evaluate_multiply]
    cases within (p * d) with
    | none => rfl
    | some q => exact ih q

theorem evaluate_product (total : Nat) {ds : List Nat} (hne : ds ≠ []) (h : ∀ d ∈ ds, d < 10)
    (rest : List Morpheme) : evaluate total none (productMorphemes ds ++ rest) =
      (product? ds).bind fun p => evaluate total (some p) rest := by
  cases ds with
  | nil => exact absurd rfl hne
  | cons d ds =>
    have hd : within (1 * d) = some d := by
      rw [Nat.one_mul, within_of_le (digit_le (h d List.mem_cons_self))]
    rw [product?, List.foldlM_cons, hd]
    exact evaluate_factors total d ds rest

/-- Products after the pending one are added one by one. -/
theorem evaluate_summands (total p : Nat) {products : List (List Nat)} (h : IsSum products) :
    evaluate total (some p) (products.flatMap fun ds => .add :: productMorphemes ds) =
      (within (total + p)).bind fun s => sumAfter? s products := by
  induction products generalizing total p with
  | nil =>
    show within (total + p) = _
    cases within (total + p) <;> rfl
  | cons ds products ih =>
    rw [IsSum, List.forall_mem_cons] at h
    rw [List.flatMap_cons, List.cons_append, evaluate_add]
    cases within (total + p) with
    | none => rfl
    | some s =>
      show evaluate s none _ = sumAfter? s (ds :: products)
      rw [evaluate_product s h.1.1 h.1.2, sumAfter?, List.foldlM_cons]
      cases product? ds with
      | none => rfl
      | some q => exact ih s q h.2

/-- A written sum is read as what it says, or as no numeral where something is too large. -/
theorem read?_sumWord {ds : List Nat} {products : List (List Nat)} (h : IsSum (ds :: products)) :
    read? (sumWord (ds :: products)) = sumAfter? 0 (ds :: products) := by
  have hds := h ds List.mem_cons_self
  have hne : ¬(sumWord (ds :: products)).isEmpty = true := by
    obtain ⟨d, es, rfl⟩ := List.exists_cons_of_ne_nil hds.1
    obtain ⟨a, b, c, hword⟩ := exists_digitWord_eq (hds.2 d List.mem_cons_self)
    rw [sumWord_cons, productWord_cons, hword]
    simp
  rw [read?, if_neg hne, (segments_sum h).eq_some, Option.bind_some,
    evaluate_product 0 hds.1 hds.2, sumAfter?, List.foldlM_cons]
  cases product? ds with
  | none => rfl
  | some p => exact evaluate_summands 0 p fun es hes => h es (List.mem_cons_of_mem _ hes)

end Values

section Positive

/-- Where no factor is zero, no product on the way is larger than the last one. -/
theorem foldlM_within {p : Nat} (hp : p ≤ Number.maxInt) {ds : List Nat} (h : ∀ d ∈ ds, 0 < d) :
    ds.foldlM (fun p d => within (p * d)) p = within (p * ds.prod) := by
  induction ds generalizing p with
  | nil => simp [within_of_le hp]
  | cons d ds ih =>
    rw [List.forall_mem_cons] at h
    rw [List.foldlM_cons, List.prod_cons, ← Nat.mul_assoc]
    rcases Nat.lt_or_ge Number.maxInt (p * d) with hlt | hle
    · have hpos : 0 < ds.prod := List.prod_pos h.2
      rw [within_of_lt hlt, within_of_lt (Nat.lt_of_lt_of_le hlt (Nat.le_mul_of_pos_right _ hpos))]
      rfl
    · rw [within_of_le hle]
      exact ih hle h.2

theorem product?_eq {ds : List Nat} (h : ∀ d ∈ ds, 0 < d) : product? ds = within ds.prod := by
  rw [product?, foldlM_within (by decide) h, Nat.one_mul]

/-- Where no factor is zero, only the size of the whole sum matters. -/
theorem sumAfter?_eq {total : Nat} (htotal : total ≤ Number.maxInt) {products : List (List Nat)}
    (h : ∀ ds ∈ products, ∀ d ∈ ds, 0 < d) :
    sumAfter? total products = within (total + (products.map List.prod).sum) := by
  induction products generalizing total with
  | nil => simp [sumAfter?, within_of_le htotal]
  | cons ds products ih =>
    rw [List.forall_mem_cons] at h
    rw [sumAfter?, List.foldlM_cons, product?_eq h.1, List.map_cons, List.sum_cons, ← Nat.add_assoc]
    rcases Nat.lt_or_ge Number.maxInt (total + ds.prod) with hlt | hle
    · have hnone : ((within ds.prod).bind fun p => within (total + p)) = none := by
        rcases Nat.lt_or_ge Number.maxInt ds.prod with hlt' | hle'
        · rw [within_of_lt hlt', Option.bind_none]
        · rw [within_of_le hle', Option.bind_some, within_of_lt hlt]
      rw [hnone, within_of_lt (Nat.lt_of_lt_of_le hlt (Nat.le_add_right _ _))]
      rfl
    · rw [within_of_le (Nat.le_trans (Nat.le_add_left _ _) hle), Option.bind_some, within_of_le hle]
      exact ih hle h.2

end Positive

end KanaScript.Numeral
