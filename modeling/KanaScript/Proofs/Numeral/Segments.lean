import KanaScript.Proofs.Numeral.Value
import Mathlib.Data.List.Infix

/-! Which words are numerals.  A written sum of products is read as the sum exactly if no product and
no sum on the way is too large.  Conversely, whatever is read as a number is cut by `ド` into
segments, each of them empty or a chain of digits joined by `グ`, which may also lead the chain, and
the number is the sum of what the segments say. -/

namespace KanaScript.Numeral

section Running

variable {α : Type} {f : Nat → α → Nat} {start : Nat} {xs : List α}

theorem within_eq_some_iff {m n : Nat} : within m = some n ↔ m ≤ Number.maxInt ∧ m = n := by
  simp [within]

/-- No value on the way of a fold is too large. -/
def Fits (f : Nat → α → Nat) (start : Nat) (xs : List α) : Prop :=
  ∀ front, front <+: xs → front.foldl f start ≤ Number.maxInt

theorem Fits.start_le (h : Fits f start xs) : start ≤ Number.maxInt := h [] List.nil_prefix

theorem fits_cons {x : α} :
    Fits f start (x :: xs) ↔ start ≤ Number.maxInt ∧ Fits f (f start x) xs := by
  constructor
  · intro h
    refine ⟨h.start_le, fun front hfront => ?_⟩
    exact h (x :: front) (List.cons_prefix_cons.mpr ⟨rfl, hfront⟩)
  · rintro ⟨hstart, h⟩ front hfront
    cases front with
    | nil => exact hstart
    | cons y front =>
      obtain ⟨rfl, hrest⟩ := List.cons_prefix_cons.mp hfront
      exact h front hrest

/-- A fold whose steps are checked goes through exactly if each step may be taken and no value on
the way is too large. -/
theorem foldlM_eq_some_iff {step : Nat → α → Option Nat} {allowed : α → Prop} {n : Nat}
    (hstep : ∀ s x t, step s x = some t ↔ allowed x ∧ f s x ≤ Number.maxInt ∧ f s x = t)
    (hstart : start ≤ Number.maxInt) :
    xs.foldlM step start = some n ↔
      (∀ x ∈ xs, allowed x) ∧ Fits f start xs ∧ xs.foldl f start = n := by
  induction xs generalizing start with
  | nil => simp [Fits, hstart]
  | cons x xs ih =>
    rw [List.foldlM_cons, Option.bind_eq_bind, Option.bind_eq_some_iff, List.forall_mem_cons,
      fits_cons, List.foldl_cons]
    constructor
    · rintro ⟨s, hs, hn⟩
      obtain ⟨hallowed, hle, rfl⟩ := (hstep _ _ _).mp hs
      obtain ⟨hothers, hfits, hvalue⟩ := (ih hle).mp hn
      exact ⟨⟨hallowed, hothers⟩, ⟨hstart, hfits⟩, hvalue⟩
    · rintro ⟨⟨hallowed, hothers⟩, ⟨-, hfits⟩, hvalue⟩
      have hle := hfits.start_le
      exact ⟨f start x, (hstep _ _ _).mpr ⟨hallowed, hle, rfl⟩,
        (ih hle).mpr ⟨hothers, hfits, hvalue⟩⟩

theorem product?_eq_some_iff {ds : List Nat} {p : Nat} :
    product? ds = some p ↔ Fits (· * ·) 1 ds ∧ ds.prod = p := by
  have hstep : ∀ s d t, within (s * d) = some t ↔ True ∧ s * d ≤ Number.maxInt ∧ s * d = t := by
    intro s d t
    rw [within_eq_some_iff, true_and]
  rw [product?, foldlM_eq_some_iff hstep (by decide), List.prod_eq_foldl]
  simp

theorem sumAfter?_eq_some_iff {products : List (List Nat)} {n : Nat} :
    sumAfter? 0 products = some n ↔ (∀ ds ∈ products, Fits (· * ·) 1 ds) ∧
      Fits (fun s ds => s + ds.prod) 0 products ∧ (products.map List.prod).sum = n := by
  have hstep : ∀ s ds t, ((product? ds).bind fun p => within (s + p)) = some t ↔
      Fits (· * ·) 1 ds ∧ s + ds.prod ≤ Number.maxInt ∧ s + ds.prod = t := by
    intro s ds t
    rw [Option.bind_eq_some_iff]
    constructor
    · rintro ⟨p, hp, hs⟩
      obtain ⟨hfits, rfl⟩ := product?_eq_some_iff.mp hp
      exact ⟨hfits, within_eq_some_iff.mp hs⟩
    · rintro ⟨hfits, hs⟩
      exact ⟨ds.prod, product?_eq_some_iff.mpr ⟨hfits, rfl⟩, within_eq_some_iff.mpr hs⟩
  rw [sumAfter?, foldlM_eq_some_iff hstep (Nat.zero_le _), List.sum_eq_foldl, List.foldl_map]

/-- No product of first factors and no sum of first products is too large. -/
structure RunsWithin (products : List (List Nat)) : Prop where
  product : ∀ ds ∈ products, ∀ front, front <+: ds → front.prod ≤ Number.maxInt
  sum : ∀ front, front <+: products → (front.map List.prod).sum ≤ Number.maxInt

instance (products : List (List Nat)) : Decidable (RunsWithin products) :=
  decidable_of_iff ((∀ ds ∈ products, ∀ front ∈ ds.inits, front.prod ≤ Number.maxInt) ∧
      ∀ front ∈ products.inits, (front.map List.prod).sum ≤ Number.maxInt) <| by
    simp only [List.mem_inits]
    exact ⟨fun h => ⟨h.1, h.2⟩, fun h => ⟨h.product, h.sum⟩⟩

theorem runsWithin_iff {products : List (List Nat)} : RunsWithin products ↔
    (∀ ds ∈ products, Fits (· * ·) 1 ds) ∧ Fits (fun s ds => s + ds.prod) 0 products := by
  constructor
  · intro h
    refine ⟨fun ds hds front hfront => ?_, fun front hfront => ?_⟩
    · rw [← List.prod_eq_foldl]
      exact h.product ds hds front hfront
    · rw [← List.foldl_map, ← List.sum_eq_foldl]
      exact h.sum front hfront
  · rintro ⟨hproducts, hsums⟩
    refine ⟨fun ds hds front hfront => ?_, fun front hfront => ?_⟩
    · rw [List.prod_eq_foldl]
      exact hproducts ds hds front hfront
    · rw [List.sum_eq_foldl, List.foldl_map]
      exact hsums front hfront

/-- A written sum is read as the sum if nothing on the way is too large, and as no number
otherwise. -/
theorem read?_sumWord_eq_ite {products : List (List Nat)} (hne : products ≠ [])
    (h : IsSum products) : read? (sumWord products) =
      if RunsWithin products then some (products.map List.prod).sum else none := by
  obtain ⟨ds, others, rfl⟩ := List.exists_cons_of_ne_nil hne
  rw [read?_sumWord h]
  ext n
  rw [sumAfter?_eq_some_iff, ← and_assoc, ← runsWithin_iff]
  simp

end Running

section Soundness

def Morpheme.word : Morpheme → List Char
  | digit value => digitWord value
  | add => ['ド']
  | multiply => ['グ']

theorem of_digit?_eq_some {c : Char} {cs : List Char} {value : Nat}
    (h : digit? (c :: cs) = some value) : value < 10 ∧ c :: cs = digitWord value ++ cs.drop 2 := by
  obtain ⟨hlt, hbegins, -⟩ := List.findIdx?_eq_some_iff_getElem.mp h
  have hword : digitWord value = digitWords[value] := by
    rw [digitWord, List.getD_eq_getElem?_getD, List.getElem?_eq_getElem hlt, Option.getD_some]
  rw [← hword, List.isPrefixOf_iff_prefix] at hbegins
  obtain ⟨rest, hrest⟩ := hbegins
  obtain ⟨a, b, d, hdigit⟩ := exists_digitWord_eq hlt
  refine ⟨hlt, ?_⟩
  rw [hdigit] at hrest ⊢
  obtain ⟨rfl, rfl⟩ := List.cons.inj hrest
  rfl

/-- A word is spelled by its morphemes, and its digits are digits. -/
theorem of_morphemes_eq_some {cs : List Char} {found : List Morpheme}
    (h : morphemes cs = some found) :
    cs = found.flatMap Morpheme.word ∧ ∀ value, .digit value ∈ found → value < 10 := by
  fun_induction morphemes cs generalizing found with
  | case1 =>
    cases h
    simp
  | case2 c cs value hdigit ih =>
    obtain ⟨others, hothers, rfl⟩ := Option.map_eq_some_iff.mp h
    obtain ⟨hspelled, hdigits⟩ := ih hothers
    obtain ⟨hlt, hword⟩ := of_digit?_eq_some hdigit
    constructor
    · rw [List.flatMap_cons, ← hspelled]
      exact hword
    · intro other hmem
      rcases List.mem_cons.mp hmem with heq | hmem
      · cases heq
        exact hlt
      · exact hdigits other hmem
  | case3 cs hdigit ih =>
    obtain ⟨others, hothers, rfl⟩ := Option.map_eq_some_iff.mp h
    obtain ⟨hspelled, hdigits⟩ := ih hothers
    exact ⟨by rw [List.flatMap_cons, ← hspelled]; rfl, by simpa using hdigits⟩
  | case4 cs hdigit hne ih =>
    obtain ⟨others, hothers, rfl⟩ := Option.map_eq_some_iff.mp h
    obtain ⟨hspelled, hdigits⟩ := ih hothers
    exact ⟨by rw [List.flatMap_cons, ← hspelled]; rfl, by simpa using hdigits⟩
  | case5 => cases h

end Soundness

section Segments

/-- What stands between two additions. -/
inductive Segment
  | empty
  /-- Digits with multiplications between them. -/
  | product (first : Nat) (more : List Nat)
  /-- Digits with a multiplication before each of them. -/
  | scaling (first : Nat) (more : List Nat)

namespace Segment

def digits : Segment → List Nat
  | empty => []
  | product first more => first :: more
  | scaling first more => first :: more

def morphemes : Segment → List Morpheme
  | empty => []
  | product first more => productMorphemes (first :: more)
  | scaling first more => (first :: more).flatMap fun d => [.multiply, .digit d]

def word (segment : Segment) : List Char := segment.morphemes.flatMap Morpheme.word

def value : Segment → Nat
  | empty => 0
  | product first more => (first :: more).prod
  | scaling first more => (first :: more).prod

/-- The value of the rest of a segment after a pending product. -/
def valueAfter (pending : Option Nat) : Segment → Nat
  | empty => pending.getD 0
  | product first more => (first :: more).prod
  | scaling first more => pending.getD 1 * (first :: more).prod

/-- Whether the segment can go on after a pending product: a digit cannot follow one. -/
def Follows (pending : Option Nat) : Segment → Prop
  | product _ _ => pending = none
  | _ => True

theorem valueAfter_none (segment : Segment) : segment.valueAfter none = segment.value := by
  cases segment <;> simp [valueAfter, value]

theorem digit_mem_morphemes {segment : Segment} {d : Nat} (h : d ∈ segment.digits) :
    .digit d ∈ segment.morphemes := by
  cases segment with
  | empty => cases h
  | product first more => simpa [digits, morphemes, productMorphemes] using h
  | scaling first more => simpa [digits, morphemes] using h

/-- What follows a pending product scales it. -/
theorem Follows.exists_factors {segment : Segment} {p : Nat} (h : segment.Follows (some p)) :
    ∃ more : List Nat, segment.morphemes = (more.flatMap fun d => [.multiply, .digit d]) ∧
      segment.valueAfter (some p) = p * more.prod := by
  cases segment with
  | empty => exact ⟨[], rfl, (Nat.mul_one p).symm⟩
  | product first more => cases h
  | scaling first more => exact ⟨first :: more, rfl, rfl⟩

end Segment

/-- Morphemes that have a value are cut into segments by the additions, and the value is the sum. -/
theorem exists_segments_of_evaluate {total n : Nat} {pending : Option Nat} {found : List Morpheme}
    (h : evaluate total pending found = some n) : ∃ (first : Segment) (others : List Segment),
      first.Follows pending ∧
      found = first.morphemes ++ others.flatMap (fun s => .add :: s.morphemes) ∧
      n = total + first.valueAfter pending + (others.map Segment.value).sum ∧
      n ≤ Number.maxInt := by
  fun_induction evaluate total pending found with
  | case1 total pending =>
    obtain ⟨hle, rfl⟩ := within_eq_some_iff.mp h
    exact ⟨.empty, [], trivial, rfl, rfl, hle⟩
  | case2 => cases h
  | case3 total pending value rest hnone ih =>
    obtain ⟨segment, others, hfollows, rfl, rfl, hle⟩ := ih h
    obtain ⟨more, hmore, hvalue⟩ := hfollows.exists_factors
    refine ⟨.product value more, others, by simpa [Segment.Follows] using hnone, ?_, ?_, hle⟩
    · rw [hmore]
      rfl
    · rw [hvalue, Segment.valueAfter, List.prod_cons]
  | case4 total pending value rest scaled hscaled ih =>
    obtain ⟨segment, others, hfollows, rfl, rfl, hle⟩ := ih h
    obtain ⟨more, hmore, hvalue⟩ := hfollows.exists_factors
    obtain ⟨-, rfl⟩ := within_eq_some_iff.mp hscaled
    refine ⟨.scaling value more, others, trivial, ?_, ?_, hle⟩
    · rw [hmore]
      rfl
    · rw [hvalue, Segment.valueAfter, List.prod_cons, Nat.mul_assoc]
  | case5 => cases h
  | case6 => cases h
  | case7 total pending rest sum hsum ih =>
    obtain ⟨segment, others, -, rfl, rfl, hle⟩ := ih h
    obtain ⟨-, rfl⟩ := within_eq_some_iff.mp hsum
    refine ⟨.empty, segment :: others, trivial, rfl, ?_, hle⟩
    rw [List.map_cons, List.sum_cons, Segment.valueAfter_none, Segment.valueAfter, Nat.add_assoc]
  | case8 => cases h

/-- What is read as a number is spelled by segments of digits with additions between them, and the
number is the sum of their values. -/
theorem exists_segments_of_read? {word : List Char} {n : Nat} (h : read? word = some n) :
    ∃ segments : List Segment, (∀ segment ∈ segments, ∀ d ∈ segment.digits, d < 10) ∧
      morphemes word = some ([.add].intercalate (segments.map Segment.morphemes)) ∧
      word = ['ド'].intercalate (segments.map Segment.word) ∧
      n = (segments.map Segment.value).sum ∧ n ≤ Number.maxInt := by
  unfold read? at h
  split at h
  · cases h
  · obtain ⟨found, hfound, hvalue⟩ := Option.bind_eq_some_iff.mp h
    obtain ⟨hspelled, hdigits⟩ := of_morphemes_eq_some hfound
    obtain ⟨first, others, -, rfl, rfl, hle⟩ := exists_segments_of_evaluate hvalue
    refine ⟨first :: others, ?_, ?_, ?_, ?_, hle⟩
    · intro segment hsegment d hd
      apply hdigits
      have hmem := Segment.digit_mem_morphemes hd
      rcases List.mem_cons.mp hsegment with rfl | hsegment
      · exact List.mem_append_left _ hmem
      · exact List.mem_append_right _
          (List.mem_flatMap.mpr ⟨segment, hsegment, List.mem_cons_of_mem _ hmem⟩)
    · rw [hfound, List.map_cons, intercalate_cons, List.flatMap_map]
    · rw [hspelled, List.map_cons, intercalate_cons, List.flatMap_map, List.flatMap_append,
        List.flatMap_assoc]
      rfl
    · rw [Segment.valueAfter_none, Nat.zero_add, List.map_cons, List.sum_cons]

end Segments

/-- Numeral words are sums of products.  A written sum is read as what it says, unless something on
the way is too large; and every word that is read as a number is such a sum, where a product may
also be missing or start with its connective. -/
theorem read?_sumOfProducts :
    (∀ products : List (List Nat), products ≠ [] → IsSum products →
      read? (sumWord products) =
        if RunsWithin products then some (products.map List.prod).sum else none) ∧
    ∀ (word : List Char) (n : Nat), read? word = some n →
      ∃ segments : List Segment, (∀ segment ∈ segments, ∀ d ∈ segment.digits, d < 10) ∧
        morphemes word = some ([.add].intercalate (segments.map Segment.morphemes)) ∧
        word = ['ド'].intercalate (segments.map Segment.word) ∧
        n = (segments.map Segment.value).sum ∧ n ≤ Number.maxInt :=
  ⟨fun _ hne hsum => read?_sumWord_eq_ite hne hsum, fun _ _ h => exists_segments_of_read? h⟩

/-- Nines beyond the largest number are no numeral, though their product with zero is small; and a
segment may be missing or start with its connective. -/
theorem read?_sumOfProducts_mixed :
    read? (sumWord [[9, 9], [1]]) = some 82 ∧
    read? (sumWord [List.replicate 20 9 ++ [0]]) = none ∧
    ∃ segments : List Segment, "グバギンドド".toList = ['ド'].intercalate (segments.map Segment.word) ∧
      9 = (segments.map Segment.value).sum := by
  obtain ⟨hwritten, hread⟩ := read?_sumOfProducts
  refine ⟨?_, ?_, ?_⟩
  · rw [hwritten _ (by decide) (by simp [IsSum])]
    decide +kernel
  · rw [hwritten _ (by decide) (by simp [IsSum])]
    decide +kernel
  · obtain ⟨segments, -, -, hword, hvalue, -⟩ := hread "グバギンドド".toList 9 (by cbv)
    exact ⟨segments, hword, hvalue⟩

end KanaScript.Numeral
