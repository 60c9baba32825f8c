import KanaScript.Transliteration
import Mathlib.Data.List.Find

/-! Transliteration in parts.  Only a name that lies across a seam joins what stands on its two
sides: where there is none, the text in front of a seam and the text behind it are transliterated
apart. -/

namespace KanaScript.Transliteration

variable {c : Char} {cs front back tail noun : List Char}

/-- A name in `front ++ back` starts inside `front` and ends inside `back`. -/
def Straddled (front back : List Char) : Prop :=
  ∃ noun ∈ properNouns, ∃ before after, front ++ back = before ++ noun ++ after ∧
    before.length < front.length ∧ front.length < before.length + noun.length

section Cuts

/-- Such a name is cut in two by the seam. -/
theorem straddled_iff : Straddled front back ↔ ∃ noun ∈ properNouns, ∃ n ∈ List.range noun.length,
    0 < n ∧ noun.take n <:+ front ∧ noun.drop n <+: back := by
  refine exists_congr fun noun => and_congr_right fun _ => ?_
  constructor
  · rintro ⟨before, after, htext, hstart, hend⟩
    rw [List.append_assoc] at htext
    obtain ⟨inner, rfl, hrest⟩ :
        ∃ inner, front = before ++ inner ∧ noun ++ after = inner ++ back := by
      rcases List.append_eq_append_iff.mp htext with ⟨more, rfl, -⟩ | h
      · rw [List.length_append] at hstart
        omega
      · exact h
    rw [List.length_append] at hstart hend
    obtain ⟨outer, rfl, hback⟩ : ∃ outer, noun = inner ++ outer ∧ back = outer ++ after := by
      rcases List.append_eq_append_iff.mp hrest with ⟨more, rfl, -⟩ | h
      · rw [List.length_append] at hend
        omega
      · exact h
    rw [List.length_append] at hend
    refine ⟨inner.length, List.mem_range.mpr ?_, by omega, ?_, ?_⟩
    · rw [List.length_append]
      omega
    · rw [List.take_left]
      exact List.suffix_append before inner
    · rw [List.drop_left, hback]
      exact List.prefix_append outer after
  · rintro ⟨n, hn, hpos, ⟨before, rfl⟩, ⟨after, rfl⟩⟩
    rw [List.mem_range] at hn
    have hlength : (noun.take n).length = n := List.length_take_of_le (Nat.le_of_lt hn)
    refine ⟨before, after, ?_, ?_, ?_⟩
    · calc before ++ noun.take n ++ (noun.drop n ++ after)
          = before ++ (noun.take n ++ noun.drop n) ++ after := by simp only [List.append_assoc]
        _ = before ++ noun ++ after := by rw [List.take_append_drop]
    · rw [List.length_append, hlength]
      omega
    · rw [List.length_append, hlength]
      omega

instance (front back : List Char) : Decidable (Straddled front back) :=
  decidable_of_iff _ straddled_iff.symm

theorem Straddled.of_suffix (h : Straddled tail back) (htail : tail <:+ front) :
    Straddled front back := by
  obtain ⟨noun, hnoun, n, hn, hpos, hinner, houter⟩ := straddled_iff.mp h
  exact straddled_iff.mpr ⟨noun, hnoun, n, hn, hpos, hinner.trans htail, houter⟩

/-- Where no name occurs, none lies across a seam. -/
theorem not_straddled_of_absent (h : ∀ noun ∈ properNouns, ¬noun <:+: front ++ back) :
    ¬Straddled front back := by
  rintro ⟨noun, hnoun, before, after, htext, -⟩
  exact h noun hnoun ⟨before, after, htext.symm⟩

end Cuts

section Names

/-- Only a name that lies across the seam could start in `front` and not be seen there. -/
theorem isPrefix_append_iff (hseam : ¬Straddled (c :: cs) back) (hnoun : noun ∈ properNouns) :
    noun <+: c :: cs ++ back ↔ noun <+: c :: cs := by
  refine ⟨fun h => ?_, fun h => h.trans (List.prefix_append _ back)⟩
  rcases List.prefix_or_prefix_of_prefix h (List.prefix_append _ back) with h' | ⟨outer, rfl⟩
  · exact h'
  · cases outer with
    | nil => simp
    | cons d outer =>
      obtain ⟨after, hafter⟩ := h
      exact absurd ⟨_, hnoun, [], after, hafter.symm, by simp, by simp⟩ hseam

theorem noun?_append (hseam : ¬Straddled (c :: cs) back) :
    noun? (c :: cs ++ back) = noun? (c :: cs) := by
  refine List.find?_congr fun noun hnoun => Bool.eq_iff_iff.mpr ?_
  rw [List.isPrefixOf_iff_prefix, List.isPrefixOf_iff_prefix]
  exact isPrefix_append_iff hseam hnoun

theorem of_noun?_eq_some (h : noun? cs = some noun) : noun ∈ properNouns ∧ noun <+: cs := by
  have hbegins := List.find?_some h
  exact ⟨List.mem_of_find?_eq_some h, List.isPrefixOf_iff_prefix.mp hbegins⟩

/-- A name is no beginning of a longer one that it is listed behind, so that it is found itself. -/
theorem noun?_self : ∀ noun ∈ properNouns, noun? noun = some noun := by decide

theorem noun?_singleton (c : Char) : noun? [c] = none := by
  have hlong : ∀ noun ∈ properNouns, 1 < noun.length := by decide
  refine List.find?_eq_none.mpr fun noun hnoun h => ?_
  have hle := (List.isPrefixOf_iff_prefix.mp h).length_le
  exact absurd (hlong noun hnoun) (Nat.not_lt.mpr hle)

end Names

section Texts

/-- The scan of a text comes to rest on every seam that no name lies across. -/
theorem convert_append (hseam : ¬Straddled front back) :
    convert (front ++ back) = convert front ++ convert back := by
  -- along the scan of `front`: what is left of it is a suffix, so its seam is not straddled either
  fun_induction convert front with
  | case1 => rfl
  | case2 c cs noun hnoun ih =>
    have hle : noun.length - 1 ≤ cs.length := by
      have hlength := (of_noun?_eq_some hnoun).2.length_le
      rw [List.length_cons] at hlength
      omega
    have hrest : ¬Straddled (cs.drop (noun.length - 1)) back := fun h =>
      hseam (h.of_suffix ((List.drop_suffix _ cs).trans (List.suffix_cons c cs)))
    have hfound : noun? (c :: (cs ++ back)) = some noun := (noun?_append hseam).trans hnoun
    rw [List.cons_append, convert, hfound]
    dsimp only
    rw [List.drop_append_of_le_length hle, ih hrest, List.append_assoc]
  | case3 c cs hnone ih =>
    have hrest : ¬Straddled cs back := fun h => hseam (h.of_suffix (List.suffix_cons c cs))
    have hfound : noun? (c :: (cs ++ back)) = none := (noun?_append hseam).trans hnone
    rw [List.cons_append, convert, hfound]
    dsimp only
    rw [ih hrest, List.append_assoc]

theorem convert_singleton (c : Char) : convert [c] = sound c := by
  rw [convert, noun?_singleton, convert]
  exact List.append_nil _

theorem convert_of_absent (h : ∀ noun ∈ properNouns, ¬noun <:+: cs) :
    convert cs = cs.flatMap sound := by
  induction cs with
  | nil => rw [convert, List.flatMap_nil]
  | cons c cs ih =>
    have hrest : ∀ noun ∈ properNouns, ¬noun <:+: cs := fun noun hnoun hocc =>
      h noun hnoun (hocc.trans (List.suffix_cons c cs).isInfix)
    calc convert ([c] ++ cs)
        = convert [c] ++ convert cs := convert_append (not_straddled_of_absent h)
      _ = sound c ++ cs.flatMap sound := by rw [convert_singleton, ih hrest]
      _ = (c :: cs).flatMap sound := (List.flatMap_cons).symm

theorem convert_self (hnoun : noun ∈ properNouns) : convert noun = noun := by
  have hfound := noun?_self noun hnoun
  cases noun with
  | nil => rw [convert]
  | cons c cs =>
    rw [convert, hfound]
    dsimp only
    rw [List.length_cons, Nat.add_sub_cancel, List.drop_length, convert, List.append_nil]

/-- Two texts are transliterated apart if no name lies across their seam; hence a text without names
is transliterated character by character, and a name that stands between two seams with no name
across them is copied. -/
theorem convert_compositional :
    (∀ front back, ¬Straddled front back →
        convert (front ++ back) = convert front ++ convert back) ∧
      (∀ text, (∀ noun ∈ properNouns, ¬noun <:+: text) → convert text = text.flatMap sound) ∧
      ∀ noun ∈ properNouns, ∀ before after,
        ¬Straddled before (noun ++ after) → ¬Straddled (before ++ noun) after →
        convert (before ++ noun ++ after) = convert before ++ noun ++ convert after := by
  refine ⟨fun _ _ => convert_append, fun _ => convert_of_absent, ?_⟩
  intro noun hnoun before after hbefore hafter
  have hbehind : ¬Straddled noun after := fun h =>
    hafter (h.of_suffix (List.suffix_append before noun))
  rw [List.append_assoc, convert_append hbefore, convert_append hbehind, convert_self hnoun,
    List.append_assoc]

/-- The name starts one character behind the place where the scan first sees two of its sounds. -/
theorem convert_compositional_doubled :
    ¬Straddled "あゲ".toList ("ゲゲル".toList ++ "をする".toList) ∧
      ¬Straddled ("あゲ".toList ++ "ゲゲル".toList) "をする".toList ∧
      convert "あゲゲゲルをする".toList = "ガゲゲゲルゾグス".toList := by
  have hbefore : ¬Straddled "あゲ".toList ("ゲゲル".toList ++ "をする".toList) := by decide
  have hafter : ¬Straddled ("あゲ".toList ++ "ゲゲル".toList) "をする".toList := by decide
  have htext : "あゲゲゲルをする".toList = "あゲ".toList ++ "ゲゲル".toList ++ "をする".toList := by decide
  obtain ⟨-, hplain, hnoun⟩ := convert_compositional
  refine ⟨hbefore, hafter, ?_⟩
  rw [htext, hnoun _ (by decide) _ _ hbefore hafter, hplain "あゲ".toList (by decide),
    hplain "をする".toList (by decide)]
  decide

end Texts

end KanaScript.Transliteration
