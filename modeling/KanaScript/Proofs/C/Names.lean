import KanaScript.Proofs.C.Spelling
import Mathlib.InformationTheory.Coding.UniquelyDecodable

/-! The C identifiers of names.  Every name gets one, and a name that is one keeps it.  Different
names made of syllables get different ones: the nasal and the long mark apart, the letters of a
syllable end at their first vowel, so that the letters of a name are cut into syllables in one way
only. -/

namespace KanaScript.C

section Identifiers

/-- A character of `[A-Za-z_]`. -/
def IsNameLetter (c : Char) : Prop := ('A' ≤ c ∧ c ≤ 'Z') ∨ ('a' ≤ c ∧ c ≤ 'z') ∨ c = '_'

/-- The text matches `[A-Za-z_][A-Za-z0-9_]*`. -/
def MatchesName (cs : List Char) : Prop :=
  ∃ c more, cs = c :: more ∧ IsNameLetter c ∧ ∀ d ∈ more, IsNameLetter d ∨ ('0' ≤ d ∧ d ≤ '9')

theorem continuesName_iff {c : Char} :
    Text.continuesName c = true ↔ IsNameLetter c ∨ ('0' ≤ c ∧ c ≤ '9') := by
  have hdigit : c.isDigit = true ↔ '0' ≤ c ∧ c ≤ '9' := by simp [Char.isDigit, Char.le_def]
  rw [IsNameLetter, ← Text.startsName_iff, ← hdigit]
  simp only [Text.continuesName, Text.startsName, Char.isAlphanum, Bool.or_eq_true]
  exact or_right_comm

theorem isIdentifier_iff {cs : List Char} : Text.isIdentifier cs = true ↔ MatchesName cs := by
  cases cs with
  | nil => simp [Text.isIdentifier, MatchesName]
  | cons c cs =>
    simp only [Text.isIdentifier, Bool.and_eq_true, List.all_eq_true, Text.startsName_iff,
      continuesName_iff]
    constructor
    · rintro ⟨hc, hcs⟩
      exact ⟨c, cs, rfl, hc, hcs⟩
    · rintro ⟨c', cs', heq, hc, hcs⟩
      obtain ⟨rfl, rfl⟩ := List.cons.inj heq
      exact ⟨hc, hcs⟩

theorem identifier_of_isIdentifier {name : String} (h : Text.isIdentifier name.toList = true) :
    identifier name = name := by
  rw [identifier_eq, if_pos h]

/-- Every name gets an identifier, which is its own; and the names that are kept are the
identifiers. -/
theorem identifier_matchesName_and_stable (name : String) :
    MatchesName (identifier name).toList ∧ identifier (identifier name) = identifier name ∧
      (identifier name = name ↔ MatchesName name.toList) := by
  have hname := isIdentifier_identifier name
  refine ⟨isIdentifier_iff.mp hname, identifier_of_isIdentifier hname, fun h => ?_, fun h => ?_⟩
  · exact isIdentifier_iff.mp (h ▸ hname)
  · exact identifier_of_isIdentifier (isIdentifier_iff.mpr h)

end Identifiers

section Code

/-- The vowels that a syllable may end with. -/
def isVowel (c : Char) : Bool := ['a', 'i', 'u', 'e', 'o'].contains c

/-- The letters end with a vowel, and have no other. -/
def EndsAtVowel (letters : List Char) : Prop :=
  ∃ v, letters.dropWhile (!isVowel ·) = [v]

theorem EndsAtVowel.exists_concat {letters : List Char} (h : EndsAtVowel letters) :
    ∃ onset v, letters = onset ++ [v] ∧ isVowel v = true ∧ ∀ c ∈ onset, isVowel c = false := by
  obtain ⟨v, hv⟩ := h
  refine ⟨letters.takeWhile (!isVowel ·), v, ?_, ?_, fun c hc => ?_⟩
  · rw [← hv, List.takeWhile_append_dropWhile]
  · have hstop := List.head?_dropWhile_not (!isVowel ·) letters
    simpa [hv] using hstop
  · simpa using List.all_eq_true.mp List.all_takeWhile c hc

/-- Of two texts that agree, the same letters are cut off at the first vowel. -/
theorem EndsAtVowel.append_inj {a b x y : List Char} (ha : EndsAtVowel a) (hb : EndsAtVowel b)
    (h : a ++ x = b ++ y) : a = b ∧ x = y := by
  obtain ⟨onset, v, rfl, hv, honset⟩ := ha.exists_concat
  obtain ⟨onset', v', rfl, hv', honset'⟩ := hb.exists_concat
  have cut : ∀ {onset : List Char} {v : Char}, isVowel v = true →
      (∀ c ∈ onset, isVowel c = false) →
      ∀ rest, (onset ++ [v] ++ rest).takeWhile (!isVowel ·) = onset := by
    intro onset v hv honset rest
    rw [List.append_assoc]
    exact Text.IsRun.takeWhile_append
      ⟨fun c hc => by simp [honset c hc], fun c hc => by simp_all⟩
  have hsame : onset = onset' := by rw [← cut hv honset x, h, cut hv' honset' y]
  subst hsame
  rw [List.append_assoc, List.append_assoc, List.append_cancel_left_eq] at h
  obtain ⟨rfl, rfl⟩ := List.cons.inj h
  exact ⟨rfl, rfl⟩

theorem uniquelyDecodable_of_endsAtVowel {S : Set (List Char)} (h : ∀ w ∈ S, EndsAtVowel w) :
    InformationTheory.UniquelyDecodable S := by
  have nonempty : ∀ w ∈ S, w ≠ [] := by
    rintro w hw rfl
    obtain ⟨v, hv⟩ := h [] hw
    cases hv
  intro words words' hwords hwords' heq
  induction words generalizing words' with
  | nil =>
    cases words' with
    | nil => rfl
    | cons w' words' =>
      rw [List.forall_mem_cons] at hwords'
      exact absurd (List.append_eq_nil_iff.mp heq.symm).1 (nonempty w' hwords'.1)
  | cons w words ih =>
    rw [List.forall_mem_cons] at hwords
    cases words' with
    | nil => exact absurd (List.append_eq_nil_iff.mp heq).1 (nonempty w hwords.1)
    | cons w' words' =>
      rw [List.forall_mem_cons] at hwords'
      obtain ⟨rfl, hrest⟩ := (h w hwords.1).append_inj (h w' hwords'.1) heq
      rw [ih words' hwords.2 hwords'.2 hrest]

end Code

section Syllables

/-- The syllables of the tables, as a script has them. -/
def tableSyllables : List (List Char) :=
  syllables.map (fun entry => [entry.1]) ++ digraphs.map fun entry => [entry.1.1, entry.1.2]

/-- The syllables whose letters no others can be read into. -/
def plainSyllables : List (List Char) :=
  tableSyllables.filter fun part => part != ['ン'] && part != ['ー']

/-- The name is put together of syllables of the tables, none of them the nasal or the long mark. -/
def IsSyllabic (name : String) : Prop :=
  ∃ parts : List (List Char), name.toList = parts.flatten ∧
    ∀ part ∈ parts, part ∈ tableSyllables ∧ part ≠ ['ン'] ∧ part ≠ ['ー']

theorem IsSyllabic.exists_plain {name : String} (h : IsSyllabic name) :
    ∃ parts : List (List Char), name.toList = parts.flatten ∧ parts ⊆ plainSyllables := by
  obtain ⟨parts, hname, hparts⟩ := h
  refine ⟨parts, hname, fun part hpart => ?_⟩
  obtain ⟨htable, hnasal, hlong⟩ := hparts part hpart
  exact List.mem_filter.mpr ⟨htable, by simp [hnasal, hlong]⟩

theorem plainSyllables_cases {part : List Char} (h : part ∈ plainSyllables) :
    (∃ c, part = [c]) ∨ ∃ entry ∈ digraphs, part = [entry.1.1, entry.1.2] := by
  rcases List.mem_append.mp (List.mem_filter.mp h).1 with h | h
  · obtain ⟨entry, -, rfl⟩ := List.mem_map.mp h
    exact .inl ⟨_, rfl⟩
  · obtain ⟨entry, hentry, rfl⟩ := List.mem_map.mp h
    exact .inr ⟨entry, hentry, rfl⟩

/-- A syllable starts with no letter of an identifier, and with no second half of a syllable. -/
theorem exists_cons_of_mem_plainSyllables {part : List Char} (h : part ∈ plainSyllables) :
    ∃ c more, part = c :: more ∧ Text.startsName c = false ∧
      ∀ before, digraphs.lookup (before, c) = none := by
  have foreign : ∀ part ∈ plainSyllables, part.head?.any Text.startsName = false := by
    decide +kernel
  have second : ∀ part ∈ plainSyllables, ∀ entry ∈ digraphs, part.head? ≠ some entry.1.2 := by
    decide +kernel
  obtain ⟨c, more, rfl⟩ : ∃ c more, part = c :: more := by
    rcases plainSyllables_cases h with ⟨c, rfl⟩ | ⟨entry, -, rfl⟩
    · exact ⟨_, _, rfl⟩
    · exact ⟨_, _, rfl⟩
  refine ⟨c, more, rfl, by simpa using foreign _ h, fun before => ?_⟩
  rw [List.lookup_eq_none_iff]
  intro entry hentry
  have hne : c ≠ entry.1.2 := by simpa using second _ h entry hentry
  simp [Prod.ext_iff, hne]

/-- The letters of a syllable are not changed by the syllables after it. -/
theorem romanize_append {part : List Char} {parts : List (List Char)} (h : part ∈ plainSyllables)
    (hparts : parts ⊆ plainSyllables) :
    romanize (part ++ parts.flatten) = romanize part ++ romanize parts.flatten := by
  rcases plainSyllables_cases h with ⟨c, rfl⟩ | ⟨entry, hentry, rfl⟩
  · cases parts with
    | nil => simp [romanize]
    | cons next parts =>
      obtain ⟨d, more, rfl, -, hsecond⟩ :=
        exists_cons_of_mem_plainSyllables (hparts List.mem_cons_self)
      simp [romanize, hsecond c]
  · have hlookup : ∀ entry ∈ digraphs,
        digraphs.lookup (entry.1.1, entry.1.2) = some entry.2 := by decide
    simp [romanize, hlookup entry hentry]

/-- A name is romanized syllable by syllable. -/
theorem romanize_flatten : ∀ {parts : List (List Char)}, parts ⊆ plainSyllables →
    romanize parts.flatten = (parts.map romanize).flatten
  | [], _ => by simp [romanize]
  | part :: parts, h => by
    obtain ⟨hpart, hparts⟩ := List.cons_subset.mp h
    rw [List.flatten_cons, romanize_append hpart hparts, romanize_flatten hparts, List.map_cons,
      List.flatten_cons]

/-- The syllable that has the letters. -/
def syllableOf (letters : List Char) : List Char :=
  (plainSyllables.find? fun part => romanize part == letters).getD []

theorem map_syllableOf_romanize {parts : List (List Char)} (h : parts ⊆ plainSyllables) :
    (parts.map romanize).map syllableOf = parts := by
  have back : ∀ part ∈ plainSyllables, syllableOf (romanize part) = part := by decide +kernel
  rw [List.map_map]
  exact (List.map_congr_left fun part hpart => back part (h hpart)).trans (List.map_id parts)

theorem uniquelyDecodable_romanize :
    InformationTheory.UniquelyDecodable {w | ∃ part ∈ plainSyllables, romanize part = w} := by
  have ends : ∀ part ∈ plainSyllables,
      ((romanize part).dropWhile (!isVowel ·)).length = 1 := by decide +kernel
  refine uniquelyDecodable_of_endsAtVowel ?_
  rintro w ⟨part, hpart, rfl⟩
  exact List.length_eq_one_iff.mp (ends part hpart)

theorem romanize_flatten_inj {parts others : List (List Char)} (h : parts ⊆ plainSyllables)
    (h' : others ⊆ plainSyllables) (heq : romanize parts.flatten = romanize others.flatten) :
    parts = others := by
  rw [romanize_flatten h, romanize_flatten h'] at heq
  have hwords : parts.map romanize = others.map romanize :=
    uniquelyDecodable_romanize _ _
      (List.forall_mem_map.mpr fun part hpart => ⟨part, h hpart, rfl⟩)
      (List.forall_mem_map.mpr fun part hpart => ⟨part, h' hpart, rfl⟩) heq
  rw [← map_syllableOf_romanize h, hwords, map_syllableOf_romanize h']

/-- The letters of a syllable are not those that stand for the empty name. -/
theorem romanName_flatten_cons {part : List Char} {parts : List (List Char)}
    (h : part :: parts ⊆ plainSyllables) :
    romanName (part :: parts).flatten = romanize (part :: parts).flatten ∧
      romanize (part :: parts).flatten ≠ placeholder := by
  have first : ∀ part ∈ plainSyllables, (romanize part).head?.any (· != 'v') = true := by
    decide +kernel
  have hpart := h List.mem_cons_self
  obtain ⟨c, more, rfl, -⟩ := exists_cons_of_mem_plainSyllables hpart
  refine ⟨romanName_eq _, fun hplace => ?_⟩
  rw [romanize_flatten h, List.map_cons, List.flatten_cons] at hplace
  have hhead := first _ hpart
  cases hletters : romanize (c :: more) with
  | nil => simp [hletters] at hhead
  | cons letter letters =>
    rw [hletters] at hplace hhead
    have hletter : letter = 'v' := (List.cons.inj hplace).1
    simp [hletter] at hhead

theorem romanName_flatten_inj {parts others : List (List Char)} (h : parts ⊆ plainSyllables)
    (h' : others ⊆ plainSyllables) (heq : romanName parts.flatten = romanName others.flatten) :
    parts = others := by
  match parts, others with
  | [], [] => rfl
  | [], other :: others =>
    obtain ⟨hroman, hne⟩ := romanName_flatten_cons h'
    exact absurd (heq.trans hroman).symm hne
  | part :: parts, [] =>
    obtain ⟨hroman, hne⟩ := romanName_flatten_cons h
    exact absurd (hroman.symm.trans heq) hne
  | part :: parts, other :: others =>
    rw [(romanName_flatten_cons h).1, (romanName_flatten_cons h').1] at heq
    exact romanize_flatten_inj h h' heq

theorem identifier_flatten {name : String} {parts : List (List Char)}
    (h : parts ⊆ plainSyllables) (hname : name.toList = parts.flatten) :
    identifier name = String.ofList (romanName parts.flatten) := by
  have hno : Text.isIdentifier parts.flatten = false := by
    cases parts with
    | nil => rfl
    | cons part parts =>
      obtain ⟨c, more, rfl, hc, -⟩ := exists_cons_of_mem_plainSyllables (h List.mem_cons_self)
      simp [Text.isIdentifier, hc]
  rw [identifier_eq, hname, hno, if_neg Bool.false_ne_true]

/-- Names made of syllables other than the nasal and the long mark get the same identifier only if
they are the same. -/
theorem identifier_eq_iff_of_syllabic {a b : String} (ha : IsSyllabic a) (hb : IsSyllabic b) :
    identifier a = identifier b ↔ a = b := by
  refine ⟨fun heq => ?_, fun heq => heq ▸ rfl⟩
  obtain ⟨parts, hparts, plain⟩ := ha.exists_plain
  obtain ⟨others, hothers, plain'⟩ := hb.exists_plain
  rw [identifier_flatten plain hparts, identifier_flatten plain' hothers,
    String.ofList_inj] at heq
  rw [← String.toList_inj, hparts, hothers, romanName_flatten_inj plain plain' heq]

/-- A small character belongs to the syllable before it, a large one is a syllable of its own. -/
theorem identifier_ne_split_digraph :
    IsSyllabic "ジョウ" ∧ IsSyllabic "ジヨウ" ∧ identifier "ジョウ" ≠ identifier "ジヨウ" := by
  have joined : IsSyllabic "ジョウ" := ⟨[['ジ', 'ョ'], ['ウ']], by decide, by decide⟩
  have apart : IsSyllabic "ジヨウ" := ⟨[['ジ'], ['ヨ'], ['ウ']], by decide, by decide⟩
  exact ⟨joined, apart, fun heq =>
    absurd ((identifier_eq_iff_of_syllabic joined apart).mp heq) (by decide)⟩

/-- The nasal ends in no vowel, so that it may run into the syllable after it. -/
example : identifier "ンア" = identifier "ナ" := by decide +kernel

end Syllables

end KanaScript.C
