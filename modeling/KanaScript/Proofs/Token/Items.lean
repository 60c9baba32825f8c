import KanaScript.Proofs.Token.Seam
import Mathlib.Data.List.Induction
import Mathlib.Data.Nat.Digits.Defs

/-! Sequences of words, brackets, names, numbers and literals.  Written with a space between
neighbours, or with none after a bracket word, each of them is read as one token, with the meaning
that the tables give it. -/

namespace KanaScript

open Layout (IsLayout Starts)

namespace Vocabulary

/-- The keyword tables with the kinds of their words. -/
def keywordTables : List (TokenKind × List (String × String)) :=
  [(.typeKeyword, typeKeywords), (.controlKeyword, controlKeywords), (.otherKeyword, otherKeywords)]

/-- The words of the keyword and operator tables. -/
def tableWords : List String := (keywordTables.flatMap Prod.snd ++ operators).map Prod.fst

/-- What a word means: keywords go before operators, operators before numerals, and what is none of
them is a name. -/
inductive Means (word : String) : TokenKind → Payload → Prop
  | keyword {kind : TokenKind} {table : List (String × String)} {spelling : String}
      (htable : (kind, table) ∈ keywordTables) (hword : (word, spelling) ∈ table) :
      Means word kind (.text (if spelling.isEmpty then word else spelling))
  | operator {spelling : String}
      (hkeyword : ∀ table ∈ keywordTables, ∀ entry ∈ table.2, entry.1 ≠ word)
      (hword : (word, spelling) ∈ operators) : Means word .operator (.text spelling)
  | numeral {value : Nat} (hkeyword : ∀ table ∈ keywordTables, ∀ entry ∈ table.2, entry.1 ≠ word)
      (hoperator : ∀ entry ∈ operators, entry.1 ≠ word)
      (hvalue : Numeral.read? word.toList = some value) : Means word .number (.number (.int value))
  | name (hkeyword : ∀ table ∈ keywordTables, ∀ entry ∈ table.2, entry.1 ≠ word)
      (hoperator : ∀ entry ∈ operators, entry.1 ≠ word)
      (hvalue : Numeral.read? word.toList = none) : Means word .identifier (.text word)

section Lookup

variable {table : List (String × String)} {word spelling : String}

theorem mem_of_lookup_eq_some (h : table.lookup word = some spelling) :
    (word, spelling) ∈ table := by
  obtain ⟨before, after, rfl, -⟩ := List.lookup_eq_some_iff.mp h
  exact List.mem_append_right before List.mem_cons_self

theorem ne_of_lookup_eq_none (h : table.lookup word = none) : ∀ entry ∈ table, entry.1 ≠ word := by
  intro entry hentry heq
  have hne := List.lookup_eq_none_iff.mp h entry hentry
  exact bne_iff_ne.mp hne heq.symm

theorem mem_of_keyword?_eq_some {kind : TokenKind} (h : keyword? word = some (kind, spelling)) :
    ∃ table, (kind, table) ∈ keywordTables ∧ (word, spelling) ∈ table := by
  unfold keyword? at h
  split at h
  · next htype =>
    cases h
    exact ⟨typeKeywords, by simp [keywordTables], mem_of_lookup_eq_some htype⟩
  split at h
  · next hcontrol =>
    cases h
    exact ⟨controlKeywords, by simp [keywordTables], mem_of_lookup_eq_some hcontrol⟩
  · obtain ⟨other, hother, heq⟩ := Option.map_eq_some_iff.mp h
    cases heq
    exact ⟨otherKeywords, by simp [keywordTables], mem_of_lookup_eq_some hother⟩

theorem ne_of_keyword?_eq_none (h : keyword? word = none) :
    ∀ table ∈ keywordTables, ∀ entry ∈ table.2, entry.1 ≠ word := by
  unfold keyword? at h
  split at h
  · cases h
  split at h
  · cases h
  · next htype _ hcontrol =>
    have hother := Option.map_eq_none_iff.mp h
    simp only [keywordTables, List.forall_mem_cons]
    exact ⟨ne_of_lookup_eq_none htype, ne_of_lookup_eq_none hcontrol, ne_of_lookup_eq_none hother,
      nofun⟩

end Lookup

/-- The scanner gives a word its meaning. -/
theorem means_classify (word : String) :
    Means word (Lexeme.classify word).1 (Lexeme.classify word).2 := by
  unfold Lexeme.classify
  split
  · next hkeyword =>
    obtain ⟨table, htable, hword⟩ := mem_of_keyword?_eq_some hkeyword
    exact .keyword htable hword
  next hkeyword =>
  replace hkeyword := ne_of_keyword?_eq_none hkeyword
  split
  · next hoperator => exact .operator hkeyword (mem_of_lookup_eq_some hoperator)
  next hoperator =>
  replace hoperator := ne_of_lookup_eq_none hoperator
  split
  · next hvalue => exact .numeral hkeyword hoperator hvalue
  · next hvalue => exact .name hkeyword hoperator hvalue

/-- No word stands in two places of the keyword tables. -/
theorem keyword?_of_mem : ∀ table ∈ keywordTables, ∀ entry ∈ table.2,
    keyword? entry.1 = some (table.1, entry.2) := by decide

theorem operator?_of_mem : ∀ entry ∈ operators, operator? entry.1 = some entry.2 := by decide

theorem keyword?_eq_none {word : String}
    (h : ∀ table ∈ keywordTables, ∀ entry ∈ table.2, entry.1 ≠ word) : keyword? word = none := by
  cases hfound : keyword? word with
  | none => rfl
  | some found =>
    obtain ⟨table, htable, hword⟩ := mem_of_keyword?_eq_some hfound
    exact absurd rfl (h _ htable _ hword)

theorem operator?_eq_none {word : String} (h : ∀ entry ∈ operators, entry.1 ≠ word) :
    operator? word = none := by
  rw [operator?, List.lookup_eq_none_iff]
  exact fun entry hentry => bne_iff_ne.mpr (h entry hentry).symm

/-- A word has one meaning only. -/
theorem Means.eq_classify {word : String} {kind : TokenKind} {payload : Payload}
    (h : Means word kind payload) : Lexeme.classify word = (kind, payload) := by
  unfold Lexeme.classify
  cases h with
  | keyword htable hword => rw [keyword?_of_mem _ htable _ hword]
  | operator hkeyword hword => rw [keyword?_eq_none hkeyword, operator?_of_mem _ hword]
  | numeral hkeyword hoperator hvalue =>
    rw [keyword?_eq_none hkeyword, operator?_eq_none hoperator, hvalue]
  | name hkeyword hoperator hvalue =>
    rw [keyword?_eq_none hkeyword, operator?_eq_none hoperator, hvalue]

/-- A bracket word and what makes another bracket word of it. -/
def fusions : List (String × String) :=
  [("ザジレ", "ジョヂザギ"), ("ザジレ", "パギセヅ"), ("ゴパシ", "ジョヂザギ"), ("ゴパシ", "ザギセヅ")]

/-- The bracket word does not become another one in front of `rest`. -/
def Bracket.Apart (bracket : Bracket) (rest : List Char) : Prop :=
  ∀ fusion ∈ fusions, fusion.1.toList = bracket.word → ¬fusion.2.toList <+: rest

instance (bracket : Bracket) (rest : List Char) : Decidable (bracket.Apart rest) :=
  inferInstanceAs (Decidable (∀ fusion ∈ fusions, fusion.1.toList = bracket.word →
    ¬fusion.2.toList <+: rest))

/-- A bracket word begins an earlier one only as a fusion, and none begins a later one. -/
theorem brackets_pairwise : brackets.Pairwise fun first second =>
    ¬first.word <+: second.word ∧ (second.word <+: first.word →
      ∃ fusion ∈ fusions, fusion.1.toList = second.word ∧
        second.word ++ fusion.2.toList = first.word) := by
  decide

theorem Bracket.Apart.bracket?_eq {bracket : Bracket} {rest : List Char} (h : bracket.Apart rest)
    (hmem : bracket ∈ brackets) : bracket? (bracket.word ++ rest) = some bracket := by
  obtain ⟨longer, shorter, hbrackets⟩ := List.append_of_mem hmem
  have hpairwise := brackets_pairwise
  rw [hbrackets, List.pairwise_append] at hpairwise
  rw [bracket?, List.find?_eq_some_iff_append]
  refine ⟨List.isPrefixOf_iff_prefix.mpr (List.prefix_append _ _), longer, shorter, hbrackets, ?_⟩
  intro other hother
  obtain ⟨hfirst, hsecond⟩ := hpairwise.2.2 other hother bracket List.mem_cons_self
  rw [Bool.not_eq_true', ← Bool.not_eq_true, List.isPrefixOf_iff_prefix]
  intro hprefix
  rcases List.prefix_or_prefix_of_prefix hprefix (List.prefix_append _ _) with hword | hword
  · exact hfirst hword
  · obtain ⟨fusion, hfusion, hbegins, heq⟩ := hsecond hword
    rw [← heq, List.prefix_append_right_inj] at hprefix
    exact h fusion hfusion hbegins hprefix

/-- Nothing is glued to a bracket word in front of white space or at the end of the text. -/
theorem Bracket.apart_of_isBlank (bracket : Bracket) {rest : List Char}
    (h : ∀ c ∈ rest.head?, Text.isBlank c = true) : bracket.Apart rest := by
  intro fusion hfusion _ hprefix
  have hhead : ∀ fusion ∈ fusions, fusion.2.toList.head?.map Text.isBlank = some false := by decide
  obtain ⟨c, hc, hblank⟩ := Option.map_eq_some_iff.mp (hhead fusion hfusion)
  obtain ⟨more, rfl⟩ := hprefix
  have hfirst := h c (by rw [List.head?_append, hc]; rfl)
  rw [hblank] at hfirst
  cases hfirst

end Vocabulary

open Vocabulary

section Items

/-- A run of katakana that the long mark may continue but not start. -/
def Text.isWord : List Char → Bool
  | [] => false
  | c :: cs => isKatakana c && cs.all continuesWord

/-- A word of the tables or any other run of katakana, unless it begins with a bracket word or opens
a comment. -/
structure IsWord (text : List Char) : Prop where
  run : (∃ word ∈ tableWords, word.toList = text) ∨ Text.isWord text = true
  unbracketed : ∀ bracket ∈ brackets, ¬bracket.word <+: text
  uncommented : ∀ marker ∈ ["ゴゴ", "ゴビ"], ¬marker.toList <+: text

/-- The number that a text writes in decimal. -/
def decimalValue (text : List Char) : Nat :=
  Nat.ofDigits 10 (text.reverse.map fun c => c.toNat - '0'.toNat)

/-- The decimal digits of a number below `2 ^ 63`. -/
structure IsDecimal (text : List Char) : Prop where
  ne_nil : text ≠ []
  all : ∀ c ∈ text, c.isDigit = true
  lt : decimalValue text < 2 ^ 63

/-- What is written and read as one token. -/
inductive SourceItem
  | word (text : List Char) (h : IsWord text)
  | bracket (found : Bracket) (h : found ∈ brackets)
  | name (text : List Char) (h : Text.isIdentifier text = true)
  | decimal (text : List Char) (h : IsDecimal text)
  | literal (kind : TokenKind) (opening closing : Char) (body : List Char)
      (marks : (kind, opening, closing) ∈ literalMarks) (h : closing ∉ body)

namespace SourceItem

def spelling : SourceItem → List Char
  | word text _ => text
  | bracket found _ => found.word
  | name text _ => text
  | decimal text _ => text
  | literal _ opening closing body _ _ => opening :: (body ++ [closing])

def Means : SourceItem → TokenKind → Payload → Prop
  | word text _, kind, payload => Vocabulary.Means (String.ofList text) kind payload
  | bracket found _, kind, payload => kind = found.kind ∧ payload = .text found.text
  | name text _, kind, payload => kind = .identifier ∧ payload = .text (String.ofList text)
  | decimal text _, kind, payload => kind = .number ∧ payload = .number (.int (decimalValue text))
  | literal marked _ _ body _ _, kind, payload =>
    kind = marked ∧ payload = .text (String.ofList body)

theorem Means.unique {item : SourceItem} {kind other : TokenKind} {payload more : Payload}
    (h : item.Means kind payload) (h' : item.Means other more) : kind = other ∧ payload = more := by
  cases item with
  | word text => exact Prod.mk.inj (h.eq_classify.symm.trans h'.eq_classify)
  | _ => exact ⟨h.1.trans h'.1.symm, h.2.trans h'.2.symm⟩

end SourceItem

theorem isWord_of_mem_tableWords : ∀ word ∈ tableWords, Text.isWord word.toList = true := by decide

theorem IsWord.exists_cons {text : List Char} (h : IsWord text) : ∃ c cs, text = c :: cs ∧
    Text.isKatakana c = true ∧ ∀ d ∈ cs, Text.continuesWord d = true := by
  have hrun : Text.isWord text = true := by
    rcases h.run with ⟨word, hword, rfl⟩ | hrun
    · exact isWord_of_mem_tableWords word hword
    · exact hrun
  cases text with
  | nil => cases hrun
  | cons c cs =>
    rw [Text.isWord, Bool.and_eq_true, List.all_eq_true] at hrun
    exact ⟨c, cs, rfl, hrun⟩

theorem digitsValue_eq (digits : List Char) : Number.digitsValue digits = decimalValue digits := by
  induction digits using List.reverseRecOn with
  | nil => rfl
  | append_singleton digits c ih =>
    rw [Number.digitsValue, List.foldl_append, ← Number.digitsValue, ih, decimalValue, decimalValue,
      List.reverse_append, List.reverse_singleton, List.singleton_append, List.map_cons,
      Nat.ofDigits_cons, List.foldl_cons, List.foldl_nil, Nat.add_comm]

/-- Digits are a whole number as far as those reach. -/
theorem ofLiteral_digits {digits : List Char} (h : ∀ c ∈ digits, c.isDigit = true) :
    Number.ofLiteral digits =
      if decimalValue digits ≤ Number.maxInt then .int (decimalValue digits)
      else .real (.ofRatio (Number.digitsValue digits) 1) := by
  have hrun : Text.IsRun Char.isDigit digits [] := ⟨h, nofun⟩
  have hwhole : digits.takeWhile Char.isDigit = digits := by simpa using hrun.takeWhile_append
  simp [Number.ofLiteral, hwhole, digitsValue_eq]

theorem IsDecimal.ofLiteral_eq {text : List Char} (h : IsDecimal text) :
    Number.ofLiteral text = .int (decimalValue text) := by
  have hle : decimalValue text ≤ Number.maxInt := Nat.le_sub_one_of_lt h.lt
  rw [ofLiteral_digits h.all, if_pos hle]

/-- In front of white space and at the end of the text, an item is spelled by its characters. -/
theorem SourceItem.exists_spelled (item : SourceItem) {rest : List Char}
    (h : ∀ c ∈ rest.head?, Text.isBlank c = true) : ∃ kind payload, item.Means kind payload ∧
      Lexeme.Spelled rest ⟨kind, payload, item.spelling⟩ := by
  have hstop : ∀ c ∈ rest.head?, Lexeme.Breaks c := fun c hc => Lexeme.breaks_of_isBlank (h c hc)
  cases item with
  | word text hword =>
    obtain ⟨c, cs, rfl, hc, hcs⟩ := hword.exists_cons
    have hnone : bracket? (c :: cs ++ rest) = none := by
      rw [bracket?_append fun d hd => (hstop d hd).word, bracket?, List.find?_eq_none]
      exact fun found hfound hbegins =>
        hword.unbracketed found hfound (List.isPrefixOf_iff_prefix.mp hbegins)
    exact ⟨_, _, means_classify _, .word hc ⟨hcs, fun d hd => (hstop d hd).word⟩ hnone rfl⟩
  | bracket found hfound =>
    exact ⟨_, _, ⟨rfl, rfl⟩, .bracket ((found.apart_of_isBlank h).bracket?_eq hfound)⟩
  | name text hname =>
    cases text with
    | nil => cases hname
    | cons c cs =>
      rw [Text.isIdentifier, Bool.and_eq_true, List.all_eq_true] at hname
      exact ⟨_, _, ⟨rfl, rfl⟩, .name hname.1 ⟨hname.2, fun d hd => (hstop d hd).name⟩⟩
  | decimal text hdecimal =>
    refine ⟨_, _, ⟨rfl, rfl⟩, ?_⟩
    rw [← hdecimal.ofLiteral_eq]
    obtain ⟨c, cs, rfl⟩ := List.exists_cons_of_ne_nil hdecimal.ne_nil
    have hall := List.forall_mem_cons.mp hdecimal.all
    refine .number hall.1 ⟨fun d hd => ?_, fun d hd => (hstop d hd).number⟩
    rw [Lexeme.continuesNumber, hall.2 d hd, Bool.true_or]
  | literal kind opening closing body marks hbody => exact ⟨_, _, ⟨rfl, rfl⟩, .closed marks hbody⟩

theorem not_isBlank {p : Char → Bool} (hp : ([' ', '\t', '\r', '\n'].all fun c => !p c) = true)
    {c : Char} (hc : p c = true) : Text.isBlank c = false := by
  by_contra hblank
  simp only [Text.isBlank, Bool.not_eq_false, Bool.or_eq_true, beq_iff_eq] at hblank
  rcases hblank with ((rfl | rfl) | rfl) | rfl <;> simp [hc] at hp

theorem not_starts_bracket {found : Bracket} (h : found ∈ brackets) (rest : List Char) :
    ¬Starts (found.word ++ rest) := by
  have hwords : ∀ found ∈ brackets, ['ザ', 'ジ'] <+: found.word ∨ ['ゴ', 'パ'] <+: found.word := by
    decide
  rcases hwords found h with ⟨more, hmore⟩ | ⟨more, hmore⟩
  · rw [← hmore]
    rintro (hblank | _ | _)
    exact absurd hblank (by decide)
  · rw [← hmore]
    rintro (hblank | _ | _)
    exact absurd hblank (by decide)

theorem SourceItem.spelling_ne_nil (item : SourceItem) : item.spelling ≠ [] := by
  obtain ⟨kind, payload, -, hspelled⟩ := @exists_spelled item [] nofun
  exact hspelled.ne_nil

/-- No item starts with white space or a comment. -/
theorem SourceItem.not_starts (item : SourceItem) {rest : List Char}
    (h : ∀ c ∈ rest.head?, Text.isBlank c = true) : ¬Starts (item.spelling ++ rest) := by
  suffices hnil : ¬Starts (item.spelling ++ []) from
    Layout.not_starts_append item.spelling_ne_nil hnil
      fun c hc => (Lexeme.breaks_of_isBlank (h c hc)).word
  rw [List.append_nil]
  cases item with
  | word text hword =>
    obtain ⟨c, cs, rfl, hc, hcs⟩ := hword.exists_cons
    rintro (hblank | _ | _)
    · exact absurd hblank (by simp [not_isBlank (by decide) hc])
    · exact hword.uncommented "ゴゴ" (by simp) ⟨_, rfl⟩
    · exact hword.uncommented "ゴビ" (by simp) ⟨_, rfl⟩
  | bracket found hfound =>
    have hstarts := not_starts_bracket hfound []
    rwa [List.append_nil] at hstarts
  | name text hname =>
    cases text with
    | nil => cases hname
    | cons c cs =>
      rw [Text.isIdentifier, Bool.and_eq_true] at hname
      refine Layout.not_starts_cons (not_isBlank (by decide) hname.1) ?_
      rintro rfl
      exact absurd hname.1 (by decide)
  | decimal text hdecimal =>
    obtain ⟨c, cs, rfl⟩ := List.exists_cons_of_ne_nil hdecimal.ne_nil
    have hc := (List.forall_mem_cons.mp hdecimal.all).1
    refine Layout.not_starts_cons (not_isBlank (by decide) hc) ?_
    rintro rfl
    exact absurd hc (by decide)
  | literal kind opening closing body marks hbody =>
    have hmarks : ∀ marks ∈ literalMarks, Text.isBlank marks.2.1 = false ∧ marks.2.1 ≠ 'ゴ' := by
      decide
    obtain ⟨hblank, hmark⟩ := hmarks _ marks
    exact Layout.not_starts_cons hblank hmark

end Items

section Sequence

/-- An item and what is written between it and the next one. -/
structure Entry where
  item : SourceItem
  gap : List Char

def Entry.text (entry : Entry) : List Char := entry.item.spelling ++ entry.gap

/-- The text of a sequence of items. -/
def written (entries : List Entry) : List Char := entries.flatMap Entry.text

/-- Neighbours stand apart by one space, or by nothing after a bracket word that stays the same. -/
inductive WellSpaced : List Entry → Prop
  | nil : WellSpaced []
  | last (item : SourceItem) : WellSpaced [⟨item, []⟩]
  | spaced (item : SourceItem) {entries : List Entry} (others : WellSpaced entries) :
      WellSpaced (⟨item, [' ']⟩ :: entries)
  | glued {found : Bracket} (h : found ∈ brackets) {entries : List Entry}
      (apart : found.Apart (written entries)) (others : WellSpaced entries) :
      WellSpaced (⟨.bracket found h, []⟩ :: entries)

/-- The tokens of a sequence that is written after `before`: one for each item, with the meaning of
the item and the position of its first character, and the end token. -/
inductive Denotes : (before : List Char) → List Entry → List Token → Prop
  | last {before : List Char} : Denotes before [] [⟨.eof, .none, .after before⟩]
  | item {before : List Char} {entry : Entry} {entries : List Entry} {kind : TokenKind}
      {payload : Payload} {tokens : List Token} (means : entry.item.Means kind payload)
      (others : Denotes (before ++ entry.text) entries tokens) :
      Denotes before (entry :: entries) (⟨kind, payload, .after before⟩ :: tokens)

theorem Scans.entry {before : List Char} {entry : Entry} {entries : List Entry} {kind : TokenKind}
    {payload : Payload} {tokens : List Token} (hgap : IsLayout (written entries) entry.gap)
    (hstarts : ¬Starts (entry.item.spelling ++ (entry.gap ++ written entries)))
    (spelled : Lexeme.Spelled (entry.gap ++ written entries) ⟨kind, payload, entry.item.spelling⟩)
    (others : Scans (before ++ entry.text) (written entries) tokens) :
    Scans before (written (entry :: entries)) (⟨kind, payload, .after before⟩ :: tokens) := by
  rw [Entry.text, ← List.append_assoc] at others
  have hrest : Scans (before ++ [] ++ entry.item.spelling) (entry.gap ++ written entries)
      tokens := by
    rw [List.append_nil]
    exact others.prepend hgap
  have hscans := Scans.token .nil hstarts spelled hrest
  rw [List.nil_append, List.append_nil] at hscans
  rwa [written, List.flatMap_cons, Entry.text, List.append_assoc]

theorem WellSpaced.exists_scans {entries : List Entry} (h : WellSpaced entries)
    (before : List Char) :
    ∃ tokens, Scans before (written entries) tokens ∧ Denotes before entries tokens := by
  have hend (before : List Char) : Scans before [] [⟨.eof, .none, .after before⟩] := by
    have hscans := @Scans.last before [] .nil
    rwa [List.append_nil] at hscans
  induction h generalizing before with
  | nil => exact ⟨_, hend before, .last⟩
  | last item =>
    obtain ⟨kind, payload, means, spelled⟩ := @SourceItem.exists_spelled item [] nofun
    have hstarts := @SourceItem.not_starts item [] nofun
    exact ⟨_, .entry .nil hstarts spelled (hend _), .item means .last⟩
  | @spaced item entries others ih =>
    have hblank : ∀ c ∈ ([' '] ++ written entries).head?, Text.isBlank c = true := by simp; rfl
    obtain ⟨kind, payload, means, spelled⟩ := item.exists_spelled hblank
    obtain ⟨tokens, hscans, hdenotes⟩ := ih (before ++ (item.spelling ++ [' ']))
    exact ⟨_, .entry (.blank rfl .nil) (item.not_starts hblank) spelled hscans,
      .item means hdenotes⟩
  | @glued found h entries apart others ih =>
    obtain ⟨tokens, hscans, hdenotes⟩ := ih (before ++ (found.word ++ []))
    have spelled : Lexeme.Spelled (written entries) ⟨found.kind, .text found.text, found.word⟩ :=
      .bracket (apart.bracket?_eq h)
    exact ⟨_, .entry .nil (not_starts_bracket h _) spelled hscans, .item ⟨rfl, rfl⟩ hdenotes⟩

theorem Denotes.unique {before : List Char} {entries : List Entry} {tokens others : List Token}
    (h : Denotes before entries tokens) (h' : Denotes before entries others) : tokens = others := by
  induction h generalizing others with
  | last =>
    cases h'
    rfl
  | item means _ ih =>
    cases h' with
    | item means' others' =>
      obtain ⟨rfl, rfl⟩ := means.unique means'
      rw [ih others']

/-- Words lex one to one, those that are glued to a bracket word included: the tokens of a sequence
of items are one for each item, and the end token. -/
theorem tokenize_written_iff {entries : List Entry} (h : WellSpaced entries) {tokens : List Token} :
    tokenize (String.ofList (written entries)) = tokens ↔ Denotes [] entries tokens := by
  obtain ⟨found, hscans, hdenotes⟩ := h.exists_scans []
  rw [tokenize_of_scans hscans]
  exact ⟨fun heq => heq ▸ hdenotes, fun hother => hdenotes.unique hother⟩

/-- A bracket word is glued to another one, and that one to a keyword. -/
theorem denotes_glued_brackets :
    ∃ entries, WellSpaced entries ∧
      String.ofList (written entries) = "ザジレジョヂザギゴパシパザ 「ゴゴ」" ∧
      Denotes [] entries [⟨.openParen, .text "(", ⟨1, 1⟩⟩, ⟨.closeBrace, .text "\x7d", ⟨1, 9⟩⟩,
        ⟨.otherKeyword, .text "パザ", ⟨1, 12⟩⟩, ⟨.stringLiteral, .text "ゴゴ", ⟨1, 15⟩⟩,
        ⟨.eof, .none, ⟨1, 19⟩⟩] := by
  have hspaced : WellSpaced [
      ⟨.bracket ⟨"ザジレジョヂザギ".toList, .openParen, "("⟩ (by simp [brackets]), []⟩,
      ⟨.bracket ⟨"ゴパシ".toList, .closeBrace, "\x7d"⟩ (by simp [brackets]), []⟩,
      ⟨.word "パザ".toList ⟨.inr (by decide), by decide, by decide⟩, [' ']⟩,
      ⟨.literal .stringLiteral '「' '」' ['ゴ', 'ゴ'] (by decide) (by decide), []⟩] :=
    .glued _ (by decide) (.glued _ (by decide) (.spaced _ (.last _)))
  exact ⟨_, hspaced, by decide, (tokenize_written_iff hspaced).mp (by decide +kernel)⟩

end Sequence

end KanaScript
