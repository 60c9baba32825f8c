import KanaScript.Proofs.Text.Run
import KanaScript.Token.Scan
import Mathlib.Data.List.Find

/-! How each token is spelled, in front of what follows it.  The scanner's first lexeme of a text is
the only one that is spelled so. -/

namespace KanaScript

namespace Vocabulary

/-- The kinds of literals, each with the marks that open and close it. -/
def literalMarks : List (TokenKind × Char × Char) :=
  [(.stringLiteral, '「', '」'), (.charLiteral, '『', '』')]

/-- The characters that are tokens of their own or open a literal. -/
def marks : List Char :=
  ['、', ',', '。', ';', '：', ':', '(', '（', ')', '）', '[', '［', ']', '］', '\x7b', '｛', '\x7d', '｝',
    '「', '『']

theorem punctuation?_eq_none {c : Char} (h : c ∉ marks) : punctuation? c = none := by
  unfold punctuation?
  split <;> simp [marks] at h ⊢

/-- A character of a class without marks is none. -/
theorem unmarked {p : Char → Bool} (hp : (marks.all fun c => !p c) = true) {c : Char}
    (hc : p c = true) : punctuation? c = none ∧ c ≠ '「' ∧ c ≠ '『' := by
  have hmark : c ∉ marks := fun h => by simpa [hc] using List.all_eq_true.mp hp c h
  refine ⟨punctuation?_eq_none hmark, ?_, ?_⟩
  · rintro rfl
    exact hmark (by decide)
  · rintro rfl
    exact hmark (by decide)

theorem of_bracket?_eq_some {cs : List Char} {bracket : Bracket} (h : bracket? cs = some bracket) :
    bracket ∈ brackets ∧ bracket.word <+: cs := by
  have hfound := List.find?_some h
  exact ⟨List.mem_of_find?_eq_some h, List.isPrefixOf_iff_prefix.mp hfound⟩

/-- Bracket words are written in katakana. -/
theorem bracket_word {bracket : Bracket} (h : bracket ∈ brackets) :
    bracket.word ≠ [] ∧ bracket.word.all Text.isKatakana = true := by
  revert bracket
  decide

/-- A bracket word does not reach beyond a place where no word goes on. -/
theorem bracket?_append {text rest : List Char}
    (h : ∀ c ∈ rest.head?, Text.continuesWord c = false) :
    bracket? (text ++ rest) = bracket? text := by
  refine List.find?_congr fun bracket hmem => Bool.eq_iff_iff.mpr ?_
  rw [List.isPrefixOf_iff_prefix, List.isPrefixOf_iff_prefix]
  refine Text.isPrefix_append_iff (fun c hc => ?_) h
  have hkatakana := List.all_eq_true.mp (bracket_word hmem).2 c hc
  simp [Text.continuesWord, hkatakana]

end Vocabulary

namespace Lexeme

open Vocabulary

/-- The lexeme is spelled so in front of `rest`: a word, a name and a number are as long as they can
be, a bracket word ends where it is complete, and only the end of the text leaves a literal
unclosed. -/
inductive Spelled (rest : List Char) : Lexeme → Prop
  | punctuation {c : Char} {kind : TokenKind} {text : String}
      (h : punctuation? c = some (kind, text)) : Spelled rest ⟨kind, .text text, [c]⟩
  | closed {kind : TokenKind} {opening closing : Char} {body : List Char}
      (marks : (kind, opening, closing) ∈ literalMarks) (hbody : closing ∉ body) :
      Spelled rest ⟨kind, .text (String.ofList body), opening :: (body ++ [closing])⟩
  | unclosed {kind : TokenKind} {opening closing : Char} {body : List Char}
      (marks : (kind, opening, closing) ∈ literalMarks) (hbody : closing ∉ body)
      (last : rest = []) :
      Spelled rest ⟨kind, .text (String.ofList body), opening :: body⟩
  | bracket {found : Bracket} (h : bracket? (found.word ++ rest) = some found) :
      Spelled rest ⟨found.kind, .text found.text, found.word⟩
  | word {c : Char} {cs : List Char} {kind : TokenKind} {payload : Payload}
      (hc : Text.isKatakana c = true) (run : Text.IsRun Text.continuesWord cs rest)
      (unbracketed : bracket? (c :: cs ++ rest) = none)
      (meaning : classify (String.ofList (c :: cs)) = (kind, payload)) :
      Spelled rest ⟨kind, payload, c :: cs⟩
  | name {c : Char} {cs : List Char} (hc : Text.startsName c = true)
      (run : Text.IsRun Text.continuesName cs rest) :
      Spelled rest ⟨.identifier, .text (String.ofList (c :: cs)), c :: cs⟩
  | number {c : Char} {cs : List Char} (hc : c.isDigit = true)
      (run : Text.IsRun continuesNumber cs rest) :
      Spelled rest ⟨.number, .number (.ofLiteral (c :: cs)), c :: cs⟩
  | unknown {c : Char} (unmarked : punctuation? c = none)
      (unquoted : ∀ marks ∈ literalMarks, c ≠ marks.2.1) (hkatakana : Text.isKatakana c = false)
      (hname : Text.startsName c = false) (hdigit : c.isDigit = false) :
      Spelled rest ⟨.unknown, .text (String.singleton c), [c]⟩

section First

theorem literal_closed (kind : TokenKind) (opening : Char) {closing : Char} {body : List Char}
    (h : closing ∉ body) (rest : List Char) :
    literal kind opening closing (body ++ closing :: rest) =
      ⟨kind, .text (String.ofList body), opening :: (body ++ [closing])⟩ := by
  have hrun : Text.IsRun (· != closing) body (closing :: rest) :=
    ⟨fun c hc => bne_iff_ne.mpr fun e => h (e ▸ hc), by simp⟩
  simp [literal, hrun.takeWhile_append, List.take_append, List.take_of_length_le]

theorem literal_unclosed (kind : TokenKind) (opening : Char) {closing : Char} {body : List Char}
    (h : closing ∉ body) :
    literal kind opening closing body = ⟨kind, .text (String.ofList body), opening :: body⟩ := by
  have hrun : Text.IsRun (· != closing) body [] :=
    ⟨fun c hc => bne_iff_ne.mpr fun e => h (e ▸ hc), by simp⟩
  have hbody : body.takeWhile (· != closing) = body := by simpa using hrun.takeWhile_append
  simp [literal, hbody, List.take_of_length_le]

theorem spelled_literal {kind : TokenKind} {opening closing : Char}
    (marks : (kind, opening, closing) ∈ literalMarks) (cs : List Char) :
    ∃ rest, opening :: cs = (literal kind opening closing cs).spelling ++ rest ∧
      (literal kind opening closing cs).Spelled rest := by
  obtain ⟨body, rest, rfl, run⟩ := Text.exists_isRun (· != closing) cs
  have hbody : closing ∉ body := fun h => by simpa using run.all _ h
  cases rest with
  | nil =>
    rw [List.append_nil, literal_unclosed kind opening hbody]
    exact ⟨[], by simp, .unclosed marks hbody rfl⟩
  | cons c rest =>
    obtain rfl : c = closing := by simpa using run.stop c rfl
    rw [literal_closed kind opening hbody]
    exact ⟨rest, by simp, .closed marks hbody⟩

theorem spelled_word {c : Char} (hc : Text.isKatakana c = true) (cs : List Char) :
    ∃ rest, c :: cs = (word c cs).spelling ++ rest ∧ (word c cs).Spelled rest := by
  unfold word
  split
  · rename_i found hfound
    obtain ⟨rest, hrest⟩ := (of_bracket?_eq_some hfound).2
    exact ⟨rest, hrest.symm, .bracket (hrest ▸ hfound)⟩
  · rename_i hnone
    obtain ⟨run, rest, rfl, hrun⟩ := Text.exists_isRun Text.continuesWord cs
    rw [hrun.takeWhile_append]
    exact ⟨rest, rfl, .word hc hrun hnone rfl⟩

/-- The first lexeme of a text is spelled by the characters that the text starts with. -/
theorem spelled_first (c : Char) (cs : List Char) :
    ∃ rest, c :: cs = (first c cs).spelling ++ rest ∧ (first c cs).Spelled rest := by
  unfold first
  split
  · rename_i hmark
    exact ⟨cs, rfl, .punctuation hmark⟩
  rename_i hmark
  by_cases hstring : c = '「'
  · rw [if_pos hstring, hstring]
    exact spelled_literal (by decide) cs
  by_cases hchar : c = '『'
  · rw [if_neg hstring, if_pos hchar, hchar]
    exact spelled_literal (by decide) cs
  rw [if_neg hstring, if_neg hchar]
  split
  · rename_i hc
    exact spelled_word hc cs
  split
  · rename_i hc
    obtain ⟨run, rest, rfl, hrun⟩ := Text.exists_isRun Text.continuesName cs
    rw [hrun.takeWhile_append]
    exact ⟨rest, rfl, .name hc hrun⟩
  split
  · rename_i hc
    obtain ⟨run, rest, rfl, hrun⟩ := Text.exists_isRun continuesNumber cs
    rw [hrun.takeWhile_append]
    exact ⟨rest, rfl, .number hc hrun⟩
  · rename_i hkatakana hname hdigit
    refine ⟨cs, rfl, .unknown hmark ?_ ?_ ?_ ?_⟩
    · simp [literalMarks, hstring, hchar]
    · simpa using hkatakana
    · simpa using hname
    · simpa using hdigit

end First

section Unique

theorem le_of_isKatakana {c : Char} (h : Text.isKatakana c = true) : 0x30A1 ≤ c.toNat := by
  obtain ⟨range, hrange, hle, -⟩ := Text.Ranges.covers_iff.mp h
  have hleast : ∀ range ∈ Text.katakanaRanges, 0x30A1 ≤ range.1 := by decide
  exact Nat.le_trans (hleast range hrange) hle

theorem lt_of_isDigit {c : Char} (h : c.isDigit = true) : c.toNat < 64 := by
  simp only [Char.isDigit, Bool.and_eq_true, decide_eq_true_eq, UInt32.le_iff_toNat_le, ge_iff_le,
    Char.reduceVal, UInt32.reduceToNat] at h
  show c.val.toNat < 64
  omega

theorem first_of_isKatakana {c : Char} (h : Text.isKatakana c = true) (cs : List Char) :
    first c cs = word c cs := by
  obtain ⟨hmark, hstring, hchar⟩ := unmarked (by decide) h
  rw [first, hmark]
  simp [hstring, hchar, h]

theorem first_of_startsName {c : Char} (h : Text.startsName c = true) (cs : List Char) :
    first c cs = ⟨.identifier, .text (String.ofList (c :: cs.takeWhile Text.continuesName)),
      c :: cs.takeWhile Text.continuesName⟩ := by
  obtain ⟨hmark, hstring, hchar⟩ := unmarked (by decide) h
  have hkatakana : ¬Text.isKatakana c = true := fun hk => by
    have hle := le_of_isKatakana hk
    have hlt := Text.lt_of_startsName h
    omega
  rw [first, hmark]
  simp [hstring, hchar, hkatakana, h]

theorem first_of_isDigit {c : Char} (h : c.isDigit = true) (cs : List Char) :
    first c cs = ⟨.number, .number (.ofLiteral (c :: cs.takeWhile continuesNumber)),
      c :: cs.takeWhile continuesNumber⟩ := by
  obtain ⟨hmark, hstring, hchar⟩ := unmarked (by decide) h
  have hlt := lt_of_isDigit h
  have hkatakana : ¬Text.isKatakana c = true := fun hk => by
    have hle := le_of_isKatakana hk
    omega
  have hname : ¬Text.startsName c = true := fun hn => by
    have hlt' := Text.lt_of_startsName hn
    omega
  rw [first, hmark]
  simp [hstring, hchar, hkatakana, hname, h]

theorem first_of_literalMarks {kind : TokenKind} {opening closing : Char}
    (h : (kind, opening, closing) ∈ literalMarks) (cs : List Char) :
    first opening cs = literal kind opening closing cs := by
  simp only [literalMarks, List.mem_cons, Prod.mk.injEq, List.not_mem_nil, or_false] at h
  rcases h with ⟨rfl, rfl, rfl⟩ | ⟨rfl, rfl, rfl⟩
  · rfl
  · rfl

/-- The lexeme that is spelled so is the first one of the text. -/
theorem Spelled.eq_first {lexeme : Lexeme} {rest : List Char} (h : lexeme.Spelled rest) {c : Char}
    {cs : List Char} (hcs : c :: cs = lexeme.spelling ++ rest) : first c cs = lexeme := by
  cases h with
  | punctuation h =>
    cases hcs
    rw [first, h]
  | closed marks hbody =>
    obtain ⟨rfl, rfl⟩ := List.cons.inj (hcs.trans List.cons_append)
    rw [first_of_literalMarks marks, ← List.append_cons, literal_closed _ _ hbody]
  | unclosed marks hbody last =>
    obtain ⟨rfl, rfl⟩ := List.cons.inj (hcs.trans List.cons_append)
    rw [first_of_literalMarks marks, last, List.append_nil, literal_unclosed _ _ hbody]
  | @bracket found h =>
    -- the first character of a bracket word leads the scanner to look for one
    have hc : Text.isKatakana c = true := by
      obtain ⟨hne, hall⟩ := bracket_word (of_bracket?_eq_some h).1
      obtain ⟨d, tail, hword⟩ := List.exists_cons_of_ne_nil hne
      rw [hword, List.cons_append] at hcs
      rw [hword, List.all_cons, Bool.and_eq_true] at hall
      rw [(List.cons.inj hcs).1, hall.1]
    rw [first_of_isKatakana hc, Lexeme.word, hcs, h]
  | word hc run unbracketed meaning =>
    obtain ⟨rfl, rfl⟩ := List.cons.inj (hcs.trans List.cons_append)
    rw [first_of_isKatakana hc, Lexeme.word, ← List.cons_append, unbracketed]
    simp only [run.takeWhile_append, meaning]
  | name hc run =>
    obtain ⟨rfl, rfl⟩ := List.cons.inj (hcs.trans List.cons_append)
    rw [first_of_startsName hc, run.takeWhile_append]
  | number hc run =>
    obtain ⟨rfl, rfl⟩ := List.cons.inj (hcs.trans List.cons_append)
    rw [first_of_isDigit hc, run.takeWhile_append]
  | unknown unmarked unquoted hkatakana hname hdigit =>
    obtain ⟨rfl, rfl⟩ := List.cons.inj (hcs.trans List.cons_append)
    simp only [literalMarks, List.forall_mem_cons] at unquoted
    rw [first, unmarked]
    simp [unquoted, hkatakana, hname, hdigit]

theorem Spelled.ne_nil {lexeme : Lexeme} {rest : List Char} (h : lexeme.Spelled rest) :
    lexeme.spelling ≠ [] := by
  cases h with
  | bracket h => exact (bracket_word (of_bracket?_eq_some h).1).1
  | _ => exact List.cons_ne_nil _ _

/-- A text starts with one lexeme only. -/
theorem Spelled.unique {lexeme other : Lexeme} {rest more : List Char} (h : lexeme.Spelled rest)
    (h' : other.Spelled more) (heq : lexeme.spelling ++ rest = other.spelling ++ more) :
    lexeme = other := by
  obtain ⟨c, tail, hspelling⟩ := List.exists_cons_of_ne_nil h.ne_nil
  have hcs : c :: (tail ++ rest) = lexeme.spelling ++ rest := by rw [hspelling, List.cons_append]
  rw [← h.eq_first hcs, h'.eq_first (hcs.trans heq)]

theorem keyword?_kind {word : String} {found : TokenKind × String}
    (h : keyword? word = some found) :
    found.1 ∈ [TokenKind.typeKeyword, .controlKeyword, .otherKeyword] := by
  unfold keyword? at h
  split at h
  · cases h
    simp
  split at h
  · cases h
    simp
  · obtain ⟨spelling, -, rfl⟩ := Option.map_eq_some_iff.mp h
    simp

/-- A word is a keyword, an operator, a name or a number with its value. -/
theorem classify_kind (word : String) :
    (classify word).1 ∈ [TokenKind.typeKeyword, .controlKeyword, .otherKeyword, .operator,
      .identifier] ∨ ∃ value, classify word = (.number, .number value) := by
  unfold classify
  split
  · rename_i hkeyword
    have hmem := keyword?_kind hkeyword
    exact .inl (List.mem_append_left [TokenKind.operator, .identifier] hmem)
  split
  · exact .inl (by simp)
  split
  · exact .inr ⟨_, rfl⟩
  · exact .inl (by simp)

theorem literalMarks_kind : ∀ marks ∈ literalMarks, marks.1 ≠ .eof ∧ marks.1 ≠ .number := by decide

theorem brackets_kind : ∀ bracket ∈ brackets, bracket.kind ≠ .eof ∧ bracket.kind ≠ .number := by
  decide

theorem Spelled.kind_ne_eof {lexeme : Lexeme} {rest : List Char} (h : lexeme.Spelled rest) :
    lexeme.kind ≠ .eof := by
  cases h with
  | punctuation h =>
    unfold punctuation? at h
    split at h <;> cases h <;> exact nofun
  | closed marks hbody => exact (literalMarks_kind _ marks).1
  | unclosed marks hbody last => exact (literalMarks_kind _ marks).1
  | bracket h => exact (brackets_kind _ (of_bracket?_eq_some h).1).1
  | @word c cs kind payload hc run unbracketed meaning =>
    rcases meaning ▸ classify_kind (String.ofList (c :: cs)) with hkind | ⟨value, hvalue⟩
    · rintro rfl
      simp at hkind
    · cases hvalue
      exact nofun
  | name hc run => exact nofun
  | number hc run => exact nofun
  | unknown unmarked unquoted hkatakana hname hdigit => exact nofun

/-- A number carries its value. -/
theorem Spelled.exists_number {lexeme : Lexeme} {rest : List Char} (h : lexeme.Spelled rest)
    (hkind : lexeme.kind = .number) : ∃ value, lexeme.payload = .number value := by
  cases h with
  | punctuation h =>
    unfold punctuation? at h
    split at h <;> cases h <;> cases hkind
  | closed marks hbody => exact absurd hkind (literalMarks_kind _ marks).2
  | unclosed marks hbody last => exact absurd hkind (literalMarks_kind _ marks).2
  | bracket h => exact absurd hkind (brackets_kind _ (of_bracket?_eq_some h).1).2
  | @word c cs kind payload hc run unbracketed meaning =>
    rcases meaning ▸ classify_kind (String.ofList (c :: cs)) with hword | ⟨value, hvalue⟩
    · rw [show kind = .number from hkind] at hword
      simp at hword
    · cases hvalue
      exact ⟨value, rfl⟩
  | name hc run => cases hkind
  | number hc run => exact ⟨_, rfl⟩
  | unknown unmarked unquoted hkatakana hname hdigit => cases hkind

end Unique

end Lexeme

end KanaScript
