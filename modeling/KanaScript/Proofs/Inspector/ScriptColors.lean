import KanaScript.Proofs.Inspector.ScriptSpans
import Mathlib.Data.List.Induction

/-! The colours of a line against its tokens.  The scanner looks for a comment in front of every
lexeme and takes the digits of a name for a part of it; the colouring does neither.  They agree on
the comments and the literals of a line exactly if it has none of three things: a comment glued to a
bracket word, a numeral glued to one by a long mark, and a name with a digit. -/

namespace KanaScript

open Layout (Starts)
open Text (continuesWord isKatakana longMark IsRun)

namespace Stretch

/-- A bracket that is written as a word. -/
def IsBracketWord (stretch : Stretch) : Prop :=
  ∃ bracket ∈ Vocabulary.brackets, stretch = ⟨.token bracket.kind, bracket.word⟩

def IsLongMark (stretch : Stretch) : Prop := stretch.text = [longMark]

/-- A name with a digit in it. -/
def IsDigitName (stretch : Stretch) : Prop :=
  stretch.role = .token .identifier ∧ ∃ c ∈ stretch.text, c.isDigit = true

def IsNumeralWord (stretch : Stretch) : Prop :=
  stretch.role = .token .number ∧ ∃ c ∈ stretch.text.head?, isKatakana c = true

instance (stretch : Stretch) : Decidable stretch.IsBracketWord :=
  inferInstanceAs (Decidable (∃ bracket ∈ Vocabulary.brackets, _))

instance (stretch : Stretch) : Decidable stretch.IsLongMark :=
  inferInstanceAs (Decidable (_ = _))

end Stretch

namespace Inspector.Highlight

section Steps

variable {glue : Glue} {stretch : Stretch} {rest : List Char}

/-- The glue behind a stretch. -/
def Glue.next (glue : Glue) (stretch : Stretch) : Glue :=
  match glue with
  | .apart => if stretch.IsBracketWord then .bracket else .apart
  | .bracket =>
    if stretch.IsBracketWord then .bracket else if stretch.IsLongMark then .mark else .apart
  | .mark => if stretch.IsBracketWord ∨ stretch.IsLongMark then .mark else .apart

/-- Behind such glue the colouring does not see the stretch for what it is. -/
def Glue.Misses (glue : Glue) (stretch : Stretch) : Prop :=
  stretch.IsDigitName ∨ glue ≠ .apart ∧ stretch.role = .comment ∨
    glue = .mark ∧ stretch.IsNumeralWord

/-- The colouring goes on behind a stretch if it sees it, and else gives some character of it a
wrong shade. -/
inductive Step (glue : Glue) (stretch : Stretch) (rest : List Char) : Prop
  | seen (h : ¬glue.Misses stretch) (heq : shades (glue.spans (stretch.text ++ rest)) =
      List.replicate stretch.text.length (.ofRole stretch.role) ++
        shades ((glue.next stretch).spans rest))
  | missed (h : glue.Misses stretch) {i : Nat} (hi : i < stretch.text.length)
      (hne : (shades (glue.spans (stretch.text ++ rest)))[i]? ≠ some (.ofRole stretch.role))

theorem Glue.not_misses (hname : ¬stretch.IsDigitName) (hrole : stretch.role ≠ .comment)
    (hnumeral : glue = .mark → ¬stretch.IsNumeralWord) : ¬glue.Misses stretch := by
  rintro (h | ⟨-, h⟩ | ⟨hmark, h⟩)
  · exact hname h
  · exact hrole h
  · exact hnumeral hmark h

theorem Glue.next_eq_apart (glue : Glue) (hbracket : ¬stretch.IsBracketWord)
    (hmark : ¬stretch.IsLongMark) : glue.next stretch = .apart := by
  cases glue <;> simp [next, hbracket, hmark]

theorem head_of_isBracketWord (h : stretch.IsBracketWord) :
    ∃ c ∈ stretch.text.head?, isKatakana c = true := by
  obtain ⟨bracket, hmem, rfl⟩ := h
  obtain ⟨hne, hall⟩ := Vocabulary.bracket_word hmem
  obtain ⟨c, cs, hword⟩ := List.exists_cons_of_ne_nil hne
  rw [hword, List.all_cons, Bool.and_eq_true] at hall
  exact ⟨c, by simp [hword], hall.1⟩

/-- A stretch where no word goes on is coloured as by itself. -/
theorem Step.of_stop {c : Char} {cs : List Char} {role : Role} (hc : continuesWord c = false)
    (hrole : role ≠ .comment) (hname : ¬Stretch.IsDigitName ⟨role, c :: cs⟩)
    (heq : shades (script (c :: cs ++ rest)) =
      List.replicate (c :: cs).length (.ofRole role) ++ shades (script rest)) (glue : Glue) :
    Step glue ⟨role, c :: cs⟩ rest := by
  have hkatakana : ¬∃ d ∈ (c :: cs).head?, isKatakana d = true := by
    rintro ⟨d, hd, hk⟩
    cases hd
    simp [continuesWord, hk] at hc
  have hmark : ¬Stretch.IsLongMark ⟨role, c :: cs⟩ := fun h => by
    obtain ⟨rfl, -⟩ := List.cons.inj h
    simp [continuesWord] at hc
  refine .seen (Glue.not_misses hname hrole fun _ h => hkatakana h.2) ?_
  rw [glue.shades_spans_of_stop (by simpa using hc), heq,
    glue.next_eq_apart (fun h => hkatakana (head_of_isBracketWord h)) hmark]
  rfl

/-- A comment is seen unless it stands behind glue. -/
theorem Step.comment {d : Char} {body : List Char} (hd : d = 'ゴ' ∨ d = 'ビ')
    (heq : shades (script ('ゴ' :: d :: body ++ rest)) =
      List.replicate ('ゴ' :: d :: body).length .comment ++ shades (script rest)) (glue : Glue) :
    Step glue ⟨.comment, 'ゴ' :: d :: body⟩ rest := by
  have hword : continuesWord 'ゴ' = true ∧ continuesWord d = true := by
    rcases hd with rfl | rfl <;> decide
  have hbracket : ¬Stretch.IsBracketWord ⟨.comment, 'ゴ' :: d :: body⟩ := by
    rintro ⟨bracket, -, heq⟩
    cases heq
  have hmark : ¬Stretch.IsLongMark ⟨.comment, 'ゴ' :: d :: body⟩ := by simp [Stretch.IsLongMark]
  obtain ⟨run, others, hrest, hrun⟩ := Text.exists_isRun continuesWord (body ++ rest)
  have hall : IsRun continuesWord ('ゴ' :: d :: run) others :=
    ⟨List.forall_mem_cons.mpr ⟨hword.1, List.forall_mem_cons.mpr ⟨hword.2, hrun.all⟩⟩, hrun.stop⟩
  have htext : 'ゴ' :: d :: body ++ rest = 'ゴ' :: d :: run ++ others :=
    congrArg ('ゴ' :: d :: ·) hrest
  cases glue with
  | apart =>
    refine .seen ?_ ?_
    · rintro (h | ⟨h, -⟩ | ⟨h, -⟩)
      · cases h.1
      · exact h rfl
      · cases h
    · rw [Glue.next_eq_apart _ hbracket hmark]
      exact heq
  | bracket =>
    refine .missed (.inr (.inl ⟨by decide, rfl⟩)) (Nat.zero_lt_succ _) ?_
    rw [htext, Glue.shades_spans_bracket hall (bracket?_comment hd run)]
    exact fun h => shade_wordStyle_ne_comment _ (Option.some.inj h)
  | mark =>
    refine .missed (.inr (.inl ⟨by decide, rfl⟩)) (Nat.zero_lt_succ _) ?_
    rw [htext, Glue.spans_mark hall, shades_head]
    exact of_decide_eq_true rfl

/-- A bracket word is seen, and what follows it stands behind it. -/
theorem Step.bracket {found : Vocabulary.Bracket}
    (h : Vocabulary.bracket? (found.word ++ rest) = some found)
    (hstarts : ¬Starts (found.word ++ rest)) (glue : Glue) :
    Step glue ⟨.token found.kind, found.word⟩ rest := by
  have hmem := (Vocabulary.of_bracket?_eq_some h).1
  obtain ⟨hne, hkatakana⟩ := Vocabulary.bracket_word hmem
  have hfound : Stretch.IsBracketWord ⟨.token found.kind, found.word⟩ := ⟨found, hmem, rfl⟩
  have hkind : ∀ bracket ∈ Vocabulary.brackets, bracket.kind ≠ .identifier ∧
      bracket.kind ∉ literalKinds := by decide
  obtain ⟨hname, hliteral⟩ := hkind found hmem
  have hshade : Shade.ofRole (.token found.kind) = .other := if_neg hliteral
  have hnumeral : ¬Stretch.IsNumeralWord ⟨.token found.kind, found.word⟩ := fun h =>
    hliteral (by rw [Role.token.inj h.1]; decide)
  have hall : ∀ c ∈ found.word, continuesWord c = true := fun c hc => by
    simp [continuesWord, List.all_eq_true.mp hkatakana c hc]
  have hbracket := Glue.shades_spans_bracket_append h hall
  refine .seen (Glue.not_misses (fun h => hname (Role.token.inj h.1)) (by simp) fun _ => hnumeral) ?_
  rw [hshade]
  cases glue with
  | apart =>
    rw [Glue.next, if_pos hfound, ← hbracket]
    obtain ⟨c, cs, hword⟩ := List.exists_cons_of_ne_nil hne
    rw [hword, List.all_cons, Bool.and_eq_true] at hkatakana
    simp only [hword, List.cons_append] at hstarts ⊢
    rw [← script_of_isKatakana hkatakana.1 hstarts]
    rfl
  | bracket => rw [Glue.next, if_pos hfound, ← hbracket]
  | mark => rw [Glue.next, if_pos (.inl hfound), Glue.shades_spans_mark_append hall]

/-- A long mark is seen; behind a bracket word it hides what the word goes on with. -/
theorem Step.mark (glue : Glue) : Step glue ⟨.token .unknown, [longMark]⟩ rest := by
  have hbracket : ¬Stretch.IsBracketWord ⟨.token .unknown, [longMark]⟩ := by decide
  have hmark : Stretch.IsLongMark ⟨.token .unknown, [longMark]⟩ := rfl
  refine .seen (Glue.not_misses ?_ (by simp) fun _ => ?_) ?_
  · simp [Stretch.IsDigitName]
  · simp [Stretch.IsNumeralWord]
  cases glue with
  | apart =>
    rw [Glue.next, if_neg hbracket]
    exact shades_script_plain ⟨by decide, by decide, by decide, by decide⟩ rest
  | bracket =>
    rw [Glue.next, if_neg hbracket, if_pos hmark]
    exact Glue.shades_spans_longMark rest
  | mark =>
    rw [Glue.next, if_pos (.inr hmark)]
    exact Glue.shades_spans_mark_append (by simp [continuesWord])

/-- A word is seen unless it is a numeral behind a long mark. -/
theorem Step.word {c : Char} {cs : List Char} {kind : TokenKind} {payload : Payload}
    (hc : isKatakana c = true) (run : IsRun continuesWord cs rest)
    (unbracketed : Vocabulary.bracket? (c :: cs ++ rest) = none)
    (meaning : Lexeme.classify (String.ofList (c :: cs)) = (kind, payload))
    (hstarts : ¬Starts (c :: cs ++ rest)) (glue : Glue) :
    Step glue ⟨.token kind, c :: cs⟩ rest := by
  have hall : IsRun continuesWord (c :: cs) rest :=
    ⟨List.forall_mem_cons.mpr ⟨by simp [continuesWord, hc], run.all⟩, run.stop⟩
  have hbracket : ¬Stretch.IsBracketWord ⟨.token kind, c :: cs⟩ := by
    rintro ⟨bracket, hmem, heq⟩
    obtain ⟨-, hword⟩ := Stretch.mk.inj heq
    refine List.find?_eq_none.mp unbracketed bracket hmem (List.isPrefixOf_iff_prefix.mpr ?_)
    exact hword ▸ List.prefix_append _ rest
  have hmark : ¬Stretch.IsLongMark ⟨.token kind, c :: cs⟩ := fun h => by
    obtain ⟨rfl, -⟩ := List.cons.inj h
    exact absurd hc (by decide)
  have hdigit : ¬Stretch.IsDigitName ⟨.token kind, c :: cs⟩ := by
    rintro ⟨-, d, hd, hdigit⟩
    have hlt := Lexeme.lt_of_isDigit hdigit
    exact absurd (hall.all d hd) (by simp [continuesWord_of_lt (show d.toNat < 128 by omega)])
  have hspans := Glue.shades_spans_bracket hall (Vocabulary.bracket?_eq_none_of_append unbracketed)
  rw [shade_wordStyle meaning] at hspans
  cases glue with
  | apart =>
    refine .seen (Glue.not_misses hdigit (by simp) (by simp)) ?_
    rw [Glue.next_eq_apart _ hbracket hmark]
    exact (congrArg shades (script_of_isKatakana hc hstarts)).trans hspans
  | bracket =>
    refine .seen (Glue.not_misses hdigit (by simp) (by simp)) ?_
    rw [Glue.next_eq_apart _ hbracket hmark]
    exact hspans
  | mark =>
    by_cases hnumber : kind = .number
    · subst hnumber
      refine .missed (.inr (.inr ⟨rfl, rfl, c, rfl, hc⟩)) (Nat.zero_lt_succ _) ?_
      rw [Glue.spans_mark hall, shades_head]
      exact of_decide_eq_true rfl
    · refine .seen (Glue.not_misses hdigit (by simp) fun _ h => hnumber (Role.token.inj h.1)) ?_
      rw [Glue.next_eq_apart _ hbracket hmark, Glue.spans_mark hall, shades_cons,
        shade_of_classify meaning hnumber]
      rfl

/-- A name is seen unless it has a digit in it. -/
theorem Step.name {c : Char} {cs : List Char} (hc : Text.startsName c = true)
    (run : IsRun Text.continuesName cs rest) (glue : Glue) :
    Step glue ⟨.token .identifier, c :: cs⟩ rest := by
  have hlt : ∀ d ∈ c :: cs, d.toNat < 128 := by
    refine List.forall_mem_cons.mpr ⟨(Text.lt_of_startsName hc).2, fun d hd => ?_⟩
    exact lt_of_continuesName (run.all d hd)
  have hstop := continuesWord_of_lt (hlt c List.mem_cons_self)
  obtain ⟨front, back, hname, hfront⟩ := Text.exists_isRun (fun d => !d.isDigit) (c :: cs)
  have hplain : ∀ d ∈ front, IsPlain d := fun d hd =>
    isPlain_of_lt (hlt d (by simp [hname, hd])) (by simpa using hfront.all d hd)
  cases back with
  | nil =>
    rw [List.append_nil] at hname
    subst hname
    refine .of_stop hstop ?_ ?_ ?_ glue
    · simp
    · rintro ⟨-, d, hd, hdigit⟩
      exact absurd hdigit (by simp [(hplain d hd).not_digit])
    · exact shades_script_plain_append hplain rest
  | cons d back =>
    have hdigit : d.isDigit = true := by simpa using hfront.stop d rfl
    have hmem : d ∈ c :: cs := by simp [hname]
    obtain ⟨digits, others, hrest, hdigits⟩ :=
      Text.exists_isRun Lexeme.continuesNumber (back ++ rest)
    -- the first digit has the colour of literals
    refine .missed (.inl ⟨rfl, d, hmem, hdigit⟩) (i := front.length) ?_ ?_
    · simp [hname]
    · rw [glue.shades_spans_of_stop (by simpa using hstop)]
      show (shades (script (c :: cs ++ rest)))[_]? ≠ _
      rw [hname, List.append_assoc, shades_script_plain_append hplain, List.cons_append, hrest,
        script_digits hdigit hdigits, List.getElem?_append_right (by simp), List.length_replicate,
        Nat.sub_self, shades_head]
      exact of_decide_eq_true rfl

theorem Step.literal {kind : TokenKind} {opening closing : Char} {spelling : List Char}
    (marks : (kind, opening, closing) ∈ Vocabulary.literalMarks)
    (htail : literalTail closing (spelling ++ rest) = spelling) (glue : Glue) :
    Step glue ⟨.token kind, opening :: spelling⟩ rest := by
  have hkind : ∀ marks ∈ Vocabulary.literalMarks, continuesWord marks.2.1 = false ∧
      marks.1 ≠ .identifier ∧ Shade.ofRole (.token marks.1) = .literal := by decide
  obtain ⟨hstop, hname, hshade⟩ := hkind _ marks
  refine .of_stop hstop ?_ ?_ ?_ glue
  · simp
  · exact fun h => hname (Role.token.inj h.1)
  · rw [List.cons_append, script_literal marks, htail, List.drop_left, shades_cons, hshade]
    rfl

theorem Step.plain {c : Char} {role : Role} (hplain : IsPlain c) (hstop : continuesWord c = false)
    (hrole : Shade.ofRole role = .other) (glue : Glue) : Step glue ⟨role, [c]⟩ rest := by
  refine .of_stop hstop ?_ ?_ ?_ glue
  · rintro rfl
    cases hrole
  · rintro ⟨-, d, hd, hdigit⟩
    rw [List.eq_of_mem_singleton hd] at hdigit
    exact absurd hdigit (by simp [hplain.not_digit])
  · rw [hrole]
    exact shades_script_plain hplain rest

/-- Each lexeme is seen or missed. -/
theorem Step.lexeme {lexeme : Lexeme} (hstarts : ¬Starts (lexeme.spelling ++ rest))
    (spelled : lexeme.Spelled rest) (glue : Glue) : Step glue lexeme.stretch rest := by
  cases spelled with
  | punctuation h =>
    obtain ⟨hplain, hstop, hrole⟩ := punctuation?_plain h
    exact .plain hplain hstop hrole glue
  | @closed kind opening closing body marks hbody =>
    have hliteral := congrArg Lexeme.spelling (Lexeme.literal_closed kind opening hbody rest)
    refine .literal marks ?_ glue
    rw [← List.append_cons]
    exact (List.cons.inj hliteral).2
  | @unclosed kind opening closing body marks hbody last =>
    have hliteral := congrArg Lexeme.spelling (Lexeme.literal_unclosed kind opening hbody)
    refine .literal marks ?_ glue
    rw [last, List.append_nil]
    exact (List.cons.inj hliteral).2
  | bracket h => exact .bracket h hstarts glue
  | word hc run unbracketed meaning => exact .word hc run unbracketed meaning hstarts glue
  | name hc run => exact .name hc run glue
  | number hc run =>
    have hlt := Lexeme.lt_of_isDigit hc
    refine .of_stop (continuesWord_of_lt (by omega)) ?_ ?_ ?_ glue
    · simp
    · exact fun h => by cases h.1
    · rw [List.cons_append, script_digits hc run, shades_cons]
      rfl
  | @unknown c unmarked unquoted hkatakana hname hdigit =>
    by_cases hmark : c = longMark
    · subst hmark
      exact .mark glue
    · simp only [Vocabulary.literalMarks, List.forall_mem_cons] at unquoted
      refine .plain ⟨unquoted.1, unquoted.2.1, hkatakana, hdigit⟩ ?_ rfl glue
      simp [continuesWord, hkatakana, hmark]

end Steps

section Run

variable {text : List Char} {stretches : List Stretch}

/-- The colouring sees each of the stretches for what it is. -/
def Glue.Sees : Glue → List Stretch → Prop
  | _, [] => True
  | glue, stretch :: others => ¬glue.Misses stretch ∧ (glue.next stretch).Sees others

theorem Step.shades_eq_iff {glue : Glue} {stretch : Stretch} {rest : List Char}
    {others : List Stretch} (h : Step glue stretch rest)
    (ih : shades ((glue.next stretch).spans rest) = (Stretch.roles others).map Shade.ofRole ↔
      (glue.next stretch).Sees others) :
    shades (glue.spans (stretch.text ++ rest)) =
        (Stretch.roles (stretch :: others)).map Shade.ofRole ↔ glue.Sees (stretch :: others) := by
  rw [Stretch.roles_cons, List.map_append, List.map_replicate, Glue.Sees, ← ih]
  cases h with
  | seen h heq => rw [heq, List.append_cancel_left_eq, and_iff_right h]
  | missed h hi hne =>
    refine iff_of_false (fun heq => hne ?_) fun hsees => hsees.1 h
    rw [heq, List.getElem?_append_left (by simpa using hi), List.getElem?_replicate_of_lt hi]

/-- The shades of a line are those of its roles if each stretch is seen. -/
theorem shades_eq_iff (h : MadeOf text stretches) (hline : '\n' ∉ text) (glue : Glue) :
    shades (glue.spans text) = (Stretch.roles stretches).map Shade.ofRole ↔
      glue.Sees stretches := by
  induction h generalizing glue with
  | nil =>
    have hempty : ∀ c ∈ ([] : List Char).head?, continuesWord c = false := by simp
    rw [glue.shades_spans_of_stop hempty, script, Glue.Sees]
    exact iff_of_true rfl trivial
  | @blank c rest others hc following ih =>
    obtain ⟨hplain, hstop⟩ := isBlank_plain hc
    have hstep : Step glue ⟨.blank, [c]⟩ rest := .plain hplain hstop rfl glue
    exact hstep.shades_eq_iff (ih (fun h => hline (List.mem_cons_of_mem c h)) _)
  | @line body rest others hbody hrest following ih =>
    -- without a line feed the comment goes on to the end
    obtain rfl : rest = [] := by
      cases rest with
      | nil => rfl
      | cons c rest => exact absurd (by simp [hrest c rfl]) hline
    have hstep : Step glue ⟨.comment, 'ゴ' :: 'ゴ' :: body⟩ [] := by
      refine .comment (.inl rfl) ?_ glue
      rw [List.append_nil, script_line, shades_cons, script]
      rfl
    exact hstep.shades_eq_iff (ih (by simp) _)
  | @block body rest others hbody following ih =>
    have hstep : Step glue ⟨.comment, 'ゴ' :: 'ビ' :: body⟩ rest := by
      refine .comment (.inr rfl) ?_ glue
      rw [List.cons_append, List.cons_append, script_block, hbody, List.drop_left, shades_cons]
      rfl
    exact hstep.shades_eq_iff (ih (fun h => hline (by simp [h])) _)
  | @token lexeme rest others hstarts spelled following ih =>
    have hstep := Step.lexeme hstarts spelled glue
    exact hstep.shades_eq_iff (ih (fun h => hline (List.mem_append_right _ h)) _)

end Run

section Condition

variable {front : List Stretch} {stretch : Stretch}

/-- The stretches end in a bracket word and, behind it, in more bracket words and long marks. -/
def EndsGlued (front glued : List Stretch) : Prop :=
  ∃ before bracket, front = before ++ bracket :: glued ∧ bracket.IsBracketWord ∧
    ∀ stretch ∈ glued, stretch.IsBracketWord ∨ stretch.IsLongMark

theorem endsGlued_concat {glued : List Stretch} :
    EndsGlued (front ++ [stretch]) glued ↔ glued = [] ∧ stretch.IsBracketWord ∨
      ∃ inner, glued = inner ++ [stretch] ∧ EndsGlued front inner ∧
        (stretch.IsBracketWord ∨ stretch.IsLongMark) := by
  constructor
  · rintro ⟨before, bracket, heq, hbracket, hglued⟩
    rcases List.eq_nil_or_concat glued with rfl | ⟨inner, last, rfl⟩
    · obtain ⟨rfl, hlast⟩ := List.append_inj' heq rfl
      cases hlast
      exact .inl ⟨rfl, hbracket⟩
    · rw [List.concat_eq_append] at *
      rw [← List.cons_append, ← List.append_assoc] at heq
      obtain ⟨rfl, hlast⟩ := List.append_inj' heq rfl
      cases hlast
      rw [List.forall_mem_append, List.forall_mem_singleton] at hglued
      exact .inr ⟨inner, rfl, ⟨before, bracket, rfl, hbracket, hglued.1⟩, hglued.2⟩
  · rintro (⟨rfl, hbracket⟩ | ⟨inner, rfl, ⟨before, bracket, rfl, hbracket, hinner⟩, hlast⟩)
    · exact ⟨front, stretch, rfl, hbracket, by simp⟩
    · refine ⟨before, bracket, by simp, hbracket, ?_⟩
      rw [List.forall_mem_append, List.forall_mem_singleton]
      exact ⟨hinner, hlast⟩

theorem not_isBracketWord_of_isLongMark (h : stretch.IsLongMark) : ¬stretch.IsBracketWord := by
  intro hbracket
  obtain ⟨c, hc, hkatakana⟩ := head_of_isBracketWord hbracket
  rw [show stretch.text = [longMark] from h] at hc
  cases hc
  exact absurd hkatakana (by decide)

theorem Glue.next_ne_apart_iff (glue : Glue) :
    glue.next stretch ≠ .apart ↔
      stretch.IsBracketWord ∨ glue ≠ .apart ∧ stretch.IsLongMark := by
  by_cases hmark : stretch.IsLongMark
  · have hbracket := not_isBracketWord_of_isLongMark hmark
    cases glue <;> simp [next, hmark, hbracket]
  · cases glue <;> simp [next, hmark]

theorem Glue.next_eq_mark_iff (glue : Glue) :
    glue.next stretch = .mark ↔
      glue ≠ .apart ∧ stretch.IsLongMark ∨ glue = .mark ∧ stretch.IsBracketWord := by
  by_cases hmark : stretch.IsLongMark
  · have hbracket := not_isBracketWord_of_isLongMark hmark
    cases glue <;> simp [next, hmark, hbracket]
  · by_cases hbracket : stretch.IsBracketWord <;> cases glue <;> simp [next, hmark, hbracket]

/-- What a stretch stands behind, from the stretches in front of it. -/
theorem foldl_next_iff (front : List Stretch) :
    (front.foldl Glue.next .apart ≠ .apart ↔ ∃ glued, EndsGlued front glued) ∧
      (front.foldl Glue.next .apart = .mark ↔
        ∃ glued, EndsGlued front glued ∧ ∃ stretch ∈ glued, stretch.IsLongMark) := by
  induction front using List.reverseRecOn with
  | nil =>
    have hnot : ∀ glued, ¬EndsGlued [] glued := by
      rintro glued ⟨before, bracket, heq, -⟩
      simp at heq
    simp [hnot]
  | append_singleton front stretch ih =>
    obtain ⟨hglued, hmarked⟩ := ih
    simp only [List.foldl_append, List.foldl_cons, List.foldl_nil, Glue.next_ne_apart_iff,
      Glue.next_eq_mark_iff, hglued, hmarked, endsGlued_concat]
    refine ⟨⟨?_, ?_⟩, ⟨?_, ?_⟩⟩
    · rintro (hbracket | ⟨⟨inner, hinner⟩, hmark⟩)
      · exact ⟨[], .inl ⟨rfl, hbracket⟩⟩
      · exact ⟨_, .inr ⟨inner, rfl, hinner, .inr hmark⟩⟩
    · rintro ⟨_, ⟨-, hbracket⟩ | ⟨inner, -, hinner, hbracket | hmark⟩⟩
      · exact .inl hbracket
      · exact .inl hbracket
      · exact .inr ⟨⟨inner, hinner⟩, hmark⟩
    · rintro (⟨⟨inner, hinner⟩, hmark⟩ | ⟨⟨inner, hinner, mark, hmem, hmark⟩, hbracket⟩)
      · exact ⟨_, .inr ⟨inner, rfl, hinner, .inr hmark⟩, stretch, by simp, hmark⟩
      · exact ⟨_, .inr ⟨inner, rfl, hinner, .inl hbracket⟩, mark, by simp [hmem], hmark⟩
    · rintro ⟨_, ⟨rfl, -⟩ | ⟨inner, rfl, hinner, hlast⟩, mark, hmem, hmark⟩
      · cases hmem
      · rcases List.mem_append.mp hmem with hmem | hmem
        · rcases hlast with hbracket | hlast
          · exact .inr ⟨⟨inner, hinner, mark, hmem, hmark⟩, hbracket⟩
          · exact .inl ⟨⟨inner, hinner⟩, hlast⟩
        · rw [List.eq_of_mem_singleton hmem] at hmark
          exact .inl ⟨⟨inner, hinner⟩, hmark⟩

/-- Behind the stretches `front` a stretch gets a colour that is not its own: a name with a digit in
it, a comment behind a bracket word, and a numeral word behind a bracket word and a long mark. -/
def Missed (front : List Stretch) (stretch : Stretch) : Prop :=
  stretch.IsDigitName ∨ ∃ glued, EndsGlued front glued ∧
    (stretch.role = .comment ∨ stretch.IsNumeralWord ∧ ∃ mark ∈ glued, mark.IsLongMark)

theorem misses_foldl_iff :
    (front.foldl Glue.next .apart).Misses stretch ↔ Missed front stretch := by
  obtain ⟨hglued, hmarked⟩ := foldl_next_iff front
  rw [Glue.Misses, hglued, hmarked, Missed]
  refine or_congr_right ⟨?_, ?_⟩
  · rintro (⟨⟨glued, h⟩, hrole⟩ | ⟨⟨glued, h, hmark⟩, hnumeral⟩)
    · exact ⟨glued, h, .inl hrole⟩
    · exact ⟨glued, h, .inr ⟨hnumeral, hmark⟩⟩
  · rintro ⟨glued, h, hrole | ⟨hnumeral, hmark⟩⟩
    · exact .inl ⟨⟨glued, h⟩, hrole⟩
    · exact .inr ⟨⟨glued, h, hmark⟩, hnumeral⟩

theorem Glue.sees_iff (glue : Glue) (stretches : List Stretch) :
    glue.Sees stretches ↔ ∀ front stretch back, stretches = front ++ stretch :: back →
      ¬(front.foldl Glue.next glue).Misses stretch := by
  induction stretches generalizing glue with
  | nil => simp [Sees]
  | cons first others ih =>
    rw [Sees, ih]
    constructor
    · rintro ⟨hfirst, hothers⟩ (_ | ⟨d, front⟩) stretch back heq
      · cases heq
        exact hfirst
      · cases heq
        exact hothers front stretch back rfl
    · intro h
      refine ⟨h [] first others rfl, fun front stretch back heq => ?_⟩
      exact h (first :: front) stretch back (congrArg (first :: ·) heq)

end Condition


section Agreement

variable {source : String}

/-- The scanner passes over character `i` as a part of a comment. -/
def InComment (source : String) (i : Nat) : Prop :=
  (Stretch.roles (stretches source.toList))[i]? = some .comment

/-- Character `i` belongs to a string, a character or a number among the tokens. -/
def InLiteral (source : String) (i : Nat) : Prop :=
  ∃ t ∈ tokenize source, t.kind ∈ literalKinds ∧
    ∃ start stop, t.Stands source.toList start stop ∧ start ≤ i ∧ i < stop

/-- Exactly the characters of comments have the colour of comments, and exactly those of strings,
characters and numbers have the colour of literals. -/
def IsColoredByRole (source : String) : Prop :=
  ∀ i < source.length,
    ((Span.colors (script source.toList))[i]? = some (some Theme.comment) ↔ InComment source i) ∧
    ((Span.colors (script source.toList))[i]? = some (some Theme.literal) ↔ InLiteral source i)

theorem inLiteral_iff {i : Nat} : InLiteral source i ↔ ∃ kind ∈ literalKinds,
    (Stretch.roles (stretches source.toList))[i]? = some (.token kind) := by
  have hstands := fun kind => (scans_tokenize source).exists_stands_iff kind i
  simp only [List.nil_append, List.length_nil, Nat.zero_add] at hstands
  simp only [← hstands]
  constructor
  · rintro ⟨t, ht, hkind, hstands⟩
    exact ⟨t.kind, hkind, t, ht, rfl, hstands⟩
  · rintro ⟨kind, hkind, t, ht, rfl, hstands⟩
    exact ⟨t, ht, hkind, hstands⟩

theorem isColoredByRole_iff (source : String) :
    IsColoredByRole source ↔ shades (script source.toList) =
      (Stretch.roles (stretches source.toList)).map Shade.ofRole := by
  have hroles : (Stretch.roles (stretches source.toList)).length = source.length := by
    rw [Stretch.length_roles, (madeOf_stretches _).flatMap_text, String.length_toList]
  have hcolors : (Span.colors (script source.toList)).length = source.length := by
    rw [length_colors, lineText_script, String.length_toList]
  have hshades : IsColoredByRole source ↔ ∀ i < source.length,
      (shades (script source.toList))[i]? =
        ((Stretch.roles (stretches source.toList)).map Shade.ofRole)[i]? := by
    refine forall₂_congr fun i hi => ?_
    rw [inLiteral_iff, InComment, shades, List.getElem?_map, List.getElem?_map,
      List.getElem?_eq_getElem (hcolors ▸ hi), List.getElem?_eq_getElem (hroles ▸ hi)]
    simp only [Option.some.injEq, Option.map_some]
    exact (Shade.eq_iff _ _).symm
  rw [hshades]
  refine ⟨fun h => List.ext_getElem? fun i => ?_, fun h i _ => by rw [h]⟩
  by_cases hi : i < source.length
  · exact h i hi
  · rw [List.getElem?_eq_none, List.getElem?_eq_none]
    · simpa [hroles] using hi
    · simpa [shades, hcolors] using hi

/-- The colours of a line are those of its comments and literals exactly if no stretch of it is
missed. -/
theorem isColoredByRole_iff_not_missed {source : String} (hline : '\n' ∉ source.toList) :
    IsColoredByRole source ↔ ∀ front stretch back,
      stretches source.toList = front ++ stretch :: back → ¬Missed front stretch := by
  have hsees := (shades_eq_iff (madeOf_stretches _) hline .apart).trans (Glue.sees_iff _ _)
  simp only [misses_foldl_iff] at hsees
  exact (isColoredByRole_iff source).trans hsees

/-- A comment behind a bracket word, a name with a digit in it, and a numeral behind a bracket word
and a long mark. -/
theorem isColoredByRole_iff_not_missed_words :
    ('\n' ∉ "ザジレゴゴ".toList ∧ ¬IsColoredByRole "ザジレゴゴ") ∧
      ('\n' ∉ "x1".toList ∧ ¬IsColoredByRole "x1") ∧
      '\n' ∉ "ザジレーパパン".toList ∧ ¬IsColoredByRole "ザジレーパパン" := by
  have hcomment : stretches "ザジレゴゴ".toList =
      [⟨.token .openBrace, "ザジレ".toList⟩] ++ [⟨.comment, "ゴゴ".toList⟩] := by decide +kernel
  have hname : stretches "x1".toList = [⟨.token .identifier, "x1".toList⟩] := by decide +kernel
  have hnumeral : stretches "ザジレーパパン".toList =
      [⟨.token .openBrace, "ザジレ".toList⟩, ⟨.token .unknown, [longMark]⟩] ++
        [⟨.token .number, "パパン".toList⟩] := by decide +kernel
  have hbracket : Stretch.IsBracketWord ⟨.token .openBrace, "ザジレ".toList⟩ := by decide
  refine ⟨⟨by decide, fun h => ?_⟩, ⟨by decide, fun h => ?_⟩, by decide, fun h => ?_⟩
  · refine (isColoredByRole_iff_not_missed (by decide)).mp h _ _ _ hcomment (.inr ⟨[], ?_, ?_⟩)
    · exact ⟨[], _, rfl, hbracket, by simp⟩
    · exact .inl rfl
  · refine (isColoredByRole_iff_not_missed (by decide)).mp h [] _ _ hname (.inl ?_)
    exact ⟨rfl, '1', by simp, rfl⟩
  · refine (isColoredByRole_iff_not_missed (by decide)).mp h _ _ _ hnumeral (.inr ?_)
    refine ⟨[⟨.token .unknown, [longMark]⟩], ?_, ?_⟩
    · exact ⟨[], _, rfl, hbracket, by simp [Stretch.IsLongMark]⟩
    · exact .inr ⟨⟨rfl, 'パ', rfl, by decide⟩, _, List.mem_cons_self, rfl⟩

end Agreement

end Inspector.Highlight

end KanaScript
