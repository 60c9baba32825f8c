import KanaScript.Inspector.Highlight.Script
import KanaScript.Proofs.Token.Stretches
import Mathlib.Data.List.Basic

/-! What the colouring of a script does with each beginning of a line.  All that matters of a colour
is its shade: that of comments, that of literals, or another one.  Behind a bracket word the
colouring reads on within the run of katakana, so that the spans of a text depend on what it is
glued to. -/

namespace KanaScript

open Layout (Starts)
open Text (continuesWord isKatakana longMark IsRun)

namespace Inspector

/-- The colour of each character of a line of spans. -/
def Span.colors (spans : List Span) : List (Option Color) :=
  spans.flatMap fun span => span.text.map fun _ => span.style.foreground

namespace Highlight

section Shades

/-- What a colour or a role says of a character. -/
inductive Shade
  | comment
  | literal
  | other
deriving DecidableEq

/-- The kinds of tokens that have the colour of literals. -/
def literalKinds : List TokenKind := [.stringLiteral, .charLiteral, .number]

def Shade.ofColor (color : Option Color) : Shade :=
  if color = some Theme.comment then .comment
  else if color = some Theme.literal then .literal
  else .other

def Shade.ofRole : Role → Shade
  | .blank => .other
  | .comment => .comment
  | .token kind => if kind ∈ literalKinds then .literal else .other

theorem Shade.eq_iff (color : Option Color) (role : Role) :
    Shade.ofColor color = .ofRole role ↔ (color = some Theme.comment ↔ role = .comment) ∧
      (color = some Theme.literal ↔ ∃ kind ∈ literalKinds, role = .token kind) := by
  have hne : Theme.literal ≠ Theme.comment := by decide
  by_cases hcomment : color = some Theme.comment
  · subst hcomment
    cases role with
    | blank => simp [ofColor, ofRole]
    | comment => simp [ofColor, ofRole, hne.symm]
    | token kind => by_cases hkind : kind ∈ literalKinds <;> simp [ofColor, ofRole, hkind]
  by_cases hliteral : color = some Theme.literal
  · subst hliteral
    cases role with
    | blank => simp [ofColor, ofRole, hne]
    | comment => simp [ofColor, ofRole, hne]
    | token kind => by_cases hkind : kind ∈ literalKinds <;> simp [ofColor, ofRole, hkind, hne]
  · cases role with
    | blank => simp [ofColor, ofRole, hcomment, hliteral]
    | comment => simp [ofColor, ofRole, hcomment, hliteral]
    | token kind =>
      by_cases hkind : kind ∈ literalKinds <;> simp [ofColor, ofRole, hcomment, hliteral, hkind]

/-- The shade of each character of a line of spans. -/
def shades (spans : List Span) : List Shade := (Span.colors spans).map Shade.ofColor

theorem shades_cons (text : List Char) (style : Style) (others : List Span) :
    shades (⟨text, style⟩ :: others) =
      List.replicate text.length (.ofColor style.foreground) ++ shades others := by
  rw [shades, Span.colors, List.flatMap_cons, List.map_append, List.map_const',
    List.map_replicate]
  rfl

theorem shades_head (c : Char) (cs : List Char) (style : Style) (others : List Span) :
    (shades (⟨c :: cs, style⟩ :: others))[0]? = some (.ofColor style.foreground) := by
  rw [shades_cons]
  rfl

/-- A word that is no numeral has not the colour of literals. -/
theorem shade_wordStyle_of_read? {word : String} (h : Numeral.read? word.toList = none) :
    Shade.ofColor (wordStyle word).foreground = .other := by
  unfold wordStyle
  split
  · decide
  split
  · decide
  · decide
  rw [h]
  split
  · decide
  · decide

/-- The colour of a word is the one of its meaning. -/
theorem shade_wordStyle {word : String} {kind : TokenKind} {payload : Payload}
    (h : Lexeme.classify word = (kind, payload)) :
    Shade.ofColor (wordStyle word).foreground = .ofRole (.token kind) := by
  unfold Lexeme.classify at h
  unfold wordStyle
  split at h
  · rename_i found spelling hkeyword
    obtain ⟨rfl, -⟩ := Prod.mk.inj h
    have hkind : found ∈ [TokenKind.typeKeyword, .controlKeyword, .otherKeyword] :=
      Lexeme.keyword?_kind hkeyword
    have hrole : ∀ kind ∈ [TokenKind.typeKeyword, .controlKeyword, .otherKeyword],
        Shade.ofRole (.token kind) = .other := by decide
    rw [hrole _ hkind, hkeyword]
    split
    · decide
    split
    · decide
    · decide
    · rename_i hnone
      cases hnone
  rename_i hkeyword
  have hmarker : word ≠ Vocabulary.functionMarker := by
    rintro rfl
    exact absurd hkeyword (by decide)
  rw [if_neg hmarker, hkeyword]
  dsimp only
  split at h
  · rename_i hoperator
    obtain ⟨rfl, -⟩ := Prod.mk.inj h
    rw [hoperator]
    rfl
  rename_i hoperator
  rw [hoperator]
  split at h
  · rename_i hnumeral
    obtain ⟨rfl, -⟩ := Prod.mk.inj h
    rw [hnumeral]
    rfl
  · rename_i hnumeral
    obtain ⟨rfl, -⟩ := Prod.mk.inj h
    rw [hnumeral]
    decide

theorem shade_of_classify {word : String} {kind : TokenKind} {payload : Payload}
    (h : Lexeme.classify word = (kind, payload)) (hkind : kind ≠ .number) :
    Shade.ofRole (.token kind) = .other := by
  have hall : ∀ kind ∈ [TokenKind.typeKeyword, .controlKeyword, .otherKeyword, .operator,
      .identifier], Shade.ofRole (.token kind) = .other := by decide
  rcases h ▸ Lexeme.classify_kind word with hmem | ⟨_, hvalue⟩
  · exact hall kind hmem
  · exact absurd (congrArg Prod.fst hvalue) hkind

theorem shade_wordStyle_ne_comment (word : String) :
    Shade.ofColor (wordStyle word).foreground ≠ .comment := by
  have hkind : ∀ kind, Shade.ofRole (.token kind) ≠ .comment := by
    rintro (_ | _) <;> decide
  rw [shade_wordStyle rfl]
  exact hkind _

theorem read?_longMark (cs : List Char) : Numeral.read? (longMark :: cs) = none := by
  have hdigit : Numeral.digit? (longMark :: cs) = none := by
    simp [Numeral.digit?, Numeral.digitWords, longMark, List.isPrefixOf]
  rw [Numeral.read?, Numeral.morphemes, hdigit]
  simp [longMark]

end Shades

section Words

variable {c : Char} {cs run rest : List Char}

/-- What a stretch stands behind within a word of the colouring: nothing, bracket words, or a long
mark somewhere behind a bracket word. -/
inductive Glue
  | apart
  | bracket
  | mark
deriving DecidableEq

/-- The spans of a text behind such glue.  The run of katakana that it starts with belongs to the
word in front of it. -/
def Glue.spans (glue : Glue) (text : List Char) : List Span :=
  let run := text.takeWhile continuesWord
  let others := script (text.drop run.length)
  match glue with
  | .apart => script text
  | .bracket => wordSpans run ++ others
  | .mark => ⟨run, .colored Theme.plain⟩ :: others

theorem Glue.spans_bracket (h : IsRun continuesWord run rest) :
    Glue.bracket.spans (run ++ rest) = wordSpans run ++ script rest := by
  simp only [spans, h.takeWhile_append, List.drop_left]

theorem Glue.spans_mark (h : IsRun continuesWord run rest) :
    Glue.mark.spans (run ++ rest) = ⟨run, .colored Theme.plain⟩ :: script rest := by
  simp only [spans, h.takeWhile_append, List.drop_left]

/-- Where no word goes on, it does not matter what stands in front. -/
theorem Glue.shades_spans_of_stop (glue : Glue) (h : ∀ c ∈ rest.head?, continuesWord c = false) :
    shades (glue.spans rest) = shades (script rest) := by
  have hrun : IsRun continuesWord [] rest := ⟨by simp, h⟩
  cases glue with
  | apart => rfl
  | bracket =>
    have hspans := Glue.spans_bracket hrun
    rw [List.nil_append, wordSpans, List.nil_append] at hspans
    rw [hspans]
  | mark =>
    have hspans := Glue.spans_mark hrun
    rw [List.nil_append] at hspans
    rw [hspans, shades_cons]
    rfl

/-- Behind a long mark nothing of the run stands out. -/
theorem Glue.shades_spans_mark_append (h : ∀ c ∈ run, continuesWord c = true) :
    shades (Glue.mark.spans (run ++ rest)) =
      List.replicate run.length .other ++ shades (Glue.mark.spans rest) := by
  obtain ⟨more, others, rfl, hmore⟩ := Text.exists_isRun continuesWord rest
  have hall : IsRun continuesWord (run ++ more) others :=
    ⟨List.forall_mem_append.mpr ⟨h, hmore.all⟩, hmore.stop⟩
  rw [← List.append_assoc, Glue.spans_mark hall, Glue.spans_mark hmore, shades_cons, shades_cons,
    List.length_append, List.replicate_add, List.append_assoc]
  rfl

theorem wordSpans_of_bracket?_eq_none (h : Vocabulary.bracket? (c :: cs) = none) :
    wordSpans (c :: cs) = [⟨c :: cs, wordStyle (String.ofList (c :: cs))⟩] := by
  rw [wordSpans, h]

theorem wordSpans_bracket {found : Vocabulary.Bracket}
    (h : Vocabulary.bracket? (found.word ++ cs) = some found) :
    wordSpans (found.word ++ cs) = ⟨found.word, .colored Theme.primary⟩ :: wordSpans cs := by
  obtain ⟨hne, -⟩ := Vocabulary.bracket_word (Vocabulary.of_bracket?_eq_some h).1
  obtain ⟨c, tail, hword⟩ := List.exists_cons_of_ne_nil hne
  rw [hword, List.cons_append] at h ⊢
  rw [wordSpans, h]
  simp [hword]

/-- A bracket word is cut off, and the run goes on behind it. -/
theorem Glue.shades_spans_bracket_append {found : Vocabulary.Bracket}
    (h : Vocabulary.bracket? (found.word ++ rest) = some found)
    (hall : ∀ c ∈ found.word, continuesWord c = true) :
    shades (Glue.bracket.spans (found.word ++ rest)) =
      List.replicate found.word.length .other ++ shades (Glue.bracket.spans rest) := by
  obtain ⟨more, others, rfl, hmore⟩ := Text.exists_isRun continuesWord rest
  have hrun : IsRun continuesWord (found.word ++ more) others :=
    ⟨List.forall_mem_append.mpr ⟨hall, hmore.all⟩, hmore.stop⟩
  rw [← List.append_assoc] at h ⊢
  rw [Vocabulary.bracket?_append hmore.stop] at h
  rw [Glue.spans_bracket hrun, Glue.spans_bracket hmore, wordSpans_bracket h, List.cons_append,
    shades_cons]
  rfl

/-- No bracket word starts like a comment. -/
theorem bracket?_comment {d : Char} (hd : d = 'ゴ' ∨ d = 'ビ') (cs : List Char) :
    Vocabulary.bracket? ('ゴ' :: d :: cs) = none := by
  rcases hd with rfl | rfl <;> simp [Vocabulary.bracket?, Vocabulary.brackets, List.isPrefixOf]

theorem bracket?_longMark (cs : List Char) : Vocabulary.bracket? (longMark :: cs) = none := by
  simp [Vocabulary.bracket?, Vocabulary.brackets, List.isPrefixOf, longMark]

/-- A run that starts with no bracket word is one word. -/
theorem Glue.shades_spans_bracket (h : IsRun continuesWord (c :: cs) rest)
    (hnone : Vocabulary.bracket? (c :: cs) = none) :
    shades (Glue.bracket.spans (c :: cs ++ rest)) = List.replicate (c :: cs).length
      (.ofColor (wordStyle (String.ofList (c :: cs))).foreground) ++ shades (script rest) := by
  rw [Glue.spans_bracket h, wordSpans_of_bracket?_eq_none hnone, List.singleton_append, shades_cons]

/-- Behind a long mark that follows a bracket word, the run is one word that means nothing. -/
theorem Glue.shades_spans_longMark (rest : List Char) :
    shades (Glue.bracket.spans (longMark :: rest)) = .other :: shades (Glue.mark.spans rest) := by
  obtain ⟨run, others, rfl, hrun⟩ := Text.exists_isRun continuesWord rest
  have hall : IsRun continuesWord (longMark :: run) others :=
    ⟨List.forall_mem_cons.mpr ⟨by decide, hrun.all⟩, hrun.stop⟩
  have hshade : Shade.ofColor (wordStyle (String.ofList (longMark :: run))).foreground = .other :=
    shade_wordStyle_of_read? (by rw [String.toList_ofList, read?_longMark])
  have hspans := Glue.shades_spans_bracket hall (bracket?_longMark run)
  rw [hshade] at hspans
  rw [Glue.spans_mark hrun, shades_cons]
  exact hspans

end Words

section Lines

variable {c : Char} {cs rest : List Char}

theorem commentTail?_eq_none (h : ¬Starts (c :: cs)) : commentTail? c cs = none := by
  unfold commentTail?
  split
  · exact absurd .line h
  · exact absurd .block h
  · rfl

/-- A word is coloured as behind a bracket word, unless it starts a comment. -/
theorem script_of_isKatakana (hc : isKatakana c = true) (hstarts : ¬Starts (c :: cs)) :
    script (c :: cs) = Glue.bracket.spans (c :: cs) := by
  obtain ⟨-, hstring, hchar⟩ := Vocabulary.unmarked (by decide) hc
  have hword : continuesWord c = true := by simp [continuesWord, hc]
  rw [script, scriptHead, if_neg hstring, if_neg hchar, if_pos hc, commentTail?_eq_none hstarts]
  simp [Glue.spans, hword]

theorem isKatakana_commentMark : isKatakana 'ゴ' = true := by decide

theorem script_line (cs : List Char) :
    script ('ゴ' :: 'ゴ' :: cs) = [⟨'ゴ' :: 'ゴ' :: cs, .colored Theme.comment⟩] := by
  rw [script]
  simp [scriptHead, commentTail?, isKatakana_commentMark, script]

theorem script_block (cs : List Char) :
    script ('ゴ' :: 'ビ' :: cs) = ⟨'ゴ' :: 'ビ' :: Layout.blockBody cs, .colored Theme.comment⟩ ::
      script (cs.drop (Layout.blockBody cs).length) := by
  rw [script]
  simp [scriptHead, commentTail?, isKatakana_commentMark]

theorem script_literal {kind : TokenKind} {opening closing : Char}
    (marks : (kind, opening, closing) ∈ Vocabulary.literalMarks) (cs : List Char) :
    script (opening :: cs) = ⟨opening :: literalTail closing cs, .colored Theme.literal⟩ ::
      script (cs.drop (literalTail closing cs).length) := by
  simp only [Vocabulary.literalMarks, List.mem_cons, Prod.mk.injEq, List.not_mem_nil,
    or_false] at marks
  rcases marks with ⟨rfl, rfl, rfl⟩ | ⟨rfl, rfl, rfl⟩
  · rw [script]
    rfl
  · rw [script]
    rfl

/-- The character has a span of its own, without the colour of comments or literals. -/
structure IsPlain (c : Char) : Prop where
  not_string : c ≠ '「'
  not_char : c ≠ '『'
  not_katakana : isKatakana c = false
  not_digit : c.isDigit = false

theorem isKatakana_of_lt (h : c.toNat < 128) : isKatakana c = false :=
  Bool.eq_false_iff.mpr fun hk => by
    have hle := Lexeme.le_of_isKatakana hk
    omega

theorem continuesWord_of_lt (h : c.toNat < 128) : continuesWord c = false := by
  have hmark : c ≠ longMark := by
    rintro rfl
    exact absurd h (by decide)
  simp [continuesWord, isKatakana_of_lt h, hmark]

theorem lt_of_continuesName (h : Text.continuesName c = true) : c.toNat < 128 := by
  by_cases hdigit : c.isDigit = true
  · have hlt := Lexeme.lt_of_isDigit hdigit
    omega
  · refine (Text.lt_of_startsName ?_).2
    simpa [Text.continuesName, Text.startsName, Char.isAlphanum, hdigit] using h

theorem isPlain_of_lt (h : c.toNat < 128) (hdigit : c.isDigit = false) : IsPlain c := by
  refine ⟨?_, ?_, isKatakana_of_lt h, hdigit⟩
  · rintro rfl
    exact absurd h (by decide)
  · rintro rfl
    exact absurd h (by decide)

theorem isBlank_plain (h : Text.isBlank c = true) : IsPlain c ∧ continuesWord c = false := by
  simp only [Text.isBlank, Bool.or_eq_true, beq_iff_eq] at h
  rcases h with ((rfl | rfl) | rfl) | rfl <;>
    exact ⟨⟨by decide, by decide, by decide, by decide⟩, by decide⟩

theorem punctuation?_plain {kind : TokenKind} {text : String}
    (h : Vocabulary.punctuation? c = some (kind, text)) :
    IsPlain c ∧ continuesWord c = false ∧ Shade.ofRole (.token kind) = .other := by
  have hnot : ∀ {p : Char → Bool}, (Vocabulary.marks.all fun c => !p c) = true → p c = false := by
    intro p hp
    by_contra hc
    rw [(Vocabulary.unmarked hp (Bool.not_eq_false _ ▸ hc)).1] at h
    cases h
  refine ⟨⟨?_, ?_, hnot (by decide), hnot (by decide)⟩, hnot (by decide), ?_⟩
  · rintro rfl
    cases h
  · rintro rfl
    cases h
  · unfold Vocabulary.punctuation? at h
    split at h <;> cases h <;> decide

theorem shades_script_plain (h : IsPlain c) (cs : List Char) :
    shades (script (c :: cs)) = .other :: shades (script cs) := by
  have hcolor : Shade.ofColor (some (if isBracket c then Theme.primary else Theme.plain)) =
      .other := by
    split
    · decide
    · decide
  rw [script, scriptHead, if_neg h.not_string, if_neg h.not_char, h.not_katakana, h.not_digit]
  simp only [Bool.false_eq_true, if_false, List.singleton_append, List.length_nil, List.drop_zero]
  rw [shades_cons]
  exact congrArg (· :: _) hcolor

theorem shades_script_plain_append {text : List Char} (h : ∀ c ∈ text, IsPlain c)
    (rest : List Char) :
    shades (script (text ++ rest)) =
      List.replicate text.length .other ++ shades (script rest) := by
  induction text with
  | nil => rfl
  | cons c text ih =>
    rw [List.forall_mem_cons] at h
    rw [List.cons_append, shades_script_plain h.1, ih h.2]
    rfl

theorem script_digits (hc : c.isDigit = true) (run : IsRun Lexeme.continuesNumber cs rest) :
    script (c :: (cs ++ rest)) = ⟨c :: cs, .colored Theme.literal⟩ :: script rest := by
  obtain ⟨-, hstring, hchar⟩ := Vocabulary.unmarked (by decide) hc
  have hlt := Lexeme.lt_of_isDigit hc
  have hkatakana : isKatakana c = false := isKatakana_of_lt (by omega)
  have hrun : (cs ++ rest).takeWhile (fun d => d.isDigit || d == '.') = cs :=
    run.takeWhile_append
  rw [script, scriptHead, if_neg hstring, if_neg hchar, hkatakana, hc]
  simp [hrun]

end Lines

section Text

theorem lineText_wordSpans (run : List Char) : Span.lineText (wordSpans run) = run := by
  fun_induction wordSpans run with
  | case1 => rfl
  | case2 c cs found hfound more ih =>
    have hmore : more <+: cs := List.take_prefix _ cs
    rw [Span.lineText, List.flatMap_cons, ← Span.lineText, ih, List.cons_append,
      List.prefix_iff_eq_append.mp hmore]
  | case3 c cs hnone => exact List.append_nil _

theorem exists_lineText_scriptHead (c : Char) (cs : List Char) :
    ∃ tail, tail <+: cs ∧ Span.lineText (scriptHead c cs).1 = c :: tail ∧
      (scriptHead c cs).2 = tail.length := by
  have hone : ∀ (tail : List Char) (color : Color),
      Span.lineText [⟨c :: tail, .colored color⟩] = c :: tail := fun tail _ => List.append_nil _
  unfold scriptHead
  dsimp only
  split
  · exact ⟨_, List.take_prefix _ cs, hone _ _, rfl⟩
  split
  · exact ⟨_, List.take_prefix _ cs, hone _ _, rfl⟩
  split
  · split
    · rename_i tail htail
      refine ⟨tail, ?_, hone _ _, rfl⟩
      unfold commentTail? at htail
      split at htail
      · cases htail
        exact List.prefix_rfl
      · cases htail
        exact (List.prefix_cons_inj _).mpr (Layout.isPrefix_blockBody _)
      · cases htail
    · exact ⟨_, List.takeWhile_prefix _, lineText_wordSpans _, rfl⟩
  split
  · exact ⟨_, List.takeWhile_prefix _, hone _ _, rfl⟩
  · exact ⟨_, List.nil_prefix, hone _ _, rfl⟩

/-- The spans of a line have its text. -/
theorem lineText_script (line : List Char) : Span.lineText (script line) = line := by
  fun_induction script line with
  | case1 => rfl
  | case2 c cs ih =>
    obtain ⟨tail, htail, htext, hlength⟩ := exists_lineText_scriptHead c cs
    rw [Span.lineText, List.flatMap_append, ← Span.lineText, ← Span.lineText, ih, htext, hlength,
      List.cons_append, List.prefix_iff_eq_append.mp htail]

theorem length_colors (spans : List Span) :
    (Span.colors spans).length = (Span.lineText spans).length := by
  simp [Span.colors, Span.lineText, List.length_flatMap]

end Text

end Highlight

end Inspector

end KanaScript
