import KanaScript.Inspector.Highlight.Code
import KanaScript.Inspector.Highlight.Listing
import KanaScript.Proofs.Inspector.ScriptSpans
import KanaScript.Proofs.Text.Cursor

/-! Colouring with a cursor.  A loop moves over the positions of a line and cuts the spans out of
it; every reading and every cut is checked, and so is the number of rounds.  No check ever fails,
and the spans are those of the colouring, which have the text of the line. -/

namespace KanaScript.Inspector.Highlight

open Text (Advances byteLength continuesWord cut? find? isKatakana loop? skip? slice?)

section Script

variable {text cs word : List Char} {c : Char} {i : Nat}

/-- The mark that closes a literal which `c` opens. -/
def closing? (c : Char) : Option Char :=
  if c = '「' then some '」' else if c = '『' then some '』' else none

def lineMark : List Char := ['ゴ', 'ゴ']

def blockOpening : List Char := ['ゴ', 'ビ']

def blockClosing : List Char := ['ビ', 'ゴ']

/-- The spans of a word, which is cut behind each bracket word; at most `depth` are found. -/
def wordCursor? : Nat → List Char → Option (List Span)
  | 0, _ => none
  | depth + 1, word =>
    match Vocabulary.bracket? word with
    | none => some [⟨word, wordStyle (String.ofList word)⟩]
    | some bracket => do
      let parts ← cut? word (byteLength bracket.word)
      let others ← if parts.2.isEmpty then some [] else wordCursor? depth parts.2
      return ⟨bracket.word, .colored Theme.primary⟩ :: others

/-- The block comment that starts at a position. -/
def blockCursor? (text : List Char) (i : Nat) : Option (List Char) := do
  let rest ← slice? text i text.length
  let parts ← cut? rest (byteLength blockOpening)
  let size :=
    match find? blockClosing parts.2 with
    | some n => byteLength blockOpening + n + byteLength blockClosing
    | none => byteLength rest
  let comment ← cut? rest size
  return comment.1

/-- One round of the colouring of a script: the spans at the position, and the next position. -/
def scriptRound (text : List Char) (state : Nat × List Span) :
    Option ((Nat × List Span) ⊕ List Span) :=
  let i := state.1
  let one (part : List Char) (color : Color) : List Span := state.2 ++ [⟨part, .colored color⟩]
  if i < text.length then do
    let c ← text[i]?
    match closing? c with
    | some closing => do
      let last ← skip? (· != closing) text (i + 1)
      let part ← slice? text i (min (last + 1) text.length)
      return .inl (min (last + 1) text.length, one part Theme.literal)
    | none =>
      if isKatakana c then do
        let last ← skip? continuesWord text (i + 1)
        let word ← slice? text i last
        if lineMark.isPrefixOf word then do
          let part ← slice? text i text.length
          return .inr (one part Theme.comment)
        else if blockOpening.isPrefixOf word then do
          let part ← blockCursor? text i
          return .inl (i + part.length, one part Theme.comment)
        else do
          let more ← wordCursor? (word.length + 1) word
          return .inl (last, state.2 ++ more)
      else if c.isDigit then do
        let last ← skip? Lexeme.continuesNumber text (i + 1)
        let part ← slice? text i last
        return .inl (last, one part Theme.literal)
      else return .inl (i + 1, one [c] (if isBracket c then Theme.primary else Theme.plain))
  else some (.inr state.2)

/-- The colouring of a script in at most one round for each character. -/
def scriptCursor? (text : List Char) : Option (List Span) :=
  loop? (scriptRound text) (text.length + 1) (0, [])

theorem wordCursor?_eq {depth : Nat} (hne : word ≠ []) (hdepth : word.length ≤ depth) :
    wordCursor? depth word = some (wordSpans word) := by
  induction depth generalizing word with
  | zero => exact absurd (List.eq_nil_of_length_eq_zero (Nat.le_zero.mp hdepth)) hne
  | succ depth ih =>
    rw [wordCursor?]
    cases hbracket : Vocabulary.bracket? word with
    | none =>
      obtain ⟨c, cs, rfl⟩ := List.exists_cons_of_ne_nil hne
      rw [wordSpans_of_bracket?_eq_none hbracket]
    | some bracket =>
      obtain ⟨hmem, rest, rfl⟩ := Vocabulary.of_bracket?_eq_some hbracket
      have hword := (Vocabulary.bracket_word hmem).1
      have hlength := List.length_pos_iff.mpr hword
      rw [List.length_append] at hdepth
      rw [wordSpans_bracket hbracket]
      simp only [Text.cut?_append, Option.bind_eq_bind, Option.bind_some, Option.pure_def]
      cases rest with
      | nil => simp [wordSpans]
      | cons c rest =>
        rw [ih (List.cons_ne_nil c rest) (by omega)]
        rfl

theorem length_literalTail (closing : Char) (cs : List Char) :
    (literalTail closing cs).length = min ((cs.takeWhile (· != closing)).length + 1) cs.length := by
  rw [literalTail, List.length_take]

/-- A mark of comments is within the word that it starts. -/
theorem isPrefixOf_word {mark : List Char} (hmark : mark.all continuesWord = true) (c : Char)
    (cs : List Char) :
    mark.isPrefixOf (c :: cs.takeWhile continuesWord) = mark.isPrefixOf (c :: cs) := by
  obtain ⟨run, rest, rfl, hrun⟩ := Text.exists_isRun continuesWord cs
  rw [hrun.takeWhile_append, Bool.eq_iff_iff, List.isPrefixOf_iff_prefix,
    List.isPrefixOf_iff_prefix, ← List.cons_append,
    Text.isPrefix_append_iff (List.all_eq_true.mp hmark) hrun.stop]

/-- The size of a block comment, found by its closing mark. -/
theorem find?_blockClosing (body : List Char) :
    (∃ n, find? blockClosing body = some n ∧
      byteLength (Layout.blockBody body) = n + byteLength blockClosing) ∨
      find? blockClosing body = none ∧ Layout.blockBody body = body := by
  fun_induction Layout.blockBody body with
  | case1 rest => exact .inl ⟨0, rfl, rfl⟩
  | case2 c cs hne ih =>
    have hnot : blockClosing.isPrefixOf (c :: cs) = false := by
      rw [Bool.eq_false_iff, Ne, List.isPrefixOf_iff_prefix]
      rintro ⟨rest, hrest⟩
      obtain ⟨rfl, hcs⟩ := List.cons.inj hrest
      exact hne rest rfl hcs.symm
    rw [find?, hnot]
    rcases ih with ⟨n, hfound, hsize⟩ | ⟨hfound, hbody⟩
    · refine .inl ⟨n + c.utf8Size, by simp [hfound], ?_⟩
      rw [byteLength, hsize]
      omega
    · exact .inr ⟨by simp [hfound], by rw [hbody]⟩
  | case3 => exact .inr ⟨rfl, rfl⟩

theorem blockCursor?_eq {body : List Char} (h : text.drop i = 'ゴ' :: 'ビ' :: body) :
    blockCursor? text i = some ('ゴ' :: 'ビ' :: Layout.blockBody body) := by
  obtain ⟨rest, hrest⟩ := Layout.isPrefix_blockBody body
  have hslice : slice? text i text.length = some (blockOpening ++ body) := by
    rw [Text.length_of_drop h, Text.slice?_of_drop h List.prefix_rfl]
    rfl
  have hcut : cut? (blockOpening ++ body) (byteLength (blockOpening ++ Layout.blockBody body)) =
      some (blockOpening ++ Layout.blockBody body, rest) := by
    rw [← Text.cut?_append, List.append_assoc, hrest]
  rw [blockCursor?, hslice]
  simp only [Option.bind_eq_bind, Option.bind_some, Option.pure_def, Text.cut?_append]
  rcases find?_blockClosing body with ⟨n, hfound, hsize⟩ | ⟨hfound, hbody⟩
  · rw [hfound]
    dsimp only
    rw [Nat.add_assoc, ← hsize, ← Text.byteLength_append, hcut]
    rfl
  · rw [hbody] at hcut
    rw [hfound]
    dsimp only
    rw [hcut, hbody]
    rfl

/-- A round finds what the colouring starts with, and goes on behind it. -/
def Finds (text : List Char) (i : Nat) (spans : List Span) (c : Char) (cs : List Char) : Prop :=
  ∃ n more, scriptRound text (i, spans) = some (.inl (i + 1 + n, spans ++ more)) ∧
    script (c :: cs) = more ++ script (cs.drop n)

theorem finds_literal {closing : Char} (h : text.drop i = c :: cs)
    (hclosing : closing? c = some closing) (spans : List Span) : Finds text i spans c cs := by
  have hlast : min (i + 1 + (cs.takeWhile (· != closing)).length + 1) text.length =
      i + 1 + (literalTail closing cs).length := by
    rw [length_literalTail, Text.length_of_drop h]
    omega
  have hslice : slice? text i (i + 1 + (literalTail closing cs).length) = some _ :=
    Text.slice?_of_drop h (List.take_prefix _ cs)
  have hmarks : ∃ kind, (kind, c, closing) ∈ Vocabulary.literalMarks := by
    unfold closing? at hclosing
    split_ifs at hclosing with hstring hchar
    · cases hclosing
      exact ⟨.stringLiteral, by simp [hstring, Vocabulary.literalMarks]⟩
    · cases hclosing
      exact ⟨.charLiteral, by simp [hchar, Vocabulary.literalMarks]⟩
  obtain ⟨kind, hmarks⟩ := hmarks
  refine ⟨_, [⟨c :: literalTail closing cs, .colored Theme.literal⟩], ?_, script_literal hmarks cs⟩
  rw [scriptRound, if_pos (Text.lt_of_drop h), Text.getElem?_of_drop h]
  simp only [Option.bind_eq_bind, Option.bind_some, Option.pure_def, hclosing,
    Text.skip?_of_drop h, hlast, hslice]

/-- Where a word starts, the round looks at the whole word. -/
theorem scriptRound_katakana (h : text.drop i = c :: cs) (hc : isKatakana c = true)
    (spans : List Span) :
    scriptRound text (i, spans) =
      if lineMark.isPrefixOf (c :: cs) then
        some (.inr (spans ++ [⟨c :: cs, .colored Theme.comment⟩]))
      else if blockOpening.isPrefixOf (c :: cs) then
        (blockCursor? text i).bind fun part =>
          some (.inl (i + part.length, spans ++ [⟨part, .colored Theme.comment⟩]))
      else
        some (.inl (i + 1 + (cs.takeWhile continuesWord).length,
          spans ++ wordSpans (c :: cs.takeWhile continuesWord))) := by
  obtain ⟨-, hstring, hchar⟩ := Vocabulary.unmarked (by decide) hc
  have hclosing : closing? c = none := by rw [closing?, if_neg hstring, if_neg hchar]
  have hmark : ∀ mark ∈ [lineMark, blockOpening], mark.all continuesWord = true := by decide
  have hword : slice? text i (i + 1 + (cs.takeWhile continuesWord).length) = some _ :=
    Text.slice?_of_drop h (List.takeWhile_prefix _)
  have hrest : slice? text i text.length = some (c :: cs) := by
    rw [Text.length_of_drop h, Text.slice?_of_drop h List.prefix_rfl]
  rw [scriptRound, if_pos (Text.lt_of_drop h), Text.getElem?_of_drop h]
  simp only [Option.bind_eq_bind, Option.bind_some, Option.pure_def, hclosing, hc, if_true,
    Text.skip?_of_drop h, hword, hrest, isPrefixOf_word (hmark lineMark (by simp)),
    isPrefixOf_word (hmark blockOpening (by simp)),
    wordCursor?_eq (List.cons_ne_nil c _) (Nat.le_succ _)]

theorem scriptRound_other (h : text.drop i = c :: cs) (hc : isKatakana c = false)
    (hclosing : closing? c = none) (spans : List Span) :
    scriptRound text (i, spans) =
      if c.isDigit then
        some (.inl (i + 1 + (cs.takeWhile Lexeme.continuesNumber).length,
          spans ++ [⟨c :: cs.takeWhile Lexeme.continuesNumber, .colored Theme.literal⟩]))
      else
        some (.inl (i + 1,
          spans ++ [⟨[c], .colored (if isBracket c then Theme.primary else Theme.plain)⟩])) := by
  have hnumber : slice? text i (i + 1 + (cs.takeWhile Lexeme.continuesNumber).length) = some _ :=
    Text.slice?_of_drop h (List.takeWhile_prefix _)
  rw [scriptRound, if_pos (Text.lt_of_drop h), Text.getElem?_of_drop h]
  simp only [Option.bind_eq_bind, Option.bind_some, Option.pure_def, hclosing, hc,
    Bool.false_eq_true, if_false, Text.skip?_of_drop h, hnumber]

theorem finds_word (h : text.drop i = c :: cs) (hc : isKatakana c = true)
    (hline : lineMark.isPrefixOf (c :: cs) = false)
    (hblock : blockOpening.isPrefixOf (c :: cs) = false) (spans : List Span) :
    Finds text i spans c cs := by
  have hstarts : ¬Layout.Starts (c :: cs) := by
    intro hstarts
    cases hstarts with
    | blank hblank => exact absurd hc (by simp [(isBlank_plain hblank).1.not_katakana])
    | line => simp [lineMark] at hline
    | block => simp [blockOpening] at hblock
  obtain ⟨run, rest, rfl, hrun⟩ := Text.exists_isRun continuesWord cs
  have hall : Text.IsRun continuesWord (c :: run) rest :=
    ⟨List.forall_mem_cons.mpr ⟨by simp [continuesWord, hc], hrun.all⟩, hrun.stop⟩
  refine ⟨run.length, wordSpans (c :: run), ?_, ?_⟩
  · rw [scriptRound_katakana h hc, hline, hblock, hrun.takeWhile_append]
    rfl
  · rw [script_of_isKatakana hc hstarts, ← List.cons_append, Glue.spans_bracket hall,
      List.drop_left]

theorem finds_block {body : List Char} (h : text.drop i = 'ゴ' :: 'ビ' :: body) (spans : List Span) :
    Finds text i spans 'ゴ' ('ビ' :: body) := by
  refine ⟨(Layout.blockBody body).length + 1,
    [⟨'ゴ' :: 'ビ' :: Layout.blockBody body, .colored Theme.comment⟩], ?_, script_block body⟩
  have hnext : i + ('ゴ' :: 'ビ' :: Layout.blockBody body).length =
      i + 1 + ((Layout.blockBody body).length + 1) := by
    rw [List.length_cons, List.length_cons]
    omega
  rw [scriptRound_katakana h isKatakana_commentMark, blockCursor?_eq h, ← hnext]
  simp [lineMark, blockOpening]

theorem finds_other (h : text.drop i = c :: cs) (hc : isKatakana c = false)
    (hclosing : closing? c = none) (spans : List Span) : Finds text i spans c cs := by
  have hround := scriptRound_other h hc hclosing spans
  cases hdigit : c.isDigit with
  | true =>
    obtain ⟨run, rest, rfl, hrun⟩ := Text.exists_isRun Lexeme.continuesNumber cs
    rw [hdigit, hrun.takeWhile_append] at hround
    refine ⟨run.length, [⟨c :: run, .colored Theme.literal⟩], hround, ?_⟩
    rw [script_digits hdigit hrun, List.drop_left]
    rfl
  | false =>
    rw [hdigit] at hround
    refine ⟨0, _, hround, ?_⟩
    have hmarks : c ≠ '「' ∧ c ≠ '『' := by
      unfold closing? at hclosing
      split_ifs at hclosing with hstring hchar
      exact ⟨hstring, hchar⟩
    rw [script, scriptHead, if_neg hmarks.1, if_neg hmarks.2, hc, hdigit]
    rfl

/-- Only a line comment, which takes all that is left, ends the loop before the end of the line. -/
theorem finds_or_ends (h : text.drop i = c :: cs) (spans : List Span) :
    Finds text i spans c cs ∨
      scriptRound text (i, spans) = some (.inr (spans ++ script (c :: cs))) := by
  cases hclosing : closing? c with
  | some closing => exact .inl (finds_literal h hclosing spans)
  | none =>
    cases hc : isKatakana c with
    | false => exact .inl (finds_other h hc hclosing spans)
    | true =>
      cases hline : lineMark.isPrefixOf (c :: cs) with
      | true =>
        obtain ⟨rest, hrest⟩ := List.isPrefixOf_iff_prefix.mp hline
        rw [scriptRound_katakana h hc, hline, ← hrest]
        exact .inr (by rw [show lineMark ++ rest = 'ゴ' :: 'ゴ' :: rest from rfl, script_line]; rfl)
      | false =>
        cases hblock : blockOpening.isPrefixOf (c :: cs) with
        | true =>
          obtain ⟨body, hbody⟩ := List.isPrefixOf_iff_prefix.mp hblock
          obtain ⟨rfl, rfl⟩ := List.cons.inj hbody
          exact .inl (finds_block h spans)
        | false => exact .inl (finds_word h hc hline hblock spans)

/-- What is left to do for the cursor of a script are the spans of the rest of the line. -/
theorem advances_scriptRound (text : List Char) :
    Advances (scriptRound text) (fun state => text.length - state.1) (fun _ => True)
      (fun state result => result = state.2 ++ script (text.drop state.1)) := by
  rintro ⟨i, spans⟩ -
  dsimp only
  cases hrest : text.drop i with
  | nil =>
    have hi : ¬i < text.length := Nat.not_lt.mpr (List.drop_eq_nil_iff.mp hrest)
    refine .inl ⟨spans, if_neg hi, ?_⟩
    rw [script, List.append_nil]
  | cons c cs =>
    have hi := Text.lt_of_drop hrest
    rcases finds_or_ends hrest spans with ⟨n, more, hround, hspans⟩ | hround
    · refine .inr ⟨(i + 1 + n, spans ++ more), hround, trivial, by dsimp only; omega, ?_⟩
      rintro result rfl
      rw [hspans, ← Text.drop_succ_of_drop hrest, List.drop_drop, List.append_assoc]
    · exact .inl ⟨_, hround, rfl⟩

theorem scriptCursor?_eq (text : List Char) : scriptCursor? text = some (script text) := by
  obtain ⟨result, hend, rfl⟩ :=
    (advances_scriptRound text).loop? (0, []) trivial (Nat.lt_succ_of_le (Nat.sub_le text.length 0))
  exact hend

end Script

section Code

variable {text cs rest word : List Char} {c quote : Char} {i : Nat}

/-- One step towards the closing quote of a literal, two over a backslash and what it keeps. -/
def quotedRound (quote : Char) (text : List Char) (i : Nat) : Option (Nat ⊕ Nat) :=
  if i < text.length then
    (text[i]?).map fun c =>
      if c = quote then .inr i else if c = '\\' then .inl (i + 2) else .inl (i + 1)
  else some (.inr i)

/-- The spans with the word that is complete. -/
def flush (spans : List Span) (word : List Char) (called : Bool) : List Span :=
  if word.isEmpty then spans else spans ++ [⟨word, codeWordStyle word called⟩]

/-- Where the colouring of a line of C is: the position, the word in front of it, and the spans in
front of that word. -/
structure CodeState where
  position : Nat
  word : List Char
  spans : List Span

def codeRound (text : List Char) (state : CodeState) : Option (CodeState ⊕ List Span) :=
  let i := state.position
  if i < text.length then do
    let c ← text[i]?
    if c = '#' && state.word.isEmpty && state.spans.isEmpty then
      return .inr [⟨text, .colored Theme.comment⟩]
    else if c = '"' || c = '\'' then do
      let last ← loop? (quotedRound c text) (text.length + 1) (i + 1)
      let part ← slice? text i (min (last + 1) text.length)
      return .inl ⟨min (last + 1) text.length, [],
        flush state.spans state.word false ++ [⟨part, .colored Theme.literal⟩]⟩
    else if isWordChar c then return .inl ⟨i + 1, state.word ++ [c], state.spans⟩
    else
      return .inl ⟨i + 1, [], flush state.spans state.word (c == '(') ++
        [⟨[c], .colored (if isCodeBracket c then Theme.primary else Theme.plain)⟩]⟩
  else some (.inr (flush state.spans state.word false))

def codeCursor? (text : List Char) : Option (List Span) :=
  loop? (codeRound text) (text.length + 1) ⟨0, [], []⟩

theorem isPrefix_quotedTail (quote : Char) (cs : List Char) : quotedTail quote cs <+: cs := by
  fun_induction quotedTail quote cs with
  | case1 => exact List.prefix_rfl
  | case2 c => exact List.prefix_rfl
  | case3 d cs => exact ⟨d :: cs, rfl⟩
  | case4 d cs hquote ih => simpa using ih
  | case5 c d cs hquote hslash ih => simpa using ih

theorem quotedTail_quote (quote : Char) (cs : List Char) :
    quotedTail quote (quote :: cs) = [quote] := by
  cases cs <;> simp [quotedTail]

theorem quotedTail_backslash (hquote : '\\' ≠ quote) (cs : List Char) :
    quotedTail quote ('\\' :: cs) = '\\' :: (cs.take 1 ++ quotedTail quote (cs.drop 1)) := by
  cases cs <;> simp [quotedTail, hquote]

theorem quotedTail_cons (hquote : c ≠ quote) (hslash : c ≠ '\\') (cs : List Char) :
    quotedTail quote (c :: cs) = c :: quotedTail quote cs := by
  cases cs <;> simp [quotedTail, hquote, hslash]

/-- Behind a backslash at the end of the line the position lies beyond the end. -/
theorem advances_quotedRound (quote : Char) (text : List Char) :
    Advances (quotedRound quote text) (text.length - ·) (fun _ => True)
      (fun i last => min (last + 1) text.length =
        min (i + (quotedTail quote (text.drop i)).length) text.length) := by
  intro i _
  dsimp only
  cases hrest : text.drop i with
  | nil =>
    have hi : ¬i < text.length := Nat.not_lt.mpr (List.drop_eq_nil_iff.mp hrest)
    refine .inl ⟨i, if_neg hi, ?_⟩
    simp only [quotedTail, List.length_nil]
    omega
  | cons c cs =>
    have hi := Text.lt_of_drop hrest
    have hdrop := Text.drop_succ_of_drop hrest
    rw [quotedRound, if_pos hi, Text.getElem?_of_drop hrest, Option.map_some]
    by_cases hquote : c = quote
    · subst hquote
      rw [if_pos rfl, quotedTail_quote]
      exact .inl ⟨i, rfl, rfl⟩
    by_cases hslash : c = '\\'
    · subst hslash
      rw [if_neg hquote, if_pos rfl, quotedTail_backslash hquote]
      refine .inr ⟨i + 2, rfl, trivial, by omega, fun last hlast => ?_⟩
      have hmore : text.drop (i + 2) = cs.drop 1 := by rw [← hdrop, List.drop_drop]
      have hle := (isPrefix_quotedTail quote (cs.drop 1)).length_le
      rw [List.length_drop] at hle
      rw [hlast, hmore, Text.length_of_drop hrest, List.length_cons, List.length_append,
        List.length_take]
      omega
    · rw [if_neg hquote, if_neg hslash, quotedTail_cons hquote hslash]
      refine .inr ⟨i + 1, rfl, trivial, by omega, fun last hlast => ?_⟩
      rw [hlast, hdrop, List.length_cons]
      omega

/-- The text of a literal is found, with its opening and its closing quote. -/
theorem slice?_quoted (h : text.drop i = c :: cs) (quote : Char) : ∃ last,
    loop? (quotedRound quote text) (text.length + 1) (i + 1) = some last ∧
      min (last + 1) text.length = i + 1 + (quotedTail quote cs).length ∧
      slice? text i (min (last + 1) text.length) = some (c :: quotedTail quote cs) := by
  obtain ⟨last, hend, hlast⟩ := (advances_quotedRound quote text).loop? (i + 1) trivial
    (Nat.lt_succ_of_le (Nat.sub_le text.length (i + 1)))
  have htail := isPrefix_quotedTail quote cs
  have hfits : min (i + 1 + (quotedTail quote cs).length) text.length =
      i + 1 + (quotedTail quote cs).length := by
    have hle := htail.length_le
    rw [Text.length_of_drop h]
    omega
  rw [Text.drop_succ_of_drop h, hfits] at hlast
  exact ⟨last, hend, hlast, by rw [hlast, Text.slice?_of_drop h htail]⟩

theorem isWordChar_quote : isWordChar '"' = false ∧ isWordChar '\'' = false := by decide +kernel

theorem codeHead_word (h : Text.IsRun isWordChar (c :: cs) rest) :
    codeHead c (cs ++ rest) = ⟨c :: cs, codeWordStyle (c :: cs) (rest.head? == some '(')⟩ := by
  obtain ⟨hc, hcs⟩ := List.forall_mem_cons.mp h.all
  have hrun : Text.IsRun isWordChar cs rest := ⟨hcs, h.stop⟩
  have hquote : ¬(c = '"' || c = '\'') = true := by
    simp only [Bool.or_eq_true, decide_eq_true_eq]
    rintro (rfl | rfl)
    · exact absurd hc (by simp [isWordChar_quote])
    · exact absurd hc (by simp [isWordChar_quote])
  rw [codeHead, if_neg hquote, if_pos hc, hrun.takeWhile_append, hrun.dropWhile_append]

theorem codeSpans_word (h : Text.IsRun isWordChar (c :: cs) rest) :
    codeSpans (c :: cs ++ rest) =
      ⟨c :: cs, codeWordStyle (c :: cs) (rest.head? == some '(')⟩ :: codeSpans rest := by
  rw [List.cons_append, codeSpans, codeHead_word h]
  simp

theorem codeSpans_quote (hc : c = '"' ∨ c = '\'') (cs : List Char) :
    codeSpans (c :: cs) = ⟨c :: quotedTail c cs, .colored Theme.literal⟩ ::
      codeSpans (cs.drop (quotedTail c cs).length) := by
  rw [codeSpans, codeHead, if_pos (by simpa using hc)]
  rfl

theorem codeSpans_delimiter (hquote : ¬(c = '"' ∨ c = '\'')) (hc : isWordChar c = false)
    (cs : List Char) : codeSpans (c :: cs) =
      ⟨[c], .colored (if isCodeBracket c then Theme.primary else Theme.plain)⟩ :: codeSpans cs := by
  rw [codeSpans, codeHead, if_neg (by simpa using hquote), hc]
  rfl

/-- The word in front of the position is the first span of what is left. -/
theorem flush_append (h : Text.IsRun isWordChar word rest) (spans : List Span) :
    flush spans word (rest.head? == some '(') ++ codeSpans rest =
      spans ++ codeSpans (word ++ rest) := by
  cases word with
  | nil => rfl
  | cons c cs =>
    rw [codeSpans_word h, flush, if_neg (by simp), List.append_assoc, List.singleton_append]

/-- The word is a word, and a line that is no directive is not taken for one. -/
structure CodeState.Valid (text : List Char) (state : CodeState) : Prop where
  word : ∀ c ∈ state.word, isWordChar c = true
  plain : (text.drop state.position).head? = some '#' → state.word ≠ [] ∨ state.spans ≠ []

theorem codeRound_quote (h : text.drop i = c :: cs) (hc : c = '"' ∨ c = '\'') (word : List Char)
    (spans : List Span) : codeRound text ⟨i, word, spans⟩ =
      some (.inl ⟨i + 1 + (quotedTail c cs).length, [],
        flush spans word false ++ [⟨c :: quotedTail c cs, .colored Theme.literal⟩]⟩) := by
  obtain ⟨last, hend, hlast, hslice⟩ := slice?_quoted h c
  have hplain : c ≠ '#' := by rcases hc with rfl | rfl <;> decide
  rw [codeRound, if_pos (Text.lt_of_drop h), Text.getElem?_of_drop h]
  simp only [Option.bind_eq_bind, Option.bind_some, Option.pure_def, hplain, decide_false,
    Bool.false_and, Bool.false_eq_true, if_false, Bool.or_eq_true, decide_eq_true_eq, hc, if_true,
    hend, hslice]
  rw [hlast]

theorem codeRound_other (h : text.drop i = c :: cs) (hc : ¬(c = '"' ∨ c = '\''))
    (hvalid : CodeState.Valid text ⟨i, word, spans⟩) : codeRound text ⟨i, word, spans⟩ =
      if isWordChar c then some (.inl ⟨i + 1, word ++ [c], spans⟩)
      else some (.inl ⟨i + 1, [], flush spans word (c == '(') ++
        [⟨[c], .colored (if isCodeBracket c then Theme.primary else Theme.plain)⟩]⟩) := by
  have hplain : ¬(c = '#' && word.isEmpty && spans.isEmpty) = true := by
    simp only [Bool.and_eq_true, decide_eq_true_eq, List.isEmpty_iff]
    rintro ⟨⟨rfl, rfl⟩, rfl⟩
    exact absurd (hvalid.plain (by rw [h]; rfl)) (by simp)
  rw [codeRound, if_pos (Text.lt_of_drop h), Text.getElem?_of_drop h]
  simp only [Option.bind_eq_bind, Option.bind_some, Option.pure_def, hplain, Bool.false_eq_true,
    if_false, Bool.or_eq_true, decide_eq_true_eq, hc]

/-- What is left to do for the cursor of a line of C are the spans of the word that it is in and of
the rest of the line. -/
theorem advances_codeRound (text : List Char) :
    Advances (codeRound text) (text.length - ·.position) (CodeState.Valid text)
      (fun state result =>
        result = state.spans ++ codeSpans (state.word ++ text.drop state.position)) := by
  rintro ⟨i, word, spans⟩ hvalid
  have hword := hvalid.word
  dsimp only at hword ⊢
  cases hrest : text.drop i with
  | nil =>
    have hi : ¬i < text.length := Nat.not_lt.mpr (List.drop_eq_nil_iff.mp hrest)
    have hrun : Text.IsRun isWordChar word [] := ⟨hword, by simp⟩
    refine .inl ⟨_, if_neg hi, ?_⟩
    rw [← flush_append hrun, codeSpans, List.append_nil]
    rfl
  | cons c cs =>
    have hi := Text.lt_of_drop hrest
    have hdrop := Text.drop_succ_of_drop hrest
    have hflush (hc : isWordChar c = false) :
        flush spans word (c == '(') ++ codeSpans (c :: cs) =
          spans ++ codeSpans (word ++ c :: cs) := by
      have hrun : Text.IsRun isWordChar word (c :: cs) := ⟨hword, by simpa using hc⟩
      exact flush_append hrun spans
    by_cases hquote : c = '"' ∨ c = '\''
    · refine .inr ⟨_, codeRound_quote hrest hquote word spans, ?_, by dsimp only; omega, ?_⟩
      · exact ⟨by simp, fun _ => .inr (by simp)⟩
      · rintro result rfl
        have hc : isWordChar c = false ∧ (c == '(') = false := by
          rcases hquote with rfl | rfl
          · exact ⟨isWordChar_quote.1, rfl⟩
          · exact ⟨isWordChar_quote.2, rfl⟩
        rw [← hflush hc.1, hc.2, codeSpans_quote hquote, ← hdrop, List.drop_drop, List.append_assoc]
        rfl
    · have hround := codeRound_other hrest hquote hvalid
      cases hc : isWordChar c with
      | true =>
        rw [hc, if_pos rfl] at hround
        refine .inr ⟨_, hround, ?_, by dsimp only; omega, ?_⟩
        · exact ⟨List.forall_mem_append.mpr ⟨hword, by simpa using hc⟩, fun _ => .inl (by simp)⟩
        · rintro result rfl
          rw [hdrop, List.append_assoc, List.singleton_append]
      | false =>
        rw [hc, if_neg (by simp)] at hround
        refine .inr ⟨_, hround, ?_, by dsimp only; omega, ?_⟩
        · exact ⟨by simp, fun _ => .inr (by simp)⟩
        · rintro result rfl
          rw [← hflush hc, codeSpans_delimiter hquote hc, hdrop, List.append_assoc]
          rfl

theorem codeCursor?_eq (text : List Char) : codeCursor? text = some (code text) := by
  rw [codeCursor?, code]
  by_cases hdirective : text.head? = some '#'
  · obtain ⟨cs, rfl⟩ := List.head?_eq_some_iff.mp hdirective
    rw [if_pos hdirective]
    simp [loop?, codeRound]
  · rw [if_neg hdirective]
    obtain ⟨result, hend, rfl⟩ := (advances_codeRound text).loop? ⟨0, [], []⟩
      ⟨by simp, fun h => absurd h hdirective⟩ (Nat.lt_succ_of_le (Nat.sub_le text.length 0))
    exact hend

theorem exists_text_codeHead (c : Char) (cs : List Char) :
    ∃ tail, tail <+: cs ∧ (codeHead c cs).text = c :: tail := by
  unfold codeHead
  dsimp only
  split
  · exact ⟨_, isPrefix_quotedTail c cs, rfl⟩
  split
  · exact ⟨_, List.takeWhile_prefix _, rfl⟩
  · exact ⟨[], List.nil_prefix, rfl⟩

theorem lineText_codeSpans (text : List Char) : Span.lineText (codeSpans text) = text := by
  fun_induction codeSpans text with
  | case1 => rfl
  | case2 c cs ih =>
    obtain ⟨tail, htail, htext⟩ := exists_text_codeHead c cs
    rw [htext, List.length_cons, Nat.add_sub_cancel] at ih
    rw [Span.lineText, List.flatMap_cons, ← Span.lineText, htext, List.length_cons,
      Nat.add_sub_cancel, ih, List.cons_append, List.prefix_iff_eq_append.mp htail]

theorem lineText_code (text : List Char) : Span.lineText (code text) = text := by
  unfold code
  split_ifs
  · exact List.append_nil text
  · exact lineText_codeSpans text

end Code

section Listings

/-- The three spans of a line of a listing, cut by its bytes. -/
def listingCursor? (text : List Char) : Option (List Span) := do
  let node := text.dropWhile Text.isWhiteSpace
  let indent ← cut? text (byteLength text - byteLength node)
  let parts ←
    match find? [':'] node with
    | some n => cut? node n
    | none => some (node, [])
  return [⟨indent.1, .colored Theme.comment⟩, ⟨parts.1, .colored Theme.keyword⟩,
    ⟨parts.2, .colored Theme.plain⟩]

theorem cut?_takeWhile (p : Char → Bool) (cs : List Char) :
    cut? cs (byteLength (cs.takeWhile p)) = some (cs.takeWhile p, cs.dropWhile p) := by
  have hcut := Text.cut?_append (cs.takeWhile p) (cs.dropWhile p)
  rwa [List.takeWhile_append_dropWhile] at hcut

theorem listingCursor?_eq (text : List Char) : listingCursor? text = some (listing text) := by
  have hindent : byteLength text - byteLength (text.dropWhile Text.isWhiteSpace) =
      byteLength (text.takeWhile Text.isWhiteSpace) := by
    have hsize := Text.byteLength_append (text.takeWhile Text.isWhiteSpace)
      (text.dropWhile Text.isWhiteSpace)
    rw [List.takeWhile_append_dropWhile] at hsize
    omega
  rw [listingCursor?, listing]
  simp only [hindent, cut?_takeWhile, Text.find?_singleton, Option.bind_eq_bind, Option.bind_some]
  generalize text.dropWhile Text.isWhiteSpace = node
  by_cases hcolon : ':' ∈ node
  · rw [if_pos hcolon]
    simp only [cut?_takeWhile, Option.bind_some, Option.pure_def]
  · have hall : ∀ c ∈ node, (c != ':') = true := fun c hc =>
      bne_iff_ne.mpr fun h => hcolon (h ▸ hc)
    have hrun : Text.IsRun (· != ':') node [] := ⟨hall, by simp⟩
    have htake := hrun.takeWhile_append
    have hdrop := hrun.dropWhile_append
    rw [List.append_nil] at htake hdrop
    rw [if_neg hcolon, htake, hdrop]
    rfl

theorem lineText_listing (text : List Char) : Span.lineText (listing text) = text := by
  simp [Span.lineText, listing]

end Listings

/-- Colouring a line never changes its text.  The loops that colour it by positions end, never read
or cut beyond its end or within a character, and find the same spans. -/
theorem highlight_lossless (line : List Char) :
    (Span.lineText (script line) = line ∧ scriptCursor? line = some (script line)) ∧
      (Span.lineText (code line) = line ∧ codeCursor? line = some (code line)) ∧
      Span.lineText (listing line) = line ∧ listingCursor? line = some (listing line) :=
  ⟨⟨lineText_script line, scriptCursor?_eq line⟩, ⟨lineText_code line, codeCursor?_eq line⟩,
    lineText_listing line, listingCursor?_eq line⟩

end KanaScript.Inspector.Highlight
