import KanaScript.Proofs.Token.Layout
import KanaScript.Proofs.Token.Place
import KanaScript.Proofs.Token.Spelling
import Mathlib.Algebra.Group.Nat.Defs

/-! Where the tokens of a text stand in it.  Nothing of the text is lost: what is between the tokens
is layout, each token is spelled by its own characters, and its position counts the lines and the
columns before them. -/

namespace KanaScript

open Layout (IsLayout Starts)

section Scan

/-- The tokens of `rest`, a text that stands after `before`: layout and a lexeme for each token, and
layout before the end token. -/
inductive Scans : (before rest : List Char) → List Token → Prop
  | last {before gap : List Char} (hgap : IsLayout [] gap) :
      Scans before gap [⟨.eof, .none, .after (before ++ gap)⟩]
  | token {before gap rest : List Char} {lexeme : Lexeme} {tokens : List Token}
      (hgap : IsLayout (lexeme.spelling ++ rest) gap) (hstarts : ¬Starts (lexeme.spelling ++ rest))
      (spelled : lexeme.Spelled rest)
      (others : Scans (before ++ gap ++ lexeme.spelling) rest tokens) :
      Scans before (gap ++ (lexeme.spelling ++ rest))
        (⟨lexeme.kind, lexeme.payload, .after (before ++ gap)⟩ :: tokens)

/-- Layout is cut off in front of what follows it. -/
theorem pieces_append {gap rest : List Char} (hgap : IsLayout rest gap) (hstarts : ¬Starts rest) :
    pieces (gap ++ rest) = piecesAfter gap rest := by
  rw [pieces, Layout.leading_append hgap hstarts, List.drop_left]

/-- A lexeme is cut off where it is spelled, and what follows is cut by itself. -/
theorem piecesAfter_of_spelled {lexeme : Lexeme} {rest : List Char} (h : lexeme.Spelled rest)
    (gap : List Char) : piecesAfter gap (lexeme.spelling ++ rest) =
      (⟨gap, lexeme⟩ :: (pieces rest).1, (pieces rest).2) := by
  obtain ⟨c, tail, hspelling⟩ := List.exists_cons_of_ne_nil h.ne_nil
  have hfirst : Lexeme.first c (tail ++ rest) = lexeme :=
    h.eq_first (by rw [hspelling, List.cons_append])
  rw [hspelling, List.cons_append, piecesAfter, hfirst, hspelling]
  simp [pieces]

/-- After layout and a lexeme the scanner goes on with the rest. -/
theorem Scanner.run_of_pieces {cs gap rest : List Char} {lexeme : Lexeme}
    (h : pieces cs = (⟨gap, lexeme⟩ :: (pieces rest).1, (pieces rest).2)) (position : Position) :
    (Scanner.run ⟨cs, position⟩).1 = ⟨lexeme.kind, lexeme.payload, position.advance gap⟩ ::
      (Scanner.run ⟨rest, (position.advance gap).advance lexeme.spelling⟩).1 := by
  unfold run
  rw [h]
  rfl

/-- What the scanner makes of `cs` after `before`, by the length of what is left to it. -/
theorem scans_run (k : Nat) : ∀ {before cs : List Char}, cs.length = k →
    Scans before cs (Scanner.run ⟨cs, .after before⟩).1 := by
  induction k using Nat.strongRecOn with
  | _ k ih =>
    intro before cs hk
    obtain ⟨rest, hcs, hgap, hstarts⟩ := Layout.exists_leading cs
    generalize Layout.leading cs = gap at hcs hgap
    subst hcs
    have hpieces := pieces_append hgap hstarts
    cases rest with
    | nil =>
      rw [List.append_nil] at hpieces ⊢
      unfold Scanner.run
      rw [hpieces, piecesAfter]
      show Scans before gap [⟨.eof, .none, (Position.after before).advance gap⟩]
      rw [Position.advance_after]
      exact .last hgap
    | cons c cs =>
      obtain ⟨rest, hrest, spelled⟩ := Lexeme.spelled_first c cs
      have hpos := List.length_pos_iff.mpr spelled.ne_nil
      have hless : rest.length < k := by
        rw [hrest, List.length_append, List.length_append] at hk
        omega
      rw [hrest] at hgap hstarts hpieces ⊢
      rw [piecesAfter_of_spelled spelled] at hpieces
      rw [Scanner.run_of_pieces hpieces, Position.advance_after, Position.advance_after]
      exact .token hgap hstarts spelled (ih _ hless rfl)

theorem scans_tokenize (source : String) : Scans [] source.toList (tokenize source) :=
  scans_run _ rfl

/-- A text has no other tokens than those that the scanner finds. -/
theorem Scans.run_eq {before rest : List Char} {tokens : List Token}
    (h : Scans before rest tokens) : (Scanner.run ⟨rest, .after before⟩).1 = tokens := by
  induction h with
  | @last before gap hgap =>
    have hpieces := pieces_append hgap nofun
    rw [List.append_nil] at hpieces
    unfold Scanner.run
    rw [hpieces, piecesAfter, ← Position.advance_after]
    rfl
  | token hgap hstarts spelled others ih =>
    have hpieces := (pieces_append hgap hstarts).trans (piecesAfter_of_spelled spelled _)
    rw [Scanner.run_of_pieces hpieces, Position.advance_after, Position.advance_after, ih]

theorem tokenize_of_scans {text : List Char} {tokens : List Token} (h : Scans [] text tokens) :
    tokenize (String.ofList text) = tokens := by
  rw [tokenize, Scanner.ofSource, String.toList_ofList]
  exact h.run_eq

/-- A lexeme within one line, with nothing else around it, is one token. -/
theorem tokenize_spelling {kind : TokenKind} {payload : Payload} {spelling : List Char}
    (spelled : Lexeme.Spelled [] ⟨kind, payload, spelling⟩) (hstarts : ¬Starts spelling)
    (hline : '\n' ∉ spelling) : tokenize (String.ofList spelling) =
      [⟨kind, payload, ⟨1, 1⟩⟩, ⟨.eof, .none, ⟨1, 1 + spelling.length⟩⟩] := by
  have hlast : Position.after spelling = ⟨1, 1 + spelling.length⟩ :=
    (Position.advance_after [] spelling).symm.trans (Position.advance_of_not_mem hline _)
  have hscans := @Scans.token [] [] [] _ _ .nil (by simpa using hstarts) spelled (.last .nil)
  simp only [List.append_nil, List.nil_append] at hscans
  rw [tokenize_of_scans hscans, hlast]
  rfl

end Scan

section Offsets

/-- A token stands in the text from `start` to `stop`. -/
structure Token.Stands (text : List Char) (token : Token) (start stop : Nat) : Prop where
  start_lt_stop : start < stop
  stop_le : stop ≤ text.length
  notLayout : ¬Starts (text.drop start)
  spelled : Lexeme.Spelled (text.drop stop)
    ⟨token.kind, token.payload, text.extract start stop⟩
  position : token.position = .after (text.take start)

/-- The tokens but the last stand in the text, token `i` from `start i` to `edge (i + 1)`, with
layout from `edge i` to `start i`.  The last one is the end token. -/
structure Cut (text : List Char) (tokens : List Token) (n : Nat) (start edge : Nat → Nat) :
    Prop where
  count : tokens.length = n + 1
  gap : ∀ i ≤ n, edge i ≤ start i ∧ IsLayout (text.drop (start i)) (text.extract (edge i) (start i))
  stands : ∀ i < n, ∃ token, tokens[i]? = some token ∧ token.kind ≠ .eof ∧
    token.Stands text (start i) (edge (i + 1))
  last : start n = text.length ∧ tokens[n]? = some ⟨.eof, .none, .after text⟩

/-- The offsets `offset i` with `first` in front of them. -/
def prepend (first : Nat) (offset : Nat → Nat) : Nat → Nat
  | 0 => first
  | i + 1 => offset i

theorem Cut.cons {text : List Char} {token : Token} {tokens : List Token} {n gap first : Nat}
    {start edge : Nat → Nat} (h : Cut text tokens n start edge) (hle : gap ≤ first)
    (hgap : IsLayout (text.drop first) (text.extract gap first)) (hkind : token.kind ≠ .eof)
    (hstands : token.Stands text first (edge 0)) :
    Cut text (token :: tokens) (n + 1) (prepend first start) (prepend gap edge) where
  count := by rw [List.length_cons, h.count]
  gap i hi := by
    cases i with
    | zero => exact ⟨hle, hgap⟩
    | succ i => exact h.gap i (Nat.le_of_succ_le_succ hi)
  stands i hi := by
    cases i with
    | zero => exact ⟨token, rfl, hkind, hstands⟩
    | succ i => exact h.stands i (Nat.lt_of_succ_lt_succ hi)
  last := h.last

theorem extract_append (before middle after : List Char) :
    (before ++ middle ++ after).extract before.length (before ++ middle).length = middle := by
  simp

theorem exists_cut {before rest : List Char} {tokens : List Token} (h : Scans before rest tokens) :
    ∃ n start edge, edge 0 = before.length ∧ Cut (before ++ rest) tokens n start edge := by
  induction h with
  | @last before gap hgap =>
    refine ⟨0, fun _ => (before ++ gap).length, fun _ => before.length, rfl,
      rfl, ?_, nofun, rfl, rfl⟩
    intro i _
    refine ⟨by simp, ?_⟩
    have hextract := extract_append before gap []
    rw [List.append_nil] at hextract
    rwa [hextract, List.drop_length]
  | @token before gap rest lexeme tokens hgap hstarts spelled others ih =>
    obtain ⟨n, start, edge, hedge, cut⟩ := ih
    generalize hlexeme : lexeme.spelling = spelling at *
    have hne : spelling.length ≠ 0 := by
      rw [← hlexeme]
      exact fun h => spelled.ne_nil (List.eq_nil_of_length_eq_zero h)
    have htext : before ++ (gap ++ (spelling ++ rest)) = before ++ gap ++ (spelling ++ rest) :=
      (List.append_assoc before gap _).symm
    have htext' : before ++ gap ++ (spelling ++ rest) = before ++ gap ++ spelling ++ rest :=
      (List.append_assoc (before ++ gap) spelling rest).symm
    refine ⟨n + 1, prepend (before ++ gap).length start, prepend before.length edge, rfl, ?_⟩
    rw [htext]
    rw [← htext'] at cut
    refine cut.cons (by simp) ?_ spelled.kind_ne_eof ⟨?_, ?_, ?_, ?_, ?_⟩
    · rwa [extract_append, List.drop_left]
    · simp only [hedge, List.length_append]
      omega
    · rw [hedge, htext']
      exact (List.prefix_append _ rest).length_le
    · rwa [List.drop_left]
    · rw [hedge, htext', List.drop_left, extract_append, ← hlexeme]
      exact spelled
    · rw [List.take_left]

theorem extract_append_drop (text : List Char) {start stop : Nat} (h : start ≤ stop) :
    text.extract start stop ++ text.drop stop = text.drop start := by
  calc text.extract start stop ++ text.drop stop
    _ = (text.drop start).take (stop - start) ++ (text.drop start).drop (stop - start) := by
      rw [List.extract_eq_take_drop, List.drop_drop, Nat.add_sub_cancel' h]
    _ = text.drop start := List.take_append_drop _ _

/-- The token that stands where a bracket word is found is that word. -/
theorem Token.Stands.stop_eq {text more : List Char} {token : Token} {start stop : Nat}
    {bracket : Vocabulary.Bracket} (h : token.Stands text start stop)
    (hdrop : text.drop start = bracket.word ++ more)
    (hfound : Vocabulary.bracket? (bracket.word ++ more) = some bracket) :
    stop = start + bracket.word.length := by
  have hle := Nat.le_of_lt h.start_lt_stop
  have hlexeme := h.spelled.unique (.bracket hfound) ((extract_append_drop text hle).trans hdrop)
  have hlength : (text.extract start stop).length = bracket.word.length :=
    congrArg (fun lexeme => lexeme.spelling.length) hlexeme
  have hstop := h.stop_le
  rw [List.extract_eq_take_drop, List.length_take, List.length_drop] at hlength
  omega

/-- Going back from the end of the katakana run at `start` over what the run has after a bracket
word leads to the place at `stop`. -/
def Rewinds (text : List Char) (start stop : Nat) : Prop :=
  let run := (text.drop start).takeWhile Text.continuesWord
  ∀ bracket ∈ Vocabulary.bracket? run, bracket.word.length ≤ run.length ∧
    (Place.ofOffset text (start + run.length)).back? (run.length - bracket.word.length) =
      some (Place.ofOffset text stop)

theorem Token.Stands.rewinds {text : List Char} {token : Token} {start stop : Nat}
    (h : token.Stands text start stop) : Rewinds text start stop := by
  intro bracket hbracket
  obtain ⟨run, rest, hdrop, hrun⟩ := Text.exists_isRun Text.continuesWord (text.drop start)
  rw [hdrop, hrun.takeWhile_append] at hbracket ⊢
  obtain ⟨extra, rfl⟩ := (Vocabulary.of_bracket?_eq_some hbracket).2
  rw [List.append_assoc] at hdrop
  have hfound : Vocabulary.bracket? (bracket.word ++ (extra ++ rest)) = some bracket := by
    rw [← List.append_assoc, Vocabulary.bracket?_append hrun.stop, hbracket]
  have hstop := h.stop_eq hdrop hfound
  -- no word goes beyond its line, so that the column is all there is to undo
  have hline : '\n' ∉ extra := fun hmem => by
    have hword := hrun.all '\n' (List.mem_append_right _ hmem)
    exact absurd hword (by decide)
  have htext : text.take start ++ bracket.word ++ (extra ++ rest) = text := by
    rw [List.append_assoc, ← hdrop, List.take_append_drop]
  have hbefore : (text.take start ++ bracket.word).length = stop := by
    have hle := h.stop_le
    rw [List.length_append, List.length_take]
    omega
  have hback := Place.back?_ofOffset (text.take start ++ bracket.word) rest hline
  rw [htext, hbefore] at hback
  rw [List.length_append, Nat.add_sub_cancel_left, ← Nat.add_assoc, ← hstop]
  exact ⟨Nat.le_add_right _ _, hback⟩

end Offsets

/-- Each token is spelled by characters of its own, with nothing but layout between them, and stands
at the line and the column of the first one. -/
theorem tokenize_cut (source : String) (short : source.toList.length < 2 ^ 32 - 1) :
    ∃ n start edge, edge 0 = 0 ∧ Cut source.toList (tokenize source) n start edge ∧
      (∀ i < n, Rewinds source.toList (start i) (edge (i + 1))) ∧
      ∀ k, (Position.after (source.toList.take k)).line < 2 ^ 32 ∧
        (Position.after (source.toList.take k)).column < 2 ^ 32 := by
  obtain ⟨n, start, edge, hedge, cut⟩ := exists_cut (scans_tokenize source)
  refine ⟨n, start, edge, hedge, cut, fun i hi => ?_, fun k => ?_⟩
  · obtain ⟨token, -, -, hstands⟩ := cut.stands i hi
    exact hstands.rewinds
  · have hlength : (source.toList.take k).length ≤ source.toList.length := List.length_take_le' k _
    have hline := Position.after_line_le (source.toList.take k)
    have hcolumn := Position.after_column_le (source.toList.take k)
    omega

/-- The bracket word ends inside the run of katakana, and the keyword starts where it ends. -/
theorem tokenize_cut_glued :
    ∃ n start edge, edge 0 = 0 ∧ Cut "ザジレジョヂザギゲギグウ".toList [⟨.openParen, .text "(", ⟨1, 1⟩⟩,
      ⟨.typeKeyword, .text "int", ⟨1, 9⟩⟩, ⟨.eof, .none, ⟨1, 13⟩⟩] n start edge ∧
      ∀ i < n, Rewinds "ザジレジョヂザギゲギグウ".toList (start i) (edge (i + 1)) := by
  have tokens : tokenize "ザジレジョヂザギゲギグウ" = [⟨.openParen, .text "(", ⟨1, 1⟩⟩,
      ⟨.typeKeyword, .text "int", ⟨1, 9⟩⟩, ⟨.eof, .none, ⟨1, 13⟩⟩] := by decide +kernel
  obtain ⟨n, start, edge, hedge, cut, rewinds, -⟩ :=
    tokenize_cut "ザジレジョヂザギゲギグウ" (by decide)
  exact ⟨n, start, edge, hedge, tokens ▸ cut, rewinds⟩

end KanaScript
