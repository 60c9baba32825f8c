import KanaScript.Proofs.Inspector.Range
import KanaScript.Proofs.Inspector.Rows

/-! How the source pane follows the token in question: the one that a key has selected, or the one
at which reading failed.  The next frame with room for the line of the token and those above it
shows it, whatever smaller frames are drawn before. -/

namespace KanaScript

section Places

variable {before text : List Char} {tokens : List Token}

/-- A token but the last stands at a character that is no white space. -/
theorem Scans.exists_char (h : Scans before text tokens) {t : Token} (ht : t ∈ tokens)
    (hkind : t.kind ≠ .eof) : ∃ front c rest, text = front ++ c :: rest ∧
      t.position = .after (before ++ front) ∧ Text.isBlank c = false := by
  induction h with
  | last hgap =>
    rw [List.eq_of_mem_singleton ht] at hkind
    exact absurd rfl hkind
  | @token before gap rest lexeme tokens hgap hstarts spelled others ih =>
    rcases List.mem_cons.mp ht with rfl | ht
    · obtain ⟨c, cs, hspelling⟩ := List.exists_cons_of_ne_nil spelled.ne_nil
      rw [hspelling] at hstarts ⊢
      exact ⟨gap, c, cs ++ rest, rfl, rfl, Bool.eq_false_iff.mpr fun hc => hstarts (.blank hc)⟩
    · obtain ⟨front, c, rest, rfl, hposition, hc⟩ := ih ht
      refine ⟨gap ++ (lexeme.spelling ++ front), c, rest, by simp, ?_, hc⟩
      rw [hposition, List.append_assoc, List.append_assoc]

theorem ne_lineEnd {c : Char} (h : Text.isBlank c = false) : c ≠ '\n' ∧ c ≠ '\r' := by
  constructor <;> rintro rfl <;> cases h

/-- A token but the last is in the line and the column of its position. -/
theorem exists_line_of_mem_tokenize {source : String} {t : Token} (ht : t ∈ tokenize source)
    (hkind : t.kind ≠ .eof) : ∃ front c rest text, source.toList = front ++ c :: rest ∧
      t.position = .after front ∧
      (Text.lines source.toList)[t.position.line - 1]? = some text ∧
      text[t.position.column - 1]? = some c := by
  obtain ⟨front, c, rest, htext, hposition, hc⟩ := (scans_tokenize source).exists_char ht hkind
  rw [List.nil_append] at hposition
  obtain ⟨line, hline, hcolumn⟩ := Text.exists_line (ne_lineEnd hc).1 (ne_lineEnd hc).2 front rest
  rw [← htext, ← hposition] at hline
  rw [← hposition] at hcolumn
  exact ⟨front, c, rest, line, htext, hposition, hline, hcolumn⟩

end Places

namespace Inspector

namespace Session

section Offsets

variable {line total : Nat}

/-- Above the line of interest are no more lines of context than a frame of four lines shows. -/
theorem inWindow_offsetFor (hline : 0 < line) {visible : Nat} (h : contextLines < visible) :
    InWindow (offsetFor line) visible (line - 1) := by
  unfold contextLines at h
  unfold InWindow offsetFor contextLines
  omega

/-- A frame with less room leaves the offset as it is. -/
theorem clampScroll_offsetFor (hline : line ≤ total) {visible : Nat} (h : visible ≤ contextLines) :
    clampScroll (offsetFor line) total visible = offsetFor line := by
  unfold contextLines at h
  unfold clampScroll offsetFor contextLines
  split <;> omega

end Offsets

/-- The session has just turned to a token: a key has moved the selection, or reading failed. -/
inductive TurnsTo (source : String) : Session → Token → Prop
  | selected {events : List Event} {key : Key} {motion : Motion} {t : Token}
      (hfocus : ((start source).run events).focus = .tokens)
      (hkey : Motion.ofKey? key = some motion)
      (ht : (tokenize source)[(((start source).run events).press key).selected]? = some t) :
      TurnsTo source (((start source).run events).press key) t
  | failed {error : ParseError} (h : parse (tokenize source) = .error error) :
      TurnsTo source (start source) error.token

variable {source : String} {session : Session} {t : Token}

theorem TurnsTo.inRange (h : TurnsTo source session t) : InRange source session := by
  cases h with
  | selected => exact ((inRange_start source).run _).press _
  | failed => exact inRange_start source

theorem TurnsTo.mem_tokenize (h : TurnsTo source session t) : t ∈ tokenize source := by
  cases h with
  | selected hfocus hkey ht => exact List.mem_of_getElem? ht
  | failed h => exact error_mem_tokenize h

theorem press_of_motion {key : Key} {motion : Motion} (h : Motion.ofKey? key = some motion) :
    session.press key = session.move motion := by
  cases key <;> cases h <;> rfl

theorem move_of_tokens (h : session.focus = .tokens) (motion : Motion) :
    session.move motion = session.select motion := by
  rw [move, h]

theorem source_select (session : Session) (motion : Motion) :
    (session.select motion).offsets.source = offsetFor (session.select motion).selectedLine := rfl

/-- The offset of the source is set for the line of the token. -/
theorem TurnsTo.offset_eq (h : TurnsTo source session t) :
    session.offsets.source = offsetFor t.position.line := by
  have htokens := h.inRange.tokens_eq
  cases h with
  | selected hfocus hkey ht =>
    rw [← htokens] at ht
    rw [press_of_motion hkey, move_of_tokens hfocus] at ht ⊢
    rw [source_select, selectedLine, ht]
    rfl
  | failed h => simp only [start, h]

/-- Small frames change no more than the offsets, and that of the source not at all. -/
theorem run_draws {line : Nat} (hline : line ≤ (Text.lines session.source.toList).length)
    (hoffset : session.offsets.source = offsetFor line) {frames : List Frame}
    (small : ∀ frame ∈ frames, frame.source.visible ≤ contextLines) :
    ∃ offsets, session.run (frames.map .draw) = { session with offsets := offsets } ∧
      offsets.source = offsetFor line := by
  induction frames generalizing session with
  | nil => exact ⟨session.offsets, rfl, hoffset⟩
  | cons frame frames ih =>
    obtain ⟨hframe, hothers⟩ := List.forall_mem_cons.mp small
    have hdrawn : (session.drawIn frame).2.offsets.source = offsetFor line := by
      show clampScroll session.offsets.source _ _ = _
      rw [hoffset, clampScroll_offsetFor hline hframe]
    obtain ⟨offsets, hrun, hsource⟩ := @ih (session.drawIn frame).2 hline hdrawn hothers
    exact ⟨offsets, hrun, hsource⟩

/-- What stands on the left of a row starts it. -/
theorem getElem?_beside {left : List Row} {i : Nat} {row : Row} (h : left[i]? = some row)
    (right : List Row) : ∃ rest, (beside left right)[i]? = some (row ++ rest) := by
  fun_induction beside left right generalizing i with
  | case1 right => cases h
  | case2 left => exact ⟨[], by rw [h, List.append_nil]⟩
  | case3 first left other right ih =>
    cases i with
    | zero =>
      cases h
      exact ⟨other, rfl⟩
    | succ i => exact ih h

/-- On the left of the upper rows stands the source pane. -/
theorem exists_getElem?_drawIn {frame : Frame} {i : Nat} {row : Row}
    (h : (Pane.source frame.source session.source session.selectedLine session.errorLine?
      (session.focus == .source) session.offsets.source).rows[i]? = some row) :
    ∃ rest, (session.drawIn frame).1[i]? = some (row ++ rest) := by
  obtain ⟨rest, hrow⟩ := getElem?_beside h (Pane.output frame.output
    (session.output.mapError ParseError.message) (session.focus == .output)
    session.offsets.output).rows
  obtain ⟨hlt, -⟩ := List.getElem?_eq_some_iff.mp hrow
  have hrows : (session.drawIn frame).1 = beside _ _ ++ (beside _ _ ++ [_].take _) :=
    List.append_assoc _ _ _
  exact ⟨rest, by rw [hrows, List.getElem?_append_left hlt, hrow]⟩

/-- A line of the source in the window is in the row that the offset leaves it. -/
theorem exists_row_drawIn {frame : Frame} {line : Nat} {text : List Char} (hpos : 0 < line)
    (htext : (Text.lines session.source.toList)[line - 1]? = some text)
    (hwindow : InWindow (session.drawIn frame).2.offsets.source (frame.source.height - 2)
      (line - 1)) :
    ∃ row, (session.drawIn frame).1[line - (session.drawIn frame).2.offsets.source]? = some row ∧
      ShowsLine (frame.source.width - 2) line text row := by
  obtain ⟨hfirst, hlast⟩ := hwindow
  obtain ⟨i, hi⟩ := Nat.exists_eq_add_of_le hfirst
  obtain rfl : line = (session.drawIn frame).2.offsets.source + i + 1 := by omega
  rw [show (session.drawIn frame).2.offsets.source + i + 1 -
    (session.drawIn frame).2.offsets.source = i + 1 by omega]
  rw [hi] at htext hlast
  obtain ⟨row, hrow, hshows⟩ := Pane.exists_row_source (by omega) htext
  obtain ⟨rest, hdrawn⟩ := exists_getElem?_drawIn hrow
  exact ⟨row ++ rest, hdrawn, hshows.append rest⟩

/-- The next frame with room for four lines of the source shows the line of the token that the
session has turned to, unless it is the end token; the frames drawn before have less room.  Line
and column of the token are those of its first character in the lines that the pane shows, and the
row has the number and the characters of the line. -/
theorem drawIn_shows_line (h : TurnsTo source session t) (hkind : t.kind ≠ .eof)
    {frames : List Frame} (small : ∀ frame ∈ frames, frame.source.height - 2 < 4) {frame : Frame}
    (tall : 4 ≤ frame.source.height - 2) :
    let drawn := (session.run (frames.map .draw)).drawIn frame
    let line := t.position.line
    InWindow drawn.2.offsets.source (frame.source.height - 2) (line - 1) ∧
    ∃ front c rest text row, source.toList = front ++ c :: rest ∧ t.position = .after front ∧
      (Text.lines source.toList)[line - 1]? = some text ∧
      text[t.position.column - 1]? = some c ∧
      drawn.1[line - drawn.2.offsets.source]? = some row ∧
      ShowsLine (frame.source.width - 2) line text row := by
  obtain ⟨front, c, rest, text, hchar, hposition, htext, hcolumn⟩ :=
    exists_line_of_mem_tokenize h.mem_tokenize hkind
  obtain rfl := h.inRange.source_eq
  obtain ⟨hlt, -⟩ := List.getElem?_eq_some_iff.mp htext
  have hpos : 0 < t.position.line := by
    rw [hposition]
    exact Nat.add_pos_left Nat.one_pos _
  have hframes : ∀ frame ∈ frames, frame.source.visible ≤ contextLines := by
    intro frame hframe
    have hsmall := small frame hframe
    rw [Area.visible, contextLines]
    omega
  obtain ⟨offsets, hrun, hoffset⟩ := run_draws (by omega) h.offset_eq hframes
  rw [hrun]
  have hwindow : InWindow
      (drawIn { session with offsets := offsets } frame).2.offsets.source
      (frame.source.height - 2) (t.position.line - 1) := by
    have hvisible : frame.source.visible = frame.source.height - 2 := Nat.max_eq_left (by omega)
    rw [← hvisible] at tall ⊢
    have hclamped := (inWindow_offsetFor hpos tall).clampScroll hlt
    rwa [← hoffset] at hclamped
  obtain ⟨row, hrow, hshows⟩ := @exists_row_drawIn { session with offsets := offsets } frame _ text
    hpos htext hwindow
  exact ⟨hwindow, front, c, rest, text, row, hchar, hposition, htext, hcolumn, hrow, hshows⟩

/-- The second name is selected, a frame with room for two lines is drawn, and the next one shows
the sixth line. -/
theorem drawIn_shows_line_sixth :
    let session := ((start "ガ\r\n\n\n\n\nダ").run [.key (.tab false)]).press .down
    let drawn := (session.run [.draw (.ofScreen ⟨40, 8⟩)]).drawIn (.ofScreen ⟨40, 11⟩)
    InWindow drawn.2.offsets.source 4 5 ∧
    ∃ row, drawn.1[6 - drawn.2.offsets.source]? = some row ∧ ShowsLine 18 6 ['ダ'] row := by
  have htokens : tokenize "ガ\r\n\n\n\n\nダ" = [⟨.identifier, .text "ガ", ⟨1, 1⟩⟩,
      ⟨.identifier, .text "ダ", ⟨6, 1⟩⟩, ⟨.eof, .none, ⟨6, 2⟩⟩] := by decide +kernel
  have hparse : parse (tokenize "ガ\r\n\n\n\n\nダ") =
      .ok [.statement (.expression (.name "ガ" ⟨1, 1⟩) ⟨1, 1⟩),
        .statement (.expression (.name "ダ" ⟨6, 1⟩) ⟨6, 1⟩)] := by
    rw [htokens]
    cbv
  have hfocus : ((start "ガ\r\n\n\n\n\nダ").run [.key (.tab false)]).focus = .tokens := by
    simp only [start, hparse]
    rfl
  have hselected : ((start "ガ\r\n\n\n\n\nダ").run [.key (.tab false)]).selected = 0 := by
    simp only [start, hparse]
    rfl
  have ht : (tokenize "ガ\r\n\n\n\n\nダ")[(((start "ガ\r\n\n\n\n\nダ").run
      [.key (.tab false)]).press .down).selected]? = some ⟨.identifier, .text "ダ", ⟨6, 1⟩⟩ := by
    rw [press_of_motion rfl, move_of_tokens hfocus, select, hselected,
      ((inRange_start _).run _).tokens_eq, htokens]
    rfl
  obtain ⟨hwindow, front, c, rest, text, row, -, -, htext, -, hrow, hshows⟩ :=
    @drawIn_shows_line _ _ _ (.selected hfocus rfl ht) (by decide) [.ofScreen ⟨40, 8⟩]
      (List.forall_mem_singleton.mpr (by decide)) (.ofScreen ⟨40, 11⟩) (by decide)
  obtain rfl : ['ダ'] = text := Option.some.inj (htext ▸ by decide +kernel)
  exact ⟨hwindow, row, hrow, hshows⟩

end Session

end Inspector

end KanaScript
