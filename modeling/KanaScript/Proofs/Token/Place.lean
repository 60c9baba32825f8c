import KanaScript.Token.Basic

/-! Places in a text.  The position after a text is counted from the text alone, without going
through it, and tells the beginnings of a text apart; going back over characters of one line undoes
going on, and more lines in front of a text move all of its positions down. -/

namespace KanaScript

namespace Position

/-- The position after `text`: its line counts the line feeds, its column the characters since the
last of them. -/
def after (text : List Char) : Position :=
  ⟨1 + text.count '\n', 1 + (text.reverse.takeWhile (· != '\n')).length⟩

theorem after_concat (text : List Char) (c : Char) : after (text ++ [c]) = (after text).step c := by
  by_cases hc : c = '\n'
  · subst hc
    simp [after, step]
    omega
  · simp [after, step, hc]
    omega

theorem advance_after (text more : List Char) :
    (after text).advance more = after (text ++ more) := by
  induction more generalizing text with
  | nil => simp
  | cons c more ih =>
    show ((after text).step c).advance more = _
    rw [← after_concat, ih, ← List.append_cons]

theorem after_line_le (text : List Char) : (after text).line ≤ text.length + 1 := by
  have h : text.count '\n' ≤ text.length := List.count_le_length
  show 1 + text.count '\n' ≤ text.length + 1
  omega

theorem after_column_le (text : List Char) : (after text).column ≤ text.length + 1 := by
  have h := (List.takeWhile_prefix (· != '\n') (l := text.reverse)).length_le
  rw [List.length_reverse] at h
  show 1 + (text.reverse.takeWhile (· != '\n')).length ≤ text.length + 1
  omega

/-- Within a line only the column moves. -/
theorem advance_of_not_mem {text : List Char} (h : '\n' ∉ text) (position : Position) :
    position.advance text = ⟨position.line, position.column + text.length⟩ := by
  induction text generalizing position with
  | nil => rfl
  | cons c text ih =>
    rw [List.mem_cons, not_or] at h
    have hstep : position.step c = ⟨position.line, position.column + 1⟩ := if_neg (Ne.symm h.1)
    show (position.step c).advance text = _
    rw [ih h.2, hstep, List.length_cons, Nat.add_assoc, Nat.add_comm 1]

/-- Going on leads to another position. -/
theorem eq_nil_of_after_append_eq {text more : List Char} (h : after (text ++ more) = after text) :
    more = [] := by
  have hline : 1 + (text ++ more).count '\n' = 1 + text.count '\n' := congrArg line h
  have hmore : '\n' ∉ more := by
    rw [List.count_append] at hline
    exact List.count_eq_zero.mp (by omega)
  rw [← advance_after, advance_of_not_mem hmore] at h
  have hcolumn : (after text).column + more.length = (after text).column := congrArg column h
  exact List.eq_nil_of_length_eq_zero (by omega)

/-- No two places in a text have the same position. -/
theorem eq_of_after_eq {before text front other : List Char} (hfront : front <+: text)
    (hother : other <+: text) (h : after (before ++ front) = after (before ++ other)) :
    front = other := by
  rcases List.prefix_or_prefix_of_prefix hfront hother with ⟨more, rfl⟩ | ⟨more, rfl⟩
  · rw [← List.append_assoc] at h
    rw [eq_nil_of_after_append_eq h.symm, List.append_nil]
  · rw [← List.append_assoc] at h
    rw [eq_nil_of_after_append_eq h, List.append_nil]

/-- The position `k` lines below. -/
def down (k : Nat) (position : Position) : Position := ⟨position.line + k, position.column⟩

theorem step_down (k : Nat) (position : Position) (c : Char) :
    (down k position).step c = down k (position.step c) := by
  by_cases hc : c = '\n'
  · simp only [step, hc, if_true, down, Nat.add_right_comm]
  · simp only [step, hc, if_false, down]

theorem advance_down (k : Nat) (position : Position) (text : List Char) :
    (down k position).advance text = down k (position.advance text) := by
  induction text generalizing position with
  | nil => rfl
  | cons c text ih =>
    show ((down k position).step c).advance text = _
    rw [step_down, ih]
    rfl

/-- A line feed starts the line below those of the text. -/
theorem after_lineFeed (text : List Char) :
    after (text ++ ['\n']) = down (text.count '\n' + 1) .start := by
  rw [after_concat]
  show (⟨1 + text.count '\n' + 1, 1⟩ : Position) = ⟨1 + (text.count '\n' + 1), 1⟩
  rw [Nat.add_assoc]

end Position

/-- The token with its position changed. -/
def Token.move (f : Position → Position) (token : Token) : Token :=
  { token with position := f token.position }

/-- An offset in a text with the position there. -/
structure Place where
  offset : Nat
  position : Position
deriving DecidableEq

namespace Place

/-- The place of an offset in a text. -/
def ofOffset (text : List Char) (offset : Nat) : Place := ⟨offset, .after (text.take offset)⟩

/-- The place `n` characters back in the line, if the text and the line reach back so far. -/
def back? (place : Place) (n : Nat) : Option Place :=
  if n ≤ place.offset ∧ n < place.position.column then
    some ⟨place.offset - n, ⟨place.position.line, place.position.column - n⟩⟩
  else none

/-- Going back over characters of one line leads to the place before them. -/
theorem back?_ofOffset (before rest : List Char) {extra : List Char} (h : '\n' ∉ extra) :
    (ofOffset (before ++ (extra ++ rest)) (before.length + extra.length)).back? extra.length =
      some (ofOffset (before ++ (extra ++ rest)) before.length) := by
  have htake : (before ++ (extra ++ rest)).take (before.length + extra.length) = before ++ extra := by
    rw [← List.append_assoc, ← List.length_append, List.take_left]
  have hafter : Position.after (before ++ extra) =
      ⟨(Position.after before).line, (Position.after before).column + extra.length⟩ := by
    rw [← Position.advance_after, Position.advance_of_not_mem h]
  have hcolumn : 0 < (Position.after before).column := Nat.lt_add_right _ Nat.one_pos
  rw [ofOffset, ofOffset, htake, List.take_left, hafter, back?, if_pos ⟨by simp, by simpa⟩]
  simp

end Place

end KanaScript
