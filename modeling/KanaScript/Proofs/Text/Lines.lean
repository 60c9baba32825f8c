import KanaScript.Proofs.Token.Place
import KanaScript.Text.Lines
import Mathlib.Data.List.TakeWhile

/-! Where the characters of a text stand in its lines.  Lines written with a line feed after each
are read back, and the character at a position is found in the line and the column of that
position. -/

namespace KanaScript.Text

/-- The text has no line end in it. -/
def IsLine (cs : List Char) : Prop := '\n' ∉ cs ∧ '\r' ∉ cs

instance (cs : List Char) : Decidable (IsLine cs) :=
  inferInstanceAs (Decidable ('\n' ∉ cs ∧ '\r' ∉ cs))

@[simp]
theorem isLine_nil : IsLine [] := ⟨nofun, nofun⟩

@[simp]
theorem isLine_append {a b : List Char} : IsLine (a ++ b) ↔ IsLine a ∧ IsLine b := by
  simp only [IsLine, List.mem_append, not_or]
  exact and_and_and_comm

@[simp]
theorem isLine_cons {c : Char} {cs : List Char} :
    IsLine (c :: cs) ↔ (c ≠ '\n' ∧ c ≠ '\r') ∧ IsLine cs := by
  simp only [IsLine, List.mem_cons, not_or, ne_comm]
  exact and_and_and_comm

theorem dropReturn_of_not_mem {cs : List Char} (h : '\r' ∉ cs) : dropReturn cs = cs := by
  unfold dropReturn
  split
  · exact absurd List.mem_cons_self h
  · rfl

theorem linesAfter_cons {c : Char} (hc : c ≠ '\n') (before cs : List Char) :
    linesAfter before (c :: cs) = linesAfter (c :: before) cs := by
  rw [linesAfter]
  exact hc

/-- The characters before a line feed belong to one line. -/
theorem linesAfter_append {line : List Char} (h : '\n' ∉ line) (before rest : List Char) :
    linesAfter before (line ++ rest) = linesAfter (line.reverse ++ before) rest := by
  induction line generalizing before with
  | nil => rfl
  | cons c line ih =>
    rw [List.mem_cons, not_or] at h
    rw [List.cons_append, linesAfter_cons (Ne.symm h.1), ih h.2, List.reverse_cons,
      List.append_assoc]
    rfl

/-- Lines with a line feed after each are the lines of the text that they form. -/
theorem lines_flatMap {ls : List (List Char)} (h : ∀ line ∈ ls, IsLine line) :
    lines (ls.flatMap (· ++ ['\n'])) = ls := by
  induction ls with
  | nil => rfl
  | cons line ls ih =>
    obtain ⟨⟨hfeed, hreturn⟩, hothers⟩ := List.forall_mem_cons.mp h
    have hkept : dropReturn line.reverse = line.reverse :=
      dropReturn_of_not_mem (by simpa using hreturn)
    rw [List.flatMap_cons, List.append_assoc, lines, linesAfter_append hfeed, List.append_nil,
      List.singleton_append, linesAfter, hkept, List.reverse_reverse]
    exact congrArg (line :: ·) (ih hothers)

/-- The same for the lines of some items, written one below the other. -/
theorem lines_join {α : Type} {f : α → String} {xs : List α} (h : ∀ x ∈ xs, IsLine (f x).toList) :
    lines (String.join (xs.map fun x => f x ++ "\n")).toList = xs.map fun x => (f x).toList := by
  have htext : (String.join (xs.map fun x => f x ++ "\n")).toList =
      (xs.map fun x => (f x).toList).flatMap (· ++ ['\n']) := by
    rw [String.toList_join, List.flatMap_map, List.flatMap_map]
    simp only [String.toList_append]
    rfl
  rw [htext, lines_flatMap]
  intro line hline
  obtain ⟨x, hx, rfl⟩ := List.mem_map.mp hline
  exact h x hx

section Places

variable {c : Char}

/-- The end of a line leaves what the line has up to `c`, which is no carriage return. -/
theorem exists_dropReturn (hc : c ≠ '\r') (extra before : List Char) :
    ∃ kept, dropReturn (extra ++ c :: before) = kept ++ c :: before := by
  cases extra with
  | nil =>
    refine ⟨[], ?_⟩
    rw [List.nil_append, dropReturn]
    exact fun _ e => hc (List.cons.inj e).1
  | cons d extra =>
    by_cases hd : d = '\r'
    · exact ⟨extra, by rw [hd]; rfl⟩
    · refine ⟨d :: extra, ?_⟩
      rw [List.cons_append, dropReturn]
      exact fun _ e => hd (List.cons.inj e).1

theorem exists_linesAfter (hc : c ≠ '\r') (extra before rest : List Char) :
    ∃ kept others, linesAfter (extra ++ c :: before) rest =
      (before.reverse ++ c :: kept) :: others := by
  induction rest generalizing extra with
  | nil => exact ⟨extra.reverse, [], by simp [linesAfter]⟩
  | cons d rest ih =>
    by_cases hd : d = '\n'
    · obtain ⟨kept, hkept⟩ := exists_dropReturn hc extra before
      exact ⟨kept.reverse, linesAfter [] rest, by rw [hd, linesAfter, hkept]; simp⟩
    · obtain ⟨kept, others, h⟩ := ih (d :: extra)
      exact ⟨kept, others, by rw [linesAfter_cons hd]; exact h⟩

theorem takeWhile_append_lineFeed (cs before : List Char) :
    (cs ++ '\n' :: before).takeWhile (· != '\n') = cs.takeWhile (· != '\n') := by
  induction cs with
  | nil => rfl
  | cons d cs ih => rw [List.cons_append, List.takeWhile_cons, List.takeWhile_cons, ih]

/-- A character after `front` is in the line that the line feeds of `front` count, behind the
characters since the last of them. -/
theorem exists_getElem?_linesAfter (hfeed : c ≠ '\n') (hreturn : c ≠ '\r')
    (front rest : List Char) : ∀ {before : List Char}, '\n' ∉ before → ∃ found,
      (linesAfter before (front ++ c :: rest))[front.count '\n']? = some found ∧
      found[((front.reverse ++ before).takeWhile (· != '\n')).length]? = some c := by
  induction front with
  | nil =>
    intro before hbefore
    obtain ⟨kept, others, h⟩ := exists_linesAfter hreturn [] before rest
    have htake : before.takeWhile (· != '\n') = before := List.takeWhile_eq_self_iff.mpr
      fun d hd => bne_iff_ne.mpr (ne_of_mem_of_not_mem hd hbefore)
    refine ⟨before.reverse ++ c :: kept, ?_, ?_⟩
    · exact congrArg (·[0]?) ((linesAfter_cons hfeed before rest).trans h)
    · rw [List.reverse_nil, List.nil_append, htake, ← List.length_reverse,
        List.getElem?_append_right (Nat.le_refl _), Nat.sub_self, List.getElem?_cons_zero]
  | cons d front ih =>
    intro before hbefore
    by_cases hd : d = '\n'
    · subst hd
      obtain ⟨line, hline, hcolumn⟩ := @ih [] nofun
      refine ⟨line, ?_, ?_⟩
      · rw [List.cons_append, linesAfter, List.count_cons_self, List.getElem?_cons_succ, hline]
      · rw [List.append_nil] at hcolumn
        rwa [List.reverse_cons, List.append_assoc, List.singleton_append, takeWhile_append_lineFeed]
    · obtain ⟨line, hline, hcolumn⟩ := @ih (d :: before) (by simp [hbefore, Ne.symm hd])
      refine ⟨line, ?_, ?_⟩
      · rw [List.cons_append, linesAfter_cons hd, List.count_cons_of_ne hd, hline]
      · rwa [List.reverse_cons, List.append_assoc, List.singleton_append]

/-- The character at a position is in the line and the column of that position. -/
theorem exists_line (hfeed : c ≠ '\n') (hreturn : c ≠ '\r') (front rest : List Char) : ∃ found,
    (lines (front ++ c :: rest))[(Position.after front).line - 1]? = some found ∧
      found[(Position.after front).column - 1]? = some c := by
  obtain ⟨line, hline, hcolumn⟩ := @exists_getElem?_linesAfter c hfeed hreturn front rest [] nofun
  rw [List.append_nil] at hcolumn
  refine ⟨line, ?_, ?_⟩
  · rw [Position.after, Nat.add_sub_cancel_left]
    exact hline
  · rw [Position.after, Nat.add_sub_cancel_left]
    exact hcolumn

end Places

end KanaScript.Text
