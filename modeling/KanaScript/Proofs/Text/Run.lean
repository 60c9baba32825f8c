/-! Runs: the longest stretch of characters of one class that a text starts with. -/

namespace KanaScript.Text

variable {p : Char → Bool} {run rest : List Char}

/-- All characters of `run` are of the class, and `rest` does not go on with one. -/
structure IsRun (p : Char → Bool) (run rest : List Char) : Prop where
  all : ∀ c ∈ run, p c = true
  stop : ∀ c ∈ rest.head?, p c = false

theorem IsRun.takeWhile_append (h : IsRun p run rest) : (run ++ rest).takeWhile p = run := by
  rw [List.takeWhile_append_of_pos h.all]
  cases rest with
  | nil => simp
  | cons c more =>
    have hc : p c = false := h.stop c rfl
    simp [hc]

theorem IsRun.dropWhile_append (h : IsRun p run rest) : (run ++ rest).dropWhile p = rest := by
  have hparts : (run ++ rest).takeWhile p ++ (run ++ rest).dropWhile p = run ++ rest :=
    List.takeWhile_append_dropWhile
  rw [h.takeWhile_append] at hparts
  exact List.append_cancel_left hparts

/-- A text starts with one run of the class only. -/
theorem IsRun.unique {run' rest' : List Char} (h : IsRun p run rest) (h' : IsRun p run' rest')
    (heq : run ++ rest = run' ++ rest') : run = run' ∧ rest = rest' := by
  have hrun : run = run' := by rw [← h.takeWhile_append, heq, h'.takeWhile_append]
  subst hrun
  exact ⟨rfl, List.append_cancel_left heq⟩

/-- A text without `d` is a run in front of `d`. -/
theorem isRun_until {d : Char} (h : d ∉ run) (rest : List Char) :
    IsRun (· != d) run (d :: rest) :=
  ⟨fun c hc => bne_iff_ne.mpr fun e => h (e ▸ hc), by simp⟩

/-- What follows a run may change, as long as it does not go on with the class. -/
theorem IsRun.change {text other : List Char} (h : IsRun p run (text ++ rest))
    (hother : ∀ c ∈ other.head?, p c = false) : IsRun p run (text ++ other) := by
  refine ⟨h.all, ?_⟩
  cases text with
  | nil => exact hother
  | cons c text => exact h.stop

/-- Characters of the class do not reach beyond a place where none follows. -/
theorem isPrefix_append_iff {cs text : List Char} (hcs : ∀ c ∈ cs, p c = true)
    (hrest : ∀ c ∈ rest.head?, p c = false) : cs <+: text ++ rest ↔ cs <+: text := by
  refine ⟨fun h => ?_, fun h => h.trans (List.prefix_append text rest)⟩
  rcases List.prefix_or_prefix_of_prefix h (List.prefix_append text rest) with h | ⟨more, rfl⟩
  · exact h
  · cases more with
    | nil => simp
    | cons c more =>
      obtain ⟨tail, rfl⟩ := (List.prefix_append_right_inj text).mp h
      exact absurd (hcs c (by simp)) (by simp [hrest c rfl])

/-- Every text starts with a run of the class. -/
theorem exists_isRun (p : Char → Bool) (cs : List Char) :
    ∃ run rest, cs = run ++ rest ∧ IsRun p run rest := by
  refine ⟨cs.takeWhile p, cs.dropWhile p, List.takeWhile_append_dropWhile.symm, ?_, fun c hc => ?_⟩
  · exact List.all_eq_true.mp List.all_takeWhile
  · have hstop := List.head?_dropWhile_not p cs
    rwa [hc] at hstop

end KanaScript.Text
