import KanaScript.Proofs.Text.Run
import KanaScript.Text.Katakana
import KanaScript.Token.Layout

/-! What layout is, whatever the scanner does: white space and comments.  The layout that the
scanner finds at the start of a text is such, no layout starts after it, and it is all there is. -/

namespace KanaScript.Layout

/-- White space and comments in front of `rest`.  A line comment ends before a line feed and a block
comment with the first end mark; only at the end of the text may a comment lack its end. -/
inductive IsLayout (rest : List Char) : List Char → Prop
  | nil : IsLayout rest []
  | blank {c : Char} {cs : List Char} (hc : Text.isBlank c = true) (others : IsLayout rest cs) :
      IsLayout rest (c :: cs)
  | line {body cs : List Char} (hbody : '\n' ∉ body) (others : IsLayout rest ('\n' :: cs)) :
      IsLayout rest ('ゴ' :: 'ゴ' :: (body ++ '\n' :: cs))
  | block {body cs : List Char} (hbody : ¬['ビ', 'ゴ'] <:+: body) (others : IsLayout rest cs) :
      IsLayout rest ('ゴ' :: 'ビ' :: (body ++ 'ビ' :: 'ゴ' :: cs))
  | lastLine {body : List Char} (last : rest = []) (hbody : '\n' ∉ body) :
      IsLayout rest ('ゴ' :: 'ゴ' :: body)
  | lastBlock {body : List Char} (last : rest = []) (hbody : ¬['ビ', 'ゴ'] <:+: body) :
      IsLayout rest ('ゴ' :: 'ビ' :: body)

/-- Layout starts here. -/
inductive Starts : List Char → Prop
  | blank {c : Char} {cs : List Char} (hc : Text.isBlank c = true) : Starts (c :: cs)
  | line {cs : List Char} : Starts ('ゴ' :: 'ゴ' :: cs)
  | block {cs : List Char} : Starts ('ゴ' :: 'ビ' :: cs)

/-- Only the end of the text matters to the layout in front of it. -/
theorem IsLayout.change {rest other gap : List Char} (h : IsLayout rest gap) (hne : rest ≠ []) :
    IsLayout other gap := by
  induction h with
  | nil => exact .nil
  | blank hc _ ih => exact .blank hc ih
  | line hbody _ ih => exact .line hbody ih
  | block hbody _ ih => exact .block hbody ih
  | lastLine last => exact absurd last hne
  | lastBlock last => exact absurd last hne

theorem IsLayout.append {rest gap more : List Char} (h : IsLayout (more ++ rest) gap)
    (hmore : IsLayout rest more) : IsLayout rest (gap ++ more) := by
  induction h with
  | nil => exact hmore
  | blank hc _ ih => exact .blank hc ih
  | line hbody _ ih =>
    rw [List.cons_append, List.cons_append, List.append_assoc]
    exact .line hbody ih
  | block hbody _ ih =>
    rw [List.cons_append, List.cons_append, List.append_assoc]
    exact .block hbody ih
  | lastLine last hbody =>
    obtain ⟨rfl, rfl⟩ := List.append_eq_nil_iff.mp last
    rw [List.append_nil]
    exact .lastLine rfl hbody
  | lastBlock last hbody =>
    obtain ⟨rfl, rfl⟩ := List.append_eq_nil_iff.mp last
    rw [List.append_nil]
    exact .lastBlock rfl hbody

/-- The layout ends in a block comment that lacks its end mark. -/
def EndsOpen (gap : List Char) : Prop :=
  ∃ front body, gap = front ++ 'ゴ' :: 'ビ' :: body ∧ IsLayout ('ゴ' :: 'ビ' :: body) front ∧
    ¬['ビ', 'ゴ'] <:+: body

/-- A line feed completes any layout but an open block comment. -/
theorem IsLayout.append_lineFeed {gap : List Char} (h : IsLayout [] gap) (hopen : ¬EndsOpen gap)
    (rest : List Char) : IsLayout rest (gap ++ ['\n']) := by
  induction h with
  | nil => exact .blank rfl .nil
  | blank hc others ih =>
    refine .blank hc (ih ?_)
    rintro ⟨front, body, rfl, hfront, hbody⟩
    exact hopen ⟨_ :: front, body, rfl, .blank hc hfront, hbody⟩
  | @line body cs hbody others ih =>
    rw [List.cons_append, List.cons_append, List.append_assoc]
    refine .line hbody (ih ?_)
    rintro ⟨front, inner, heq, hfront, hinner⟩
    cases front with
    | nil => cases heq
    | cons c front =>
      obtain ⟨rfl, rfl⟩ := List.cons.inj heq
      exact hopen ⟨'ゴ' :: 'ゴ' :: (body ++ '\n' :: front), inner, by simp, .line hbody hfront,
        hinner⟩
  | @block body cs hbody others ih =>
    rw [List.cons_append, List.cons_append, List.append_assoc]
    refine .block hbody (ih ?_)
    rintro ⟨front, inner, rfl, hfront, hinner⟩
    exact hopen ⟨'ゴ' :: 'ビ' :: (body ++ 'ビ' :: 'ゴ' :: front), inner, by simp, .block hbody hfront,
      hinner⟩
  | lastLine last hbody => exact .line hbody (.blank rfl .nil)
  | lastBlock last hbody => exact absurd ⟨[], _, rfl, .nil, hbody⟩ hopen

theorem not_starts_cons {c : Char} {cs : List Char} (hblank : Text.isBlank c = false)
    (hmark : c ≠ 'ゴ') : ¬Starts (c :: cs) := by
  rintro (hc | _ | _)
  · rw [hblank] at hc
    cases hc
  · exact hmark rfl
  · exact hmark rfl

/-- Where no word goes on, no comment mark is completed. -/
theorem not_starts_append {text rest other : List Char} (hne : text ≠ [])
    (h : ¬Starts (text ++ rest)) (hother : ∀ c ∈ other.head?, Text.continuesWord c = false) :
    ¬Starts (text ++ other) := by
  obtain ⟨c, tail, rfl⟩ := List.exists_cons_of_ne_nil hne
  intro hstarts
  cases tail with
  | nil =>
    change Starts (c :: other) at hstarts
    cases hstarts with
    | blank hc => exact h (.blank hc)
    | line => exact absurd (hother _ rfl) (by decide)
    | block => exact absurd (hother _ rfl) (by decide)
  | cons d tail =>
    change Starts (c :: d :: (tail ++ other)) at hstarts
    cases hstarts with
    | blank hc => exact h (.blank hc)
    | line => exact h .line
    | block => exact h .block

/-- A block comment ends with the first end mark or has none. -/
theorem blockBody_cases (cs : List Char) :
    (∃ body rest, cs = body ++ ['ビ', 'ゴ'] ++ rest ∧ blockBody cs = body ++ ['ビ', 'ゴ'] ∧
      ¬['ビ', 'ゴ'] <:+: body) ∨ blockBody cs = cs ∧ ¬['ビ', 'ゴ'] <:+: cs := by
  fun_induction blockBody cs with
  | case1 rest => exact .inl ⟨[], rest, rfl, rfl, by simp⟩
  | case2 c cs hmark ih =>
    -- an end mark that starts with `c` would go on with a character of `cs`
    have hinfix : ∀ {body rest : List Char}, cs = body ++ rest → ¬['ビ', 'ゴ'] <:+: body →
        ¬['ビ', 'ゴ'] <:+: c :: body := by
      rintro body rest rfl hbody hinfix
      rcases List.infix_cons_iff.mp hinfix with ⟨more, hmore⟩ | hinfix
      · cases hmore
        exact hmark _ rfl rfl
      · exact hbody hinfix
    rcases ih with ⟨body, rest, hcs, hread, hbody⟩ | ⟨hread, hbody⟩
    · refine .inl ⟨c :: body, rest, congrArg (c :: ·) hcs, congrArg (c :: ·) hread, ?_⟩
      exact hinfix (hcs.trans (List.append_assoc _ _ _)) hbody
    · exact .inr ⟨congrArg (c :: ·) hread, hinfix (List.append_nil cs).symm hbody⟩
  | case3 => exact .inr ⟨rfl, by simp⟩

theorem leading_blank {c : Char} (hc : Text.isBlank c = true) (cs : List Char) :
    leading (c :: cs) = c :: leading cs := by
  have hne : c ≠ 'ゴ' := by
    rintro rfl
    exact absurd hc (by decide)
  rw [leading]
  · exact if_pos hc
  · simp [hne]
  · simp [hne]

/-- A text is the layout that leads it and a rest that starts with none. -/
theorem exists_leading (cs : List Char) :
    ∃ rest, cs = leading cs ++ rest ∧ IsLayout rest (leading cs) ∧ ¬Starts rest := by
  fun_induction leading cs with
  | case1 cs ih =>
    obtain ⟨body, after, rfl, hrun⟩ := Text.exists_isRun (· != '\n') cs
    have hbody : '\n' ∉ body := fun h => by simpa using hrun.all _ h
    rw [lineBody, hrun.takeWhile_append, List.drop_left] at ih ⊢
    obtain ⟨rest, hafter, hlayout, hstarts⟩ := ih
    refine ⟨rest, by simpa using hafter, ?_, hstarts⟩
    cases after with
    | nil =>
      obtain rfl : rest = [] := (List.append_eq_nil_iff.mp hafter.symm).2
      rw [leading, List.append_nil]
      exact .lastLine rfl hbody
    | cons c after =>
      -- the line feed is left to the layout after the comment
      obtain rfl : c = '\n' := by simpa using hrun.stop c rfl
      rw [leading_blank (by decide)] at hlayout ⊢
      exact .line hbody hlayout
  | case2 cs ih =>
    obtain ⟨rest, hafter, hlayout, hstarts⟩ := ih
    rcases blockBody_cases cs with ⟨body, after, rfl, hread, hbody⟩ | ⟨hread, hbody⟩
    · rw [hread, List.drop_left] at hafter hlayout ⊢
      refine ⟨rest, by simpa using hafter, ?_, hstarts⟩
      rw [List.append_assoc]
      exact .block hbody hlayout
    · rw [hread, List.drop_length, leading] at hafter ⊢
      obtain rfl : rest = [] := hafter.symm
      rw [List.append_nil]
      exact ⟨[], by simp, .lastBlock rfl hbody, hstarts⟩
  | case3 c cs h₁ h₂ hc ih =>
    obtain ⟨rest, hafter, hlayout, hstarts⟩ := ih
    exact ⟨rest, congrArg (c :: ·) hafter, .blank hc hlayout, hstarts⟩
  | case4 c cs h₁ h₂ hc =>
    refine ⟨c :: cs, rfl, .nil, fun h => ?_⟩
    cases h with
    | blank h => exact hc h
    | line => exact h₁ _ rfl rfl
    | block => exact h₂ _ rfl rfl
  | case5 => exact ⟨[], rfl, .nil, nofun⟩

theorem leading_eq_nil {rest : List Char} (h : ¬Starts rest) : leading rest = [] := by
  fun_cases leading rest with
  | case1 => exact absurd .line h
  | case2 => exact absurd .block h
  | case3 c cs _ _ hc => exact absurd (.blank hc) h
  | case4 => rfl
  | case5 => rfl

theorem lineBody_append {body rest : List Char} (hbody : '\n' ∉ body)
    (hrest : ∀ c ∈ rest.head?, c = '\n') : lineBody (body ++ rest) = body := by
  have hrun : Text.IsRun (· != '\n') body rest :=
    ⟨fun c hc => bne_iff_ne.mpr fun e => hbody (e ▸ hc), fun c hc => by simp [hrest c hc]⟩
  exact hrun.takeWhile_append

/-- A block comment goes on to its first end mark. -/
theorem blockBody_append {body : List Char} (hbody : ¬['ビ', 'ゴ'] <:+: body) (rest : List Char) :
    blockBody (body ++ ['ビ', 'ゴ'] ++ rest) = body ++ ['ビ', 'ゴ'] := by
  induction body with
  | nil => rfl
  | cons c body ih =>
    rw [List.infix_cons_iff, not_or] at hbody
    rw [List.cons_append, List.cons_append, blockBody, ih hbody.2]
    -- an end mark that starts with `c` would lie in the body
    rintro more rfl hmore
    cases body with
    | nil => cases hmore
    | cons d body =>
      obtain ⟨rfl, -⟩ := List.cons.inj hmore
      exact hbody.1 ⟨body, rfl⟩

theorem blockBody_eq_self {body : List Char} (hbody : ¬['ビ', 'ゴ'] <:+: body) :
    blockBody body = body := by
  rcases blockBody_cases body with ⟨inner, rest, rfl, -, -⟩ | ⟨hread, -⟩
  · exact absurd ⟨inner, rest, rfl⟩ hbody
  · exact hread

/-- All of the layout before a text that starts with none is found. -/
theorem leading_append {rest gap : List Char} (h : IsLayout rest gap) (hstarts : ¬Starts rest) :
    leading (gap ++ rest) = gap := by
  induction h with
  | nil => exact leading_eq_nil hstarts
  | blank hc others ih => rw [List.cons_append, leading_blank hc, ih]
  | @line body cs hbody others ih =>
    have hline : lineBody (body ++ ('\n' :: cs ++ rest)) = body :=
      lineBody_append hbody (by simp)
    rw [List.cons_append, List.cons_append, List.append_assoc, leading, hline, List.drop_left, ih]
  | @block body cs hbody others ih =>
    have hmark : body ++ 'ビ' :: 'ゴ' :: cs = body ++ ['ビ', 'ゴ'] ++ cs := by simp
    rw [hmark, List.cons_append, List.cons_append, List.append_assoc (body ++ _), leading,
      blockBody_append hbody, List.drop_left, ih]
  | @lastLine body last hbody =>
    have hline : lineBody body = body := by
      simpa using @lineBody_append body [] hbody (by simp)
    rw [last, List.append_nil, leading, hline, List.drop_length, leading, List.append_nil]
  | @lastBlock body last hbody =>
    rw [last, List.append_nil, leading, blockBody_eq_self hbody, List.drop_length, leading,
      List.append_nil]

end KanaScript.Layout
