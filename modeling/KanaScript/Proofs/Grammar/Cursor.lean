import KanaScript.Proofs.Grammar.Failure
import KanaScript.Proofs.Grammar.RoutineAction
import Mathlib.Data.Nat.Init
import Mathlib.Logic.Relation

/-! Runs of code over a list of tokens with a cursor.  Each step moves the cursor by one place at
most, never back and never past the first end token. -/

namespace KanaScript.Grammar

/-- Tokens with one among them that ends them. -/
structure Tape where
  tokens : List Token
  ended : ∃ t ∈ tokens, t.kind = .eof

namespace Tape

variable (tape : Tape) {k : Nat}

/-- The place of the first end token. -/
def last : Nat := tape.tokens.findIdx fun t => t.kind == .eof

theorem last_lt_length : tape.last < tape.tokens.length :=
  List.findIdx_lt_length_of_exists (by simpa using tape.ended)

def ending : Ending where
  last := tape.tokens.get ⟨tape.last, tape.last_lt_length⟩
  kind_last := beq_iff_eq.mp (List.findIdx_getElem (w := tape.last_lt_length))
  behind := tape.tokens[tape.last + 1]?

/-- The tokens from a place up to the first end token. -/
def pending (k : Nat) : List Token := (tape.tokens.drop k).takeWhile isInner

theorem getElem?_last : tape.tokens[tape.last]? = some tape.ending.last :=
  List.getElem?_eq_getElem tape.last_lt_length

theorem pending_last : tape.pending tape.last = [] := by
  have hlt := tape.last_lt_length
  have hkind : tape.tokens[tape.last].kind = .eof := tape.ending.kind_last
  rw [pending, List.drop_eq_getElem_cons hlt]
  exact List.takeWhile_cons_of_neg (by simpa using hkind)

/-- Before the first end token there is another token, and it is pending. -/
theorem exists_getElem?_of_lt (h : k < tape.last) :
    ∃ t, tape.tokens[k]? = some t ∧ t.kind ≠ .eof ∧ tape.pending k = t :: tape.pending (k + 1) := by
  have hk : k < tape.tokens.length := Nat.lt_trans h tape.last_lt_length
  have ht : tape.tokens[k].kind ≠ .eof := by simpa using List.not_of_lt_findIdx h
  refine ⟨tape.tokens[k], List.getElem?_eq_getElem hk, ht, ?_⟩
  rw [pending, List.drop_eq_getElem_cons hk, List.takeWhile_cons_of_pos (by simpa using ht)]
  rfl

theorem length_pending (h : k ≤ tape.last) : (tape.pending k).length = tape.last - k := by
  induction h using Nat.decreasingInduction with
  | self => simp [tape.pending_last]
  | of_succ k hk ih =>
    obtain ⟨t, -, -, hpending⟩ := tape.exists_getElem?_of_lt hk
    rw [hpending, List.length_cons, ih]
    omega

theorem kind_of_head?_pending : ∀ t ∈ (tape.pending k).head?, t.kind ≠ .eof := by
  intro t ht
  have hinner := List.all_eq_true.mp List.all_takeWhile t (List.mem_of_head? ht)
  simpa using hinner

/-- The token under the cursor is the first pending one, or the end token. -/
theorem getElem?_eq (h : k ≤ tape.last) :
    tape.tokens[k]? = some ((tape.pending k).head?.getD tape.ending.last) := by
  rcases Nat.lt_or_eq_of_le h with h | rfl
  · obtain ⟨t, ht, -, hpending⟩ := tape.exists_getElem?_of_lt h
    rw [ht, hpending]
    rfl
  · rw [tape.getElem?_last, tape.pending_last]
    rfl

/-- The token behind the one under the cursor. -/
theorem getElem?_succ_eq (h : k ≤ tape.last) :
    tape.tokens[k + 1]? = if (tape.pending k).isEmpty then tape.ending.behind
      else (tape.pending k).tail.head?.getD tape.ending.last := by
  rcases Nat.lt_or_eq_of_le h with h | rfl
  · obtain ⟨t, -, -, hpending⟩ := tape.exists_getElem?_of_lt h
    rw [tape.getElem?_eq h, hpending]
    rfl
  · rw [tape.pending_last]
    rfl

end Tape

/-- A moment of a run: what is left to do, and where the cursor is. -/
structure Moment (α : Type) where
  code : Code α
  cursor : Nat

namespace Moment

variable {α β : Type} {tape : Tape}

/-- The next moment.  There is none after the end of the run, nor if the cursor is at no token. -/
def step? (tape : Tape) : Moment α → Option (Moment α)
  | ⟨.halt _, _⟩ => none
  | ⟨.look next, k⟩ => tape.tokens[k]?.map fun t => ⟨next t, k⟩
  | ⟨.lookAhead next, k⟩ => some ⟨next tape.tokens[k + 1]?, k⟩
  | ⟨.advance next, k⟩ => tape.tokens[k]?.map fun t => ⟨next, if t.kind = .eof then k else k + 1⟩
  | ⟨.enter routine next, k⟩ => some ⟨(Code.body routine).bind next, k⟩

/-- The moment comes after the other in a run, or is the same. -/
def LeadsTo (tape : Tape) : Moment α → Moment α → Prop :=
  Relation.ReflTransGen fun m m' => m.step? tape = some m'

section Cursor

variable {m m' : Moment α}

/-- A step leaves the cursor where it is, or moves it past a token that is no end token. -/
theorem cursor_of_step (h : m.step? tape = some m') :
    m'.cursor = m.cursor ∨ m'.cursor = m.cursor + 1 ∧
      ∃ t, tape.tokens[m.cursor]? = some t ∧ t.kind ≠ .eof := by
  obtain ⟨code, k⟩ := m
  cases code with
  | halt result => cases h
  | look next =>
    obtain ⟨t, -, rfl⟩ := Option.map_eq_some_iff.mp h
    exact .inl rfl
  | lookAhead next =>
    cases h
    exact .inl rfl
  | advance next =>
    obtain ⟨t, ht, rfl⟩ := Option.map_eq_some_iff.mp h
    by_cases hk : t.kind = .eof
    · exact .inl (if_pos hk)
    · exact .inr ⟨if_neg hk, t, ht, hk⟩
  | enter routine next =>
    cases h
    exact .inl rfl

theorem le_of_step (h : m.step? tape = some m') : m.cursor ≤ m'.cursor := by
  rcases cursor_of_step h with h | ⟨h, -⟩ <;> omega

theorem le_last_of_step (h : m.step? tape = some m') (hm : m.cursor ≤ tape.last) :
    m'.cursor ≤ tape.last := by
  rcases cursor_of_step h with h | ⟨h, t, ht, hk⟩
  · omega
  · have hne : m.cursor ≠ tape.last := by
      intro hlast
      rw [hlast, tape.getElem?_last] at ht
      exact hk (Option.some.inj ht ▸ tape.ending.kind_last)
    omega

namespace LeadsTo

theorem le (h : LeadsTo tape m m') : m.cursor ≤ m'.cursor := by
  induction h with
  | refl => exact Nat.le_refl _
  | tail _ step ih => exact Nat.le_trans ih (le_of_step step)

theorem le_last (h : LeadsTo tape m m') (hm : m.cursor ≤ tape.last) : m'.cursor ≤ tape.last := by
  induction h with
  | refl => exact hm
  | tail _ step ih => exact le_last_of_step step ih

end LeadsTo

/-- Every moment of a run leads to the end of the run. -/
theorem LeadsTo.of_halt {result : Except Problem α} {k : Nat} (h : LeadsTo tape m ⟨.halt result, k⟩)
    (h' : LeadsTo tape m m') : LeadsTo tape m' ⟨.halt result, k⟩ := by
  have unique : Relator.RightUnique fun m m' : Moment α => m.step? tape = some m' :=
    fun _ _ _ h h' => Option.some.inj (h.symm.trans h')
  rcases Relation.ReflTransGen.total_of_right_unique unique h h' with back | done
  · rcases Relation.ReflTransGen.cases_head back with rfl | ⟨_, step, -⟩
    · exact .refl
    · cases step
  · exact done

end Cursor

section Sequence

variable {code : Code α} {next : α → Code β} {k : Nat}

theorem step_bind {m' : Moment α} (h : step? tape ⟨code, k⟩ = some m') :
    step? tape ⟨code.bind next, k⟩ = some ⟨m'.code.bind next, m'.cursor⟩ := by
  cases code with
  | halt result => cases h
  | look code =>
    obtain ⟨t, ht, rfl⟩ := Option.map_eq_some_iff.mp h
    exact Option.map_eq_some_iff.mpr ⟨t, ht, rfl⟩
  | lookAhead code =>
    cases h
    rfl
  | advance code =>
    obtain ⟨t, ht, rfl⟩ := Option.map_eq_some_iff.mp h
    exact Option.map_eq_some_iff.mpr ⟨t, ht, rfl⟩
  | enter routine code =>
    cases h
    rw [Code.bind_assoc]
    rfl

/-- A run of code is the first part of a run of the code with more after it. -/
theorem LeadsTo.bind {m m' : Moment α} (h : LeadsTo tape m m') :
    LeadsTo tape ⟨m.code.bind next, m.cursor⟩ ⟨m'.code.bind next, m'.cursor⟩ := by
  induction h with
  | refl => exact .refl
  | tail _ step ih => exact ih.tail (step_bind step)

end Sequence

end Moment

end KanaScript.Grammar
