import Mathlib.Data.List.Basic
import Mathlib.Tactic.SplitIfs

/-! Texts read by positions.  An access fails where the text has no such position, so nothing that
succeeds has left the text.  Positions count characters, or bytes of the text as it is stored; a
position within the bytes of a character is none. -/

namespace KanaScript.Text

section Loops

variable {σ α : Type}

/-- A loop over a state.  It fails if one of its rounds does, or if it has not ended after `rounds`
of them. -/
def loop? (round : σ → Option (σ ⊕ α)) : Nat → σ → Option α
  | 0, _ => none
  | rounds + 1, state =>
    (round state).bind fun
      | .inl next => loop? round rounds next
      | .inr result => some result

/-- In a state with the invariant no round fails: it ends the loop with a right result, or leaves
less to do and a state that has the invariant and no other right results. -/
def Advances (round : σ → Option (σ ⊕ α)) (left : σ → Nat) (Inv : σ → Prop)
    (Result : σ → α → Prop) : Prop :=
  ∀ state, Inv state →
    (∃ result, round state = some (.inr result) ∧ Result state result) ∨
      ∃ next, round state = some (.inl next) ∧ Inv next ∧ left next < left state ∧
        ∀ result, Result next result → Result state result

theorem Advances.loop? {round : σ → Option (σ ⊕ α)} {left : σ → Nat} {Inv : σ → Prop}
    {Result : σ → α → Prop} (h : Advances round left Inv Result) (state : σ) (hstate : Inv state)
    {rounds : Nat} (hleft : left state < rounds) :
    ∃ result, Text.loop? round rounds state = some result ∧ Result state result := by
  induction rounds generalizing state with
  | zero => exact absurd hleft (Nat.not_lt_zero _)
  | succ rounds ih =>
    rw [Text.loop?]
    rcases h state hstate with ⟨result, hend, hresult⟩ | ⟨next, hnext, hinv, hless, hback⟩
    · rw [hend]
      exact ⟨result, rfl, hresult⟩
    · obtain ⟨result, hend, hresult⟩ := ih next hinv (by omega)
      rw [hnext]
      exact ⟨result, hend, hback result hresult⟩

end Loops

section Positions

variable {text cs part tail : List Char} {c : Char} {i : Nat}

/-- The characters from one position up to another. -/
def slice? (cs : List Char) (first last : Nat) : Option (List Char) :=
  if first ≤ last ∧ last ≤ cs.length then some ((cs.drop first).take (last - first)) else none

theorem slice?_of_isPrefix (hi : i ≤ cs.length) (h : part <+: cs.drop i) :
    slice? cs i (i + part.length) = some part := by
  have hlength := h.length_le
  rw [List.length_drop] at hlength
  rw [slice?, if_pos (by omega), Nat.add_sub_cancel_left, ← List.prefix_iff_eq_take.mp h]

/-- One step over a character of the class. -/
def skipRound (p : Char → Bool) (cs : List Char) (i : Nat) : Option (Nat ⊕ Nat) :=
  if i < cs.length then (cs[i]?).map fun c => if p c then .inl (i + 1) else .inr i
  else some (.inr i)

/-- The first position from `i` on where no character of the class stands. -/
def skip? (p : Char → Bool) (cs : List Char) (i : Nat) : Option Nat :=
  loop? (skipRound p cs) (cs.length + 1) i

theorem advances_skipRound (p : Char → Bool) (cs : List Char) :
    Advances (skipRound p cs) (cs.length - ·) (fun _ => True)
      (fun i result => result = i + ((cs.drop i).takeWhile p).length) := by
  intro i _
  dsimp only
  rw [skipRound]
  split_ifs with hi
  · rw [List.getElem?_eq_getElem hi, List.drop_eq_getElem_cons hi, List.takeWhile_cons]
    cases hp : p cs[i] with
    | true =>
      refine .inr ⟨i + 1, by simp [hp], trivial, by omega, fun result h => ?_⟩
      rw [h, if_pos rfl, List.length_cons]
      omega
    | false => exact .inl ⟨i, by simp [hp], by simp⟩
  · rw [List.drop_eq_nil_of_le (by omega)]
    exact .inl ⟨i, rfl, rfl⟩

theorem skip?_eq (p : Char → Bool) (cs : List Char) (i : Nat) :
    skip? p cs i = some (i + ((cs.drop i).takeWhile p).length) := by
  obtain ⟨result, hend, rfl⟩ :=
    (advances_skipRound p cs).loop? i trivial (Nat.lt_succ_of_le (Nat.sub_le cs.length i))
  exact hend

/-! What stands at a position, from what the text goes on with there. -/

theorem lt_of_drop (h : text.drop i = c :: cs) : i < text.length := by
  by_contra hle
  rw [List.drop_eq_nil_of_le (Nat.not_lt.mp hle)] at h
  cases h

theorem getElem?_of_drop (h : text.drop i = c :: cs) : text[i]? = some c := by
  rw [← List.head?_drop, h, List.head?_cons]

theorem drop_succ_of_drop (h : text.drop i = c :: cs) : text.drop (i + 1) = cs := by
  rw [← List.tail_drop, h, List.tail_cons]

theorem slice?_of_drop (h : text.drop i = c :: cs) (htail : tail <+: cs) :
    slice? text i (i + 1 + tail.length) = some (c :: tail) := by
  have hpart : c :: tail <+: text.drop i := by
    rw [h]
    exact (List.prefix_cons_inj c).mpr htail
  have hslice := slice?_of_isPrefix (Nat.le_of_lt (lt_of_drop h)) hpart
  rwa [List.length_cons, Nat.add_comm tail.length, ← Nat.add_assoc] at hslice

theorem skip?_of_drop (h : text.drop i = c :: cs) (p : Char → Bool) :
    skip? p text (i + 1) = some (i + 1 + (cs.takeWhile p).length) := by
  rw [skip?_eq, drop_succ_of_drop h]

theorem length_of_drop (h : text.drop i = c :: cs) : text.length = i + 1 + cs.length := by
  have hlength := congrArg List.length h
  have hi := lt_of_drop h
  rw [List.length_drop, List.length_cons] at hlength
  omega

end Positions

section Bytes

def byteLength : List Char → Nat
  | [] => 0
  | c :: cs => c.utf8Size + byteLength cs

theorem byteLength_append (front back : List Char) :
    byteLength (front ++ back) = byteLength front + byteLength back := by
  induction front with
  | nil => simp [byteLength]
  | cons c front ih => rw [List.cons_append, byteLength, byteLength, ih, Nat.add_assoc]

/-- A text cut behind its first `n` bytes. -/
def cut? : List Char → Nat → Option (List Char × List Char)
  | cs, 0 => some ([], cs)
  | [], _ + 1 => none
  | c :: cs, n + 1 =>
    if c.utf8Size ≤ n + 1 then
      (cut? cs (n + 1 - c.utf8Size)).map fun parts => (c :: parts.1, parts.2)
    else none

theorem cut?_append (front back : List Char) :
    cut? (front ++ back) (byteLength front) = some (front, back) := by
  induction front with
  | nil => rw [List.nil_append, byteLength, cut?]
  | cons c front ih =>
    obtain ⟨n, hn⟩ : ∃ n, byteLength (c :: front) = n + 1 :=
      Nat.exists_eq_succ_of_ne_zero (by have := c.utf8Size_pos; rw [byteLength]; omega)
    have hrest : n + 1 - c.utf8Size = byteLength front := by rw [← hn, byteLength]; omega
    rw [hn, List.cons_append, cut?, if_pos (by rw [← hn, byteLength]; omega), hrest, ih]
    rfl

/-- How many bytes stand in front of the first occurrence of a text. -/
def find? (part : List Char) : List Char → Option Nat
  | [] => if part.isEmpty then some 0 else none
  | c :: cs => if part.isPrefixOf (c :: cs) then some 0 else (find? part cs).map (· + c.utf8Size)

theorem find?_singleton (d : Char) (cs : List Char) :
    find? [d] cs = if d ∈ cs then some (byteLength (cs.takeWhile (· != d))) else none := by
  induction cs with
  | nil => rfl
  | cons c cs ih =>
    by_cases hc : c = d
    · subst hc
      simp [find?, byteLength]
    · have hd : d ≠ c := Ne.symm hc
      rw [find?, ih]
      by_cases hmem : d ∈ cs
      · simp [hc, hd, hmem, byteLength, Nat.add_comm]
      · simp [hd, hmem]

end Bytes

end KanaScript.Text
