import KanaScript.Grammar.Reading

/-! What a reading yields, with the bound on the rest left out.  The lemmas say when a sequence, a
weakened reading and each rule for a single token yield a value. -/

namespace KanaScript.Grammar

namespace Reading

variable {m n : Nat} {α β : Type}

/-- The reading succeeds with the value and leaves the rest. -/
def Yields (reading : Reading n α) (value : α) (rest : List Token) : Prop :=
  ∃ shorter, reading = .ok value rest shorter

theorem Yields.shorter {reading : Reading n α} {value : α} {rest : List Token}
    (h : reading.Yields value rest) : rest.length < n := h.1

theorem Yields.unique {reading : Reading n α} {v w : α} {rest others : List Token}
    (h : reading.Yields v rest) (h' : reading.Yields w others) : v = w ∧ rest = others := by
  obtain ⟨_, rfl⟩ := h
  obtain ⟨_, e⟩ := h'
  cases e
  exact ⟨rfl, rfl⟩

@[simp]
theorem yields_ok {v w : α} {rest others : List Token} {shorter : rest.length < n} :
    (ok v rest shorter).Yields w others ↔ v = w ∧ rest = others := by
  constructor
  · rintro ⟨_, e⟩
    cases e
    exact ⟨rfl, rfl⟩
  · rintro ⟨rfl, rfl⟩
    exact ⟨shorter, rfl⟩

@[simp]
theorem not_yields_failed {problem : Problem} {v : α} {rest others : List Token} :
    ¬(failed problem rest : Reading n α).Yields v others := by
  rintro ⟨_, e⟩
  cases e

@[simp]
theorem yields_weaken {reading : Reading m α} {le : m ≤ n} {v : α} {rest : List Token} :
    (reading.weaken le).Yields v rest ↔ reading.Yields v rest := by
  cases reading with
  | ok value middle shorter => simp [weaken]
  | failed problem middle => simp [weaken]

/-- A sequence yields what its second part yields after its first. -/
theorem yields_andThen {reading : Reading m α}
    {next : (value : α) → (rest : List Token) → rest.length < m → Reading n β}
    {v : β} {rest : List Token} :
    (reading.andThen next).Yields v rest ↔
      ∃ first middle, ∃ h : reading.Yields first middle,
        (next first middle h.shorter).Yields v rest := by
  cases reading with
  | ok first middle h =>
    constructor
    · intro e
      exact ⟨first, middle, ⟨h, rfl⟩, e⟩
    · rintro ⟨first', middle', h', e⟩
      obtain ⟨rfl, rfl⟩ := yields_ok.mp h'
      exact e
  | failed problem middle => simp

end Reading

open Reading

@[simp]
theorem yields_expect {kind : TokenKind} {what : Expectation} {ts : List Token} {t : Token}
    {rest : List Token} : (expect kind what ts).Yields t rest ↔ ts = t :: rest ∧ t.kind = kind := by
  constructor
  · rintro ⟨_, e⟩
    exact expect_eq_ok_iff.mp e
  · rintro ⟨rfl, hk⟩
    exact ⟨Nat.lt_succ_self _, expect_eq_ok_iff.mpr ⟨rfl, hk⟩⟩

@[simp]
theorem startsWith_cons {kind : TokenKind} {t : Token} {ts : List Token} :
    startsWith kind (t :: ts) = true ↔ t.kind = kind := by
  simp [startsWith]

end KanaScript.Grammar
