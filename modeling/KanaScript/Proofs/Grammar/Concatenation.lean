import KanaScript.Proofs.Grammar.ProgramPrediction

/-! Programs one after the other.  A function ends with its closing brace, whatever follows but a
terminator, and no program starts with a terminator; so declarations that end in a function are read
as they are also in front of another program. -/

namespace KanaScript.Grammar

namespace Action

variable {α β : Type} {n : Nat} {ts rest : List Token}

section Functions

theorem run_declaration_typed {t : Token} (type : t.kind = .typeKeyword) (ts : List Token) :
    declaration.run (t :: ts) = (terminated (typedDeclaration t)).run ts := by
  rw [declaration, run_takeIf_neg (by simp [Token.isWord, type]), run_takeIf_pos type]

/-- A function after its type. -/
def typedFunction (type : Token) : Action Function := do
  let name ← name
  take (·.kind = .openParen) (.expected .parametersOpen) fun _ => do
    let parameters ← openedParameters
    let body ← block
    return ⟨type.text, name, parameters, body, type.position⟩

/-- The functions among the declarations that a type leads. -/
theorem run_typedDeclaration_eq_function_iff {type : Token} {f : Function} :
    (typedDeclaration type).run ts = .ok (.function f) rest ↔
      (typedFunction type).run ts = .ok f rest := by
  cases hname : name.run ts with
  | error problem middle =>
    rw [typedDeclaration, typedFunction, bind_of_error hname, bind_of_error hname]
    simp
  | ok text middle =>
    rw [typedDeclaration, typedFunction, bind_of_ok hname, bind_of_ok hname, take]
    rcases accepted_or_not (·.kind = .openParen) middle with ⟨t, us, rfl, ht⟩ | hmiddle
    · rw [run_takeIf_pos ht, run_takeIf_pos ht]
      cases hparameters : openedParameters.run us with
      | error problem middle => simp [bind_of_error hparameters]
      | ok parameters middle =>
        rw [bind_of_ok hparameters, bind_of_ok hparameters, run_map_eq_ok_iff, run_map_eq_ok_iff]
        simp
    · rw [run_takeIf_neg hmiddle, run_takeIf_neg hmiddle, run_map_eq_ok_iff]
      simp

theorem predictive_typedFunction {follow : List Token → Prop} {type : Token} :
    Predictive n follow (LeadsWith .identifier) (typedFunction type) := by
  have hrest : ∀ {m : Nat} {text : String}, Predictive m follow (fun _ => True) (do
      let parameters ← openedParameters
      let body ← block
      return (⟨type.text, text, parameters, body, type.position⟩ : Function)) := by
    intro m text
    have hparameters : Predictive m (LeadsWith .openBrace) _ openedParameters :=
      predictive_openedParameters
    exact hparameters.bind fun parameters => predictive_block.map
  refine .name fun text => ?_
  refine Predictive.anywhere (.take .openParen rfl nofun nofun ?_ fun _ _ => hrest)
  exact (hrest [] Nat.one_pos nofun).completes

/-- No terminator follows. -/
def Unterminated (after : List Token) : Prop := ∀ t ∈ after.head?, t.kind ≠ .semicolon

/-- What an action does is settled by the tokens that it takes and the next one. -/
theorem Predictive.exists_split {follow entry : List Token → Prop} {action : Action α} {v : α}
    (h : Predictive (ts.length + 1) follow entry action) (hproper : ∀ t ∈ ts, t.IsProper)
    (hrun : action.run ts = .ok v rest) : ∃ used, ts = used ++ rest ∧
      ∀ others, others.head? = rest.head? ∨ follow others →
        action.run (used ++ others) = .ok v others := by
  cases h ts (Nat.lt_succ_self _) hproper with
  | stuck used rest problem split placed settled completes =>
    cases hrun.symm.trans (split ▸ settled rest rfl)
  | done used left w split settled enters =>
    have hsame := hrun.symm.trans (split ▸ settled left (.inl rfl))
    obtain ⟨rfl, rfl⟩ : v = w ∧ rest = left := by simpa using hsame
    exact ⟨used, split, settled⟩

/-- An action that has taken everything does the same in front of more tokens. -/
theorem Predictive.run_append {follow entry : List Token → Prop} {action : Action α} {v : α}
    (h : Predictive (ts.length + 1) follow entry action) (hproper : ∀ t ∈ ts, t.IsProper)
    (hrun : action.run ts = .ok v []) {others : List Token} (hothers : follow others) :
    action.run (ts ++ others) = .ok v others := by
  obtain ⟨used, hts, settled⟩ := h.exists_split hproper hrun
  rw [hts, List.append_nil]
  exact settled others (.inr hothers)

/-- A function goes no further than its last token. -/
theorem run_declaration_append {f : Function} (hproper : ∀ t ∈ ts, t.IsProper)
    (hrun : declaration.run ts = .ok (.function f) []) {others : List Token}
    (hothers : Unterminated others) :
    declaration.run (ts ++ others) = .ok (.function f) others := by
  have hstatement : ∀ {us : List Token} {f : Function},
      (do let s ← statement; return .statement s : Action Declaration).run us ≠
        .ok (.function f) [] := by
    intro us f h
    obtain ⟨s, -, hs⟩ := run_map_eq_ok_iff.mp h
    cases hs
  cases ts with
  | nil => exact absurd hrun hstatement
  | cons t us =>
    rw [List.forall_mem_cons] at hproper
    rw [declaration, run_takeIf_cons] at hrun
    rw [List.cons_append, declaration, run_takeIf_cons]
    split
    · rename_i hmarker
      rw [if_pos hmarker, run_map_eq_ok_iff] at hrun
      obtain ⟨g, hrun, hg⟩ := hrun
      cases hg
      have hfunction : Predictive (us.length + 1) (fun _ => True) _ markedFunction :=
        predictive_markedFunction
      have hterminated := hfunction.terminated
        fun after (h : Unterminated after) => ⟨trivial, h⟩
      exact run_map_eq_ok_iff.mpr ⟨f, hterminated.run_append hproper.2 hrun hothers, rfl⟩
    rename_i hmarker
    rw [if_neg hmarker, run_takeIf_cons] at hrun
    rw [run_takeIf_cons]
    split
    · rename_i htype
      rw [if_pos htype, run_terminated_eq_ok_iff] at hrun
      obtain ⟨middle, hrun, hmiddle⟩ := hrun
      have hfunction : Predictive (us.length + 1) (fun _ => True) _ (typedFunction t) :=
        predictive_typedFunction
      have hterminated := hfunction.terminated
        fun after (h : Unterminated after) => ⟨trivial, h⟩
      have happend := hterminated.run_append hproper.2 (run_terminated_eq_ok_iff.mpr
        ⟨middle, run_typedDeclaration_eq_function_iff.mp hrun, hmiddle⟩) hothers
      obtain ⟨middle, hrun, hmiddle⟩ := run_terminated_eq_ok_iff.mp happend
      exact run_terminated_eq_ok_iff.mpr
        ⟨middle, run_typedDeclaration_eq_function_iff.mpr hrun, hmiddle⟩
    · rename_i htype
      rw [if_neg htype] at hrun
      exact absurd hrun hstatement

end Functions

section Terminators

variable {t : Token} {us : List Token}

/-- No expression starts with a terminator. -/
theorem run_expression_terminator (h : t.kind = .semicolon) :
    expression.run (t :: us) = .error .unexpectedToken (t :: us) := by
  have hprimary : primary.run (t :: us) = .error .unexpectedToken (t :: us) := by
    simp [primary, take, run_takeIf_cons, h]
  have hbeginsed : prefixed.run (t :: us) = .error .unexpectedToken (t :: us) := by
    rw [prefixed_eq, run_takeIf_neg (by simp [isOperator, h]), bind_of_error hprimary]
  have hbinary : ∀ levels, (binary levels).run (t :: us) = .error .unexpectedToken (t :: us) := by
    intro levels
    induction levels with
    | nil => exact hbeginsed
    | cons ops tighter ih => rw [binary, bind_of_error ih]
  rw [expression_eq, bind_of_error (hbinary _)]

theorem run_declaration_terminator (h : t.kind = .semicolon) :
    declaration.run (t :: us) = .error .unexpectedToken (t :: us) := by
  have hbare : bareStatement.run (t :: us) = .error .unexpectedToken (t :: us) := by
    have hword : ∀ text, t.isWord .controlKeyword text = false := by simp [Token.isWord, h]
    rw [bareStatement_eq]
    simp only [run_takeIf_cons, hword, h, reduceCtorEq, Bool.false_eq_true, if_false]
    exact bind_of_error (run_expression_terminator h)
  have hstatement : statement.run (t :: us) = .error .unexpectedToken (t :: us) :=
    bind_of_error hbare
  rw [declaration, run_takeIf_neg (by simp [Token.isWord, h]), run_takeIf_neg (by simp [h]),
    bind_of_error hstatement]

end Terminators

end Action

open KanaScript.Grammar.Action

theorem unterminated_of_declarations {ts : List Token} {program : Program}
    (h : declarations ts = .ok program) : Unterminated ts := by
  intro t ht hkind
  obtain ⟨us, rfl⟩ := List.head?_eq_some_iff.mp ht
  cases h.symm.trans (declarations_of_error nofun (run_declaration_terminator hkind))

theorem eq_nil_of_declarations {ts : List Token} (h : declarations ts = .ok []) : ts = [] := by
  rw [declarations_eq] at h
  split at h
  · rename_i hempty
    exact List.isEmpty_iff.mp hempty
  cases hrun : Action.declaration.run ts with
  | error problem rest => simp [hrun] at h
  | ok d rest =>
    rw [hrun] at h
    cases hrest : declarations rest <;> simp [hrest, Except.map] at h

theorem exists_of_declarations_cons {ts : List Token} {d : Declaration} {program : Program}
    (h : declarations ts = .ok (d :: program)) :
    ∃ rest, Action.declaration.run ts = .ok d rest ∧ declarations rest = .ok program := by
  rw [declarations_eq] at h
  split at h
  · cases h
  cases hrun : Action.declaration.run ts with
  | error problem rest => simp [hrun] at h
  | ok d' rest =>
    rw [hrun] at h
    cases hrest : declarations rest with
    | error failure => simp [hrest, Except.map] at h
    | ok others =>
      obtain ⟨rfl, rfl⟩ : d' = d ∧ others = program := by simpa [hrest, Except.map] using h
      exact ⟨rest, rfl, hrest⟩

/-- Declarations of which the last is a function, and a program after them. -/
theorem declarations_append {us : List Token} {f : Function} {second : Program}
    (hsecond : declarations us = .ok second) (n : Nat) : ∀ {ts : List Token} {first : Program},
    ts.length < n → (∀ t ∈ ts, t.IsProper) → declarations ts = .ok first →
    first.getLast? = some (.function f) → declarations (ts ++ us) = .ok (first ++ second) := by
  induction n with
  | zero => exact fun hlt => absurd hlt (Nat.not_lt_zero _)
  | succ n ih =>
    intro ts first hlt hproper hfirst hlast
    have hne : ts ≠ [] := by
      rintro rfl
      rw [declarations_eq] at hfirst
      cases hfirst
      cases hlast
    cases predictive_declaration (n := n + 1) ts hlt hproper with
    | stuck used rest problem split placed settled completes =>
      cases hfirst.symm.trans (declarations_of_error hne (split ▸ settled rest rfl))
    | done used rest d split settled enters =>
      have hrun : Action.declaration.run ts = .ok d rest := split ▸ settled rest (.inl rfl)
      have hshort := length_of_declaration hrun
      have hrest : ∃ others, declarations rest = .ok others ∧ first = d :: others := by
        rw [declarations_of_ok hrun] at hfirst
        cases hrest : declarations rest with
        | error failure => simp [hrest, Except.map] at hfirst
        | ok others => exact ⟨others, rfl, by simpa [hrest, Except.map] using hfirst.symm⟩
      obtain ⟨others, hrest, rfl⟩ := hrest
      cases others with
      | nil =>
        -- the last declaration has taken all tokens, and no terminator follows them
        obtain rfl := eq_nil_of_declarations hrest
        obtain rfl : d = .function f := by simpa using hlast
        rw [declarations_of_ok (run_declaration_append hproper hrun
          (unterminated_of_declarations hsecond)), hsecond]
        rfl
      | cons d' others =>
        have hnext : (rest ++ us).head? = rest.head? := by
          cases rest with
          | nil =>
            rw [declarations_eq] at hrest
            cases hrest
          | cons t rest => rfl
        have hproper' : ∀ t ∈ rest, t.IsProper := fun t ht =>
          hproper t (split ▸ List.mem_append_right used ht)
        rw [split, List.append_assoc, declarations_of_ok (settled _ (.inl hnext)),
          ih (by omega) hproper' hrest (by simpa using hlast)]
        rfl

section Endings

variable {ts : List Token} {f : Function}

theorem getLast?_of_derivesBlock {body : Block} (h : DerivesBlock ts body) :
    ∃ t, ts.getLast? = some t ∧ t.kind = .closeBrace := by
  obtain ⟨opening, inner, closing⟩ := h
  exact ⟨_, by simp [List.getLast?_cons], closing⟩

theorem getLast?_of_derivesFunction (h : DerivesDeclaration ts (.function f)) :
    ∃ t, ts.getLast? = some t ∧ t.kind = .closeBrace := by
  cases h with
  | marked marker type name list inner =>
    obtain ⟨t, ht, hkind⟩ := getLast?_of_derivesBlock inner
    exact ⟨t, by simp [List.getLast?_cons, ht], hkind⟩
  | typed type name list inner =>
    obtain ⟨t, ht, hkind⟩ := getLast?_of_derivesBlock inner
    exact ⟨t, by simp [List.getLast?_cons, ht], hkind⟩

/-- Declarations of which the last is a function end with a brace or a terminator. -/
theorem getLast?_of_derivesProgram {program : Program} (h : DerivesProgram ts program)
    (hlast : program.getLast? = some (.function f)) :
    ∃ t, ts.getLast? = some t ∧ (t.kind = .closeBrace ∨ t.kind = .semicolon) := by
  induction h with
  | none => cases hlast
  | @more a b c d program first ending others ih =>
    cases program with
    | nil =>
      obtain rfl : d = .function f := by simpa using hlast
      obtain ⟨t, ht, hkind⟩ := getLast?_of_derivesFunction first
      cases others with
      | none =>
        cases ending with
        | none => exact ⟨t, by simpa using ht, .inl hkind⟩
        | one hsemicolon => exact ⟨_, by simp, .inr hsemicolon⟩
    | cons d' program =>
      obtain ⟨t, ht, hkind⟩ := ih (by simpa using hlast)
      exact ⟨t, by simp [ht], hkind⟩

end Endings

end KanaScript.Grammar
