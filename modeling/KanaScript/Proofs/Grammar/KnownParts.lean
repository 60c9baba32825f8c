import KanaScript.Proofs.C.ProgramOutline

/-! What every program that was read is made of: operators of the grammar and, if the tokens have
only types of the vocabulary, such types.  Each rule of the grammar ensures this of what it yields
and keeps it for what it leaves. -/

namespace KanaScript.Grammar

/-- The types among the tokens are those of the vocabulary. -/
def HasKnownTypes (ts : List Token) : Prop :=
  ∀ t ∈ ts, t.kind = .typeKeyword → t.text ∈ typeSpellings

theorem HasKnownTypes.tail {t : Token} {ts : List Token} (h : HasKnownTypes (t :: ts)) :
    HasKnownTypes ts := fun u hu => h u (List.mem_cons_of_mem t hu)

namespace Reading

variable {m n : Nat} {α β : Type} {P : α → Prop} {Q : β → Prop}

/-- Whatever the reading yields has the property, and it leaves known types. -/
def Ensures (reading : Reading n α) (P : α → Prop) : Prop :=
  ∀ v rest, reading.Yields v rest → P v ∧ HasKnownTypes rest

theorem ensures_ok {v : α} {rest : List Token} {shorter : rest.length < n} (hv : P v)
    (hr : HasKnownTypes rest) : (ok v rest shorter).Ensures P := by
  intro w others h
  obtain ⟨rfl, rfl⟩ := yields_ok.mp h
  exact ⟨hv, hr⟩

theorem ensures_failed {problem : Problem} {rest : List Token} :
    (failed problem rest : Reading n α).Ensures P := by
  intro v others h
  exact absurd h not_yields_failed

theorem Ensures.andThen {reading : Reading m α}
    {next : (v : α) → (rest : List Token) → rest.length < m → Reading n β}
    (h : reading.Ensures P)
    (hnext : ∀ {v : α} {rest : List Token} (shorter : rest.length < m), P v → HasKnownTypes rest →
      (next v rest shorter).Ensures Q) :
    (reading.andThen next).Ensures Q := by
  intro w others hw
  obtain ⟨v, rest, hv, hw⟩ := yields_andThen.mp hw
  obtain ⟨hp, hr⟩ := h v rest hv
  exact hnext hv.shorter hp hr w others hw

theorem Ensures.weaken {reading : Reading m α} {le : m ≤ n} (h : reading.Ensures P) :
    (reading.weaken le).Ensures P := by
  intro v rest hv
  exact h v rest (yields_weaken.mp hv)

theorem Ensures.terminated {reading : Reading n α} (h : reading.Ensures P) :
    reading.terminated.Ensures P := by
  cases reading with
  | failed problem rest => exact ensures_failed
  | ok v rest shorter =>
    obtain ⟨hp, hr⟩ := h v rest (yields_ok.mpr ⟨rfl, rfl⟩)
    refine ensures_ok hp ?_
    unfold skipTerminator
    split
    · split
      · exact hr.tail
      · exact hr
    · exact hr

end Reading

open Reading

section Words

variable {ts : List Token}

theorem ensures_expect (kind : TokenKind) (what : Expectation) (h : HasKnownTypes ts) :
    (expect kind what ts).Ensures fun t => kind = .typeKeyword → t.text ∈ typeSpellings := by
  intro t rest hy
  obtain ⟨rfl, hk⟩ := yields_expect.mp hy
  exact ⟨fun htype => h t List.mem_cons_self (hk.trans htype), h.tail⟩

theorem ensures_typeName (what : Expectation) (h : HasKnownTypes ts) :
    (typeName what ts).Ensures (· ∈ typeSpellings) :=
  (ensures_expect _ what h).andThen fun _ ht hr => ensures_ok (ht rfl) hr

theorem ensures_name (h : HasKnownTypes ts) : (name ts).Ensures fun _ => True := by
  unfold name
  split
  · split
    · exact ensures_ok trivial h.tail
    · exact ensures_failed
  · exact ensures_failed

theorem ensures_expression (h : HasKnownTypes ts) :
    (expression ts).Ensures Expr.HasKnownOperators := by
  intro e rest hy
  obtain ⟨used, rfl, hd, -⟩ := yields_expression_iff.mp hy
  exact ⟨hd.hasKnownOperators trivial, fun t ht => h t (List.mem_append_right used ht)⟩

theorem ensures_suffix (h : HasKnownTypes ts) :
    (variableRest.suffix ts).Ensures fun suffix => suffix = "" ∨ suffix = arraySuffix := by
  unfold variableRest.suffix
  split
  · split
    · split
      · exact (ensures_expect _ _ h.tail).andThen fun _ _ hr => ensures_ok (.inr rfl) hr
      · exact (ensures_expression h.tail).andThen fun _ _ hr =>
          (ensures_expect _ _ hr).andThen fun _ _ hr => ensures_ok (.inr rfl) hr
    · exact ensures_ok (.inl rfl) h
  · exact ensures_ok (.inl rfl) h

theorem hasKnownParts_declare {type suffix name : String} {init : Option Expr} {position : Position}
    (ht : type ∈ typeSpellings) (hs : suffix = "" ∨ suffix = arraySuffix)
    (hi : ∀ e ∈ init, e.HasKnownOperators) :
    (Stmt.declare ⟨type ++ suffix, name, init, position⟩).HasKnownParts := by
  refine Stmt.hasKnownParts_declare.mpr ⟨⟨type, ht, ?_⟩, hi⟩
  rcases hs with rfl | rfl
  · exact .inl String.append_empty
  · exact .inr rfl

theorem ensures_variableRest {type name : String} {position : Position} (ht : type ∈ typeSpellings)
    (h : HasKnownTypes ts) :
    (variableRest type name position ts).Ensures fun v => (Stmt.declare v).HasKnownParts := by
  refine (ensures_suffix h).andThen fun {suffix rest} _ hs hr => ?_
  have plain : (Stmt.declare ⟨type ++ suffix, name, none, position⟩).HasKnownParts :=
    hasKnownParts_declare ht hs (by simp)
  split
  · split
    · refine (ensures_expression hr.tail).andThen fun _ he hr => ?_
      exact ensures_ok (hasKnownParts_declare ht hs (by simpa using he)) hr
    · exact ensures_ok plain hr
  · exact ensures_ok plain hr

theorem ensures_localVariable (h : HasKnownTypes ts) :
    (localVariable ts).Ensures fun v => (Stmt.declare v).HasKnownParts :=
  (ensures_typeName _ h).andThen fun _ ht hr =>
    (ensures_name hr).andThen fun _ _ hr => (ensures_variableRest ht hr).weaken

end Words

section Statements

def AllKnown (s : Stmt) : Prop := ∀ x ∈ s.nodes, x.HasKnownParts

def AllKnownIn (ss : List Stmt) : Prop := ∀ x ∈ statementNodes ss, x.HasKnownParts

/-- On known types, the rule ensures the property. -/
def RuleEnsures {n : Nat} {α : Type} (rule : Rule n α) (P : α → Prop) : Prop :=
  ∀ ts h, HasKnownTypes ts → (rule ts h).Ensures P

variable {n : Nat} {nested : Rule n Stmt} {ts : List Token} {position : Position}

theorem ensures_statements (hn : RuleEnsures nested AllKnown) (stop : Token → Bool) (k : Nat) :
    ∀ {ts : List Token} {h : ts.length < n}, ts.length = k → HasKnownTypes ts →
      (statements nested stop ts h).Ensures AllKnownIn := by
  induction k using Nat.strongRecOn with
  | _ k ih =>
    intro ts h hk ht
    have none : AllKnownIn [] := by simp [AllKnownIn, statementNodes]
    unfold statements
    split
    · exact ensures_ok none ht
    · split
      · exact ensures_ok none ht
      · refine (hn _ _ ht).terminated.andThen fun shorter hs hr => ?_
        refine (ih _ (hk ▸ shorter) rfl hr).andThen fun _ hss hr => ensures_ok ?_ hr
        simp only [AllKnownIn, statementNodes, List.forall_mem_append]
        exact ⟨hs, hss⟩

theorem ensures_block (hn : RuleEnsures nested AllKnown) :
    RuleEnsures (block nested) fun b => AllKnownIn b.statements := by
  intro ts h ht
  refine (ensures_expect _ _ ht).andThen fun _ _ hr => ?_
  refine (ensures_statements hn _ _ rfl hr).andThen fun _ hss hr => ?_
  exact (ensures_expect _ _ hr).andThen fun _ _ hr => ensures_ok hss hr

theorem allKnown_ifElse {condition : Expr} {consequent : Stmt} {alternative : Option Stmt}
    (hc : condition.HasKnownOperators) (hs : AllKnown consequent)
    (ha : ∀ s ∈ alternative, AllKnown s) :
    AllKnown (.ifElse condition consequent alternative position) := by
  have hparts : (Stmt.ifElse condition consequent alternative position).HasKnownParts := by
    simpa [Stmt.HasKnownParts, Stmt.expressions, Stmt.variables] using hc
  cases alternative with
  | none =>
    simp only [AllKnown, Stmt.nodes, List.forall_mem_cons]
    exact ⟨hparts, hs⟩
  | some alternative =>
    simp only [AllKnown, Stmt.nodes, List.forall_mem_cons, List.forall_mem_append]
    exact ⟨hparts, hs, ha alternative rfl⟩

theorem ensures_ifElse (hn : RuleEnsures nested AllKnown) {h : ts.length < n}
    (ht : HasKnownTypes ts) : (ifElse nested position ts h).Ensures AllKnown := by
  refine (ensures_expression ht).andThen fun _ hc hr => ?_
  refine (hn _ _ hr).terminated.andThen fun _ hs hr => ?_
  split
  · rename_i more _
    split
    · -- After `else`, an `if` leaves the terminator that may follow it.
      have hbranch : ∀ shorter, (if startsWithControl "if" more then nested more shorter
          else (nested more shorter).terminated).Ensures AllKnown := by
        intro shorter
        split
        · exact hn more shorter hr.tail
        · exact (hn more shorter hr.tail).terminated
      exact (hbranch _).andThen fun _ ha hr =>
        ensures_ok (allKnown_ifElse hc hs (by simpa using ha)) hr
    · exact ensures_ok (allKnown_ifElse hc hs (by simp)) hr
  · exact ensures_ok (allKnown_ifElse hc hs (by simp)) hr

theorem ensures_whileLoop (hn : RuleEnsures nested AllKnown) {h : ts.length < n}
    (ht : HasKnownTypes ts) : (whileLoop nested position ts h).Ensures AllKnown := by
  refine (ensures_expression ht).andThen fun _ hc hr => ?_
  refine (hn _ _ hr).terminated.andThen fun _ hs hr => ensures_ok ?_ hr
  simp only [AllKnown, Stmt.nodes, List.forall_mem_cons]
  exact ⟨by simpa [Stmt.HasKnownParts, Stmt.expressions, Stmt.variables] using hc, hs⟩

theorem ensures_optionalExpression (ending : TokenKind) (ht : HasKnownTypes ts) :
    (optionalExpression ending ts).Ensures fun e => ∀ x ∈ e, x.HasKnownOperators := by
  unfold optionalExpression
  split
  · exact ensures_ok (by simp) ht
  · exact (ensures_expression ht).andThen fun _ he hr => ensures_ok (by simpa using he) hr

theorem ensures_forInit (ht : HasKnownTypes ts) :
    (forInit ts).Ensures fun init => ∀ i ∈ init, i.HasKnownParts := by
  unfold forInit
  split
  · exact ensures_ok (by simp) ht
  · split
    · exact (ensures_localVariable ht).andThen fun _ hv hr =>
        ensures_ok (by simpa [ForInit.HasKnownParts] using hv) hr
    · exact (ensures_expression ht).andThen fun _ he hr =>
        ensures_ok (by simpa [ForInit.HasKnownParts] using he) hr

def KnownHead (head : ForHead) : Prop :=
  (∀ i ∈ head.init, i.HasKnownParts) ∧ (∀ e ∈ head.condition, e.HasKnownOperators) ∧
    ∀ e ∈ head.update, e.HasKnownOperators

theorem ensures_forHead (ht : HasKnownTypes ts) : (forHead ts).Ensures KnownHead := by
  unfold forHead
  split
  · refine Ensures.weaken ?_
    have hdrop : HasKnownTypes (ts.drop 1) := fun t h => ht t (List.mem_of_mem_drop h)
    refine (ensures_forInit hdrop).andThen fun _ hi hr => ?_
    refine (ensures_expect _ _ hr).andThen fun _ _ hr => ?_
    refine (ensures_optionalExpression _ hr).andThen fun _ hc hr => ?_
    refine (ensures_expect _ _ hr).andThen fun _ _ hr => ?_
    refine (ensures_optionalExpression _ hr).andThen fun _ hu hr => ?_
    exact (ensures_expect _ _ hr).andThen fun _ _ hr => ensures_ok ⟨hi, hc, hu⟩ hr
  · exact (ensures_expression ht).andThen fun _ hc hr =>
      ensures_ok ⟨by simp, by simpa using hc, by simp⟩ hr

theorem ensures_forLoop (hn : RuleEnsures nested AllKnown) {h : ts.length < n}
    (ht : HasKnownTypes ts) : (forLoop nested position ts h).Ensures AllKnown := by
  refine (ensures_forHead ht).andThen fun _ hh hr => ?_
  refine (hn _ _ hr).terminated.andThen fun _ hs hr => ensures_ok ?_ hr
  simp only [AllKnown, Stmt.nodes, List.forall_mem_cons]
  exact ⟨Stmt.hasKnownParts_forLoop.mpr hh, hs⟩

structure KnownClauses (found : List Clause × Option (List Stmt)) : Prop where
  values : ∀ c ∈ found.1, c.value.HasKnownOperators
  cases : ∀ x ∈ clauseNodes found.1, x.HasKnownParts
  fallback : ∀ ss ∈ found.2, AllKnownIn ss

theorem ensures_clauses (hn : RuleEnsures nested AllKnown) (k : Nat) :
    ∀ {seen : Bool} {ts : List Token} {h : ts.length < n}, ts.length = k → HasKnownTypes ts →
      (clauses nested seen ts h).Ensures KnownClauses := by
  induction k using Nat.strongRecOn with
  | _ k ih =>
    intro seen ts h hk ht
    have none : KnownClauses ([], none) := ⟨by simp, by simp [clauseNodes], by simp⟩
    unfold clauses
    split
    · exact ensures_ok none ht
    · split
      · refine (ensures_expression ht.tail).andThen fun _ hv hr => ?_
        refine (ensures_expect _ _ hr).andThen fun _ _ hr => ?_
        refine (ensures_statements hn _ _ rfl hr).andThen fun _ hss hr => ?_
        refine (ih _ (by simp only [List.length_cons] at hk; omega) rfl hr).andThen
          fun _ ho hr => ensures_ok ⟨?_, ?_, ho.fallback⟩ hr
        · simp only [List.forall_mem_cons]
          exact ⟨hv, ho.values⟩
        · simp only [clauseNodes, List.forall_mem_append]
          exact ⟨hss, ho.cases⟩
      · split
        · split
          · exact ensures_failed
          · refine (ensures_expect _ _ ht.tail).andThen fun _ _ hr => ?_
            refine (ensures_statements hn _ _ rfl hr).andThen fun _ hss hr => ?_
            refine (ih _ (by simp only [List.length_cons] at hk; omega) rfl hr).andThen
              fun _ ho hr => ensures_ok ⟨ho.values, ho.cases, by simpa using hss⟩ hr
        · exact ensures_ok none ht

theorem ensures_switch (hn : RuleEnsures nested AllKnown) {h : ts.length < n}
    (ht : HasKnownTypes ts) : (switch nested position ts h).Ensures AllKnown := by
  refine (ensures_expression ht).andThen fun _ hsubject hr => ?_
  refine (ensures_expect _ _ hr).andThen fun _ _ hr => ?_
  refine (ensures_clauses hn _ rfl hr).andThen fun {found _} _ hc hr => ?_
  refine (ensures_expect _ _ hr).andThen fun _ _ hr => ensures_ok ?_ hr
  obtain ⟨cases, fallback⟩ := found
  have hparts : ∀ fallback position, (Stmt.switch _ cases fallback position).HasKnownParts :=
    fun _ _ => ⟨by simpa [Stmt.expressions] using ⟨hsubject, hc.values⟩, by simp [Stmt.variables]⟩
  cases fallback with
  | none =>
    simp only [AllKnown, Stmt.nodes, List.forall_mem_cons]
    exact ⟨hparts _ _, hc.cases⟩
  | some ss =>
    simp only [AllKnown, Stmt.nodes, List.forall_mem_cons, List.forall_mem_append]
    exact ⟨hparts _ _, hc.cases, hc.fallback ss rfl⟩

theorem ensures_returns (ht : HasKnownTypes ts) : (returns position ts).Ensures AllKnown := by
  have known : ∀ value : Option Expr, (∀ e ∈ value, e.HasKnownOperators) →
      AllKnown (.returns value position) := by
    intro value he
    simp only [AllKnown, Stmt.nodes, List.forall_mem_singleton]
    exact ⟨by simpa [Stmt.expressions] using he, by simp [Stmt.variables]⟩
  unfold returns
  split
  · exact ensures_ok (known none (by simp)) ht
  · exact (ensures_expression ht).andThen fun _ he hr => ensures_ok (known _ (by simpa using he)) hr

theorem ensures_expressionStatement (ht : HasKnownTypes ts) :
    (expressionStatement ts).Ensures AllKnown := by
  refine (ensures_expression ht).andThen fun _ he hr => ensures_ok ?_ hr
  simp only [AllKnown, Stmt.nodes, List.forall_mem_singleton]
  exact ⟨by simpa [Stmt.expressions] using he, by simp [Stmt.variables]⟩

theorem ensures_statementWith (hn : RuleEnsures nested AllKnown) :
    RuleEnsures (statementWith nested) AllKnown := by
  intro ts h ht
  unfold statementWith
  split
  · exact ensures_expressionStatement ht
  split
  · refine (ensures_block hn _ _ ht).andThen fun _ hb hr => ensures_ok ?_ hr
    simp only [AllKnown, Stmt.nodes, List.forall_mem_cons]
    exact ⟨by simp [Stmt.HasKnownParts, Stmt.expressions, Stmt.variables], hb⟩
  split
  · exact (ensures_ifElse hn ht.tail).weaken
  split
  · exact (ensures_whileLoop hn ht.tail).weaken
  split
  · exact (ensures_forLoop hn ht.tail).weaken
  split
  · exact (ensures_switch hn ht.tail).weaken
  split
  · exact ensures_returns ht.tail
  split
  · exact ensures_ok (by simp [AllKnown, Stmt.nodes, Stmt.HasKnownParts, Stmt.expressions,
      Stmt.variables]) ht.tail
  split
  · exact ensures_ok (by simp [AllKnown, Stmt.nodes, Stmt.HasKnownParts, Stmt.expressions,
      Stmt.variables]) ht.tail
  split
  · exact (ensures_localVariable ht).andThen fun _ hv hr =>
      ensures_ok (by simpa [AllKnown, Stmt.nodes] using hv) hr
  · exact ensures_expressionStatement ht

theorem ensures_bareStatement (k : Nat) : ∀ {ts : List Token}, ts.length = k → HasKnownTypes ts →
    (bareStatement ts).Ensures AllKnown := by
  induction k using Nat.strongRecOn with
  | _ k ih =>
    intro ts hk ht
    rw [bareStatement]
    refine ensures_statementWith (fun us hlt hus => ?_) ts _ ht
    exact ih us.length (hk ▸ hlt) rfl hus

theorem ensures_statement (ht : HasKnownTypes ts) : (statement ts).Ensures AllKnown :=
  (ensures_bareStatement _ rfl ht).terminated

end Statements

section Programs

variable {ts : List Token}

def KnownParameters (ps : List Parameter) : Prop := ∀ p ∈ ps, p.typeName ∈ typeSpellings

theorem ensures_parameterList (k : Nat) : ∀ {ts : List Token}, ts.length = k → HasKnownTypes ts →
    (parameterList ts).Ensures KnownParameters := by
  induction k using Nat.strongRecOn with
  | _ k ih =>
    intro ts hk ht
    have hfirst : (parameter ts).Ensures fun p => p.typeName ∈ typeSpellings :=
      (ensures_typeName _ ht).andThen fun _ htype hr =>
        (ensures_name hr).andThen fun _ _ hr => ensures_ok htype hr
    rw [parameterList]
    refine hfirst.andThen fun _ hp hr => ?_
    have single : KnownParameters [_] := List.forall_mem_singleton.mpr hp
    split
    · split
      · refine (ih _ (by simp only [List.length_cons] at *; omega) rfl hr.tail).andThen
          fun _ hps hr => ensures_ok (List.forall_mem_cons.mpr ⟨hp, hps⟩) hr
      · exact ensures_ok single hr
    · exact ensures_ok single hr

theorem ensures_parenthesized (ht : HasKnownTypes ts) :
    (parenthesized ts).Ensures KnownParameters := by
  refine (ensures_expect _ _ ht).andThen fun _ _ hr => ?_
  split
  · exact (ensures_expect _ _ hr).andThen fun _ _ hr => ensures_ok (List.forall_mem_nil _) hr
  · split
    · exact ensures_ok (List.forall_mem_nil _) fun t h => hr t (List.mem_of_mem_drop h)
    · exact (ensures_parameterList _ rfl hr).andThen fun _ hps hr =>
        (ensures_expect _ _ hr).andThen fun _ _ hr => ensures_ok hps hr

theorem ensures_bareParameters (k : Nat) : ∀ {ts : List Token}, ts.length = k → HasKnownTypes ts →
    (bareParameters ts).Ensures KnownParameters := by
  induction k using Nat.strongRecOn with
  | _ k ih =>
    intro ts hk ht
    rw [bareParameters]
    refine (ensures_typeName _ ht).andThen fun _ htype hr => ?_
    split
    · exact ensures_ok (List.forall_mem_nil _) hr
    · refine (ensures_name hr).andThen fun _ _ hr => ?_
      split
      · split
        · refine (ih _ (by simp only [List.length_cons] at *; omega) rfl hr.tail).andThen
            fun _ hps hr => ensures_ok (List.forall_mem_cons.mpr ⟨htype, hps⟩) hr
        · exact ensures_ok (List.forall_mem_singleton.mpr htype) hr
      · exact ensures_ok (List.forall_mem_singleton.mpr htype) hr

theorem ensures_markedParameters (ht : HasKnownTypes ts) :
    (markedParameters ts).Ensures KnownParameters := by
  unfold markedParameters
  split
  · exact ensures_ok (List.forall_mem_nil _) ht
  split
  · exact (ensures_parenthesized ht).weaken
  split
  · exact ensures_ok (List.forall_mem_nil _) ht.tail
  split
  · exact (ensures_bareParameters _ rfl ht).weaken
  · exact ensures_ok (List.forall_mem_nil _) ht

theorem ensures_body (ht : HasKnownTypes ts) :
    (body ts).Ensures fun b => AllKnownIn b.statements :=
  ensures_block (fun _ _ hus => ensures_bareStatement _ rfl hus) ts _ ht

theorem ensures_markedFunction (ht : HasKnownTypes ts) :
    (markedFunction ts).Ensures fun f => (Declaration.function f).HasKnownParts := by
  refine (ensures_typeName _ ht).andThen fun _ htype hr => ?_
  refine (ensures_name hr).andThen fun _ _ hr => ?_
  refine (ensures_markedParameters hr).andThen fun _ hps hr => ?_
  exact (ensures_body hr).andThen fun _ hb hr => ensures_ok ⟨⟨htype, hps⟩, hb⟩ hr

theorem ensures_typeLed (ht : HasKnownTypes ts) :
    (typeLed ts).Ensures Declaration.HasKnownParts := by
  refine (ensures_typeName _ ht).andThen fun _ htype hr => ?_
  refine (ensures_name hr).andThen fun _ _ hr => ?_
  split
  · refine (ensures_parenthesized hr).andThen fun _ hps hr => ?_
    exact (ensures_body hr).andThen fun _ hb hr => ensures_ok ⟨⟨htype, hps⟩, hb⟩ hr
  · refine (ensures_variableRest htype hr).andThen fun _ hv hr => ensures_ok ⟨trivial, ?_⟩ hr
    exact List.forall_mem_singleton.mpr hv

theorem ensures_declaration (ht : HasKnownTypes ts) :
    (declaration ts).Ensures Declaration.HasKnownParts := by
  unfold declaration
  split
  · exact (ensures_statement ht).andThen fun _ hs hr => ensures_ok ⟨trivial, hs⟩ hr
  split
  · exact (ensures_markedFunction ht.tail).terminated.andThen fun _ hf hr => ensures_ok hf hr
  split
  · exact (ensures_typeLed ht).terminated
  · exact (ensures_statement ht).andThen fun _ hs hr => ensures_ok ⟨trivial, hs⟩ hr

theorem hasKnownParts_of_declarations (k : Nat) : ∀ {ts : List Token} {program : Program},
    ts.length = k → HasKnownTypes ts → declarations ts = .ok program →
      ∀ d ∈ program, d.HasKnownParts := by
  induction k using Nat.strongRecOn with
  | _ k ih =>
    intro ts program hk ht h
    unfold declarations at h
    split at h
    · cases h
      exact List.forall_mem_nil _
    · split at h
      · cases h
      · rename_i d rest shorter hd
        obtain ⟨hknown, hr⟩ := ensures_declaration ht d rest ⟨shorter, hd⟩
        cases hrest : declarations rest with
        | error problem =>
          rw [hrest] at h
          cases h
        | ok others =>
          rw [hrest] at h
          cases h
          exact List.forall_mem_cons.mpr ⟨hknown, ih _ (hk ▸ shorter) rfl hr hrest⟩

end Programs

end KanaScript.Grammar

namespace KanaScript

/-- A program read from known types has known parts. -/
theorem hasKnownParts_of_parse {ts : List Token} {program : Program}
    (types : Grammar.HasKnownTypes ts) (parsed : parse ts = .ok program) :
    ∀ d ∈ program, d.HasKnownParts := by
  have hpending : Grammar.HasKnownTypes (TokenStream.ofTokens ts).pending := fun t ht =>
    types t ((List.takeWhile_sublist _).subset ht)
  rw [parse, TokenStream.program] at parsed
  split at parsed
  · rename_i found hfound
    cases parsed
    exact Grammar.hasKnownParts_of_declarations _ rfl hpending hfound
  · cases parsed

end KanaScript
