import KanaScript.Proofs.Grammar.Prediction
import KanaScript.Proofs.Grammar.Program

/-! Statements and declarations are read with one token of lookahead, so that a program fails at the
first token at which no program goes on. -/

namespace KanaScript.Grammar

namespace Action

variable {α β : Type} {n : Nat} {follow entry : List Token → Prop}

/-- Nothing follows, or a closing brace: the end of any statement. -/
def Closed (after : List Token) : Prop := ∀ t ∈ after.head?, t.kind = .closeBrace

theorem Closed.stops {tier : Tier} {after : List Token} (h : Closed after) : Stops tier after := by
  cases after with
  | nil => simp [Stops]
  | cons t us =>
    have ht : t.kind = .closeBrace := h t rfl
    exact stops_cons (by simp [ht]) (by simp [ht]) (by simp [ht])

theorem Closed.not {accepts : Token → Prop} {after : List Token} (h : Closed after)
    (hk : ∀ t, accepts t → t.kind ≠ .closeBrace) : ∀ t ∈ after.head?, ¬accepts t :=
  fun t ht hacc => hk t hacc (h t ht)

theorem isWord_kind {t : Token} {kind : TokenKind} {text : String} (h : t.isWord kind text = true) :
    t.kind = kind := by
  simp only [Token.isWord, Bool.and_eq_true, beq_iff_eq] at h
  exact h.1

/-- A token of the kind follows. -/
def Heads (kind : TokenKind) (after : List Token) : Prop := ∃ t ∈ after.head?, t.kind = kind

theorem LeadsWith.heads {kind : TokenKind} {ts : List Token} (h : LeadsWith kind ts) :
    Heads kind ts := ⟨.sample kind, h, rfl⟩

theorem Heads.any {kind : TokenKind} {after : List Token} (h : Heads kind after) :
    after.head?.any (·.kind = kind) = true := by
  obtain ⟨t, ht, hk⟩ := h
  rw [Option.mem_def.mp ht]
  simpa using hk

theorem Heads.not {kind : TokenKind} {after : List Token} {accepts : Token → Prop}
    (h : Heads kind after) (hk : ∀ t, accepts t → t.kind ≠ kind) :
    ∀ t ∈ after.head?, ¬accepts t := by
  obtain ⟨u, hu, hkind⟩ := h
  intro t ht hacc
  obtain rfl : u = t := Option.mem_unique hu ht
  exact hk u hacc hkind

theorem Heads.stops {kind : TokenKind} {tier : Tier} {after : List Token} (h : Heads kind after)
    (ho : kind ≠ .operator) (hp : kind ≠ .openParen) (hb : kind ≠ .openBracket) :
    Stops tier after := by
  obtain ⟨t, ht, rfl⟩ := h
  obtain ⟨us, rfl⟩ := List.head?_eq_some_iff.mp ht
  exact stops_cons ho hp hb

section Variables

/-- What may follow an expression is none of the tokens that go on with a variable. -/
theorem stops_variable {after : List Token} (h : Stops .assignment after) :
    ∀ t ∈ after.head?, t.kind ≠ .openParen ∧ t.kind ≠ .openBracket ∧
      ¬t.isWord .operator "=" = true := by
  intro t ht
  have hstop := h t ht
  simp only [Tier.continues, continuesOperand, Bool.or_eq_false_iff, beq_eq_false_iff_ne,
    isOperator_equals] at hstop
  exact ⟨hstop.2.1.1, hstop.2.1.2, by simp [hstop.1.1]⟩

theorem predictive_sizeSuffix :
    Predictive n (Stops .assignment) (Stops .assignment) sizeSuffix := by
  have sized : Predictive n (Stops .assignment) (LeadsWith .identifier)
      (do let _ ← expression; let _ ← expect .closeBracket .sizeClose; return arraySuffix) :=
    (predictive_expression n).bind fun _ => .expect nofun (fun ts h => h.stops nofun nofun nofun)
      fun _ => .pure fun _ _ => trivial
  refine .takeIf (fun _ _ _ => ?_)
    (.pure fun after h => ⟨h, fun t ht => (stops_variable h t ht).2.1⟩)
  exact (Predictive.takeIf (fun _ _ _ => .pure fun _ _ => trivial)
    (.leading (by simp) sized)).anywhere

theorem predictive_variableRest {type name : String} {position : Position} :
    Predictive n (Stops .assignment) (Stops .assignment) (variableRest type name position) := by
  refine predictive_sizeSuffix.bind fun suffix => ?_
  refine .takeIf (fun _ _ _ => (predictive_expression n).anywhere.map) (.pure fun after h => ?_)
  exact ⟨h, fun t ht => (stops_variable h t ht).2.2⟩

theorem predictive_typedVariable {type : Token} :
    Predictive n (Stops .assignment) (LeadsWith .identifier) (typedVariable type) :=
  .name fun _ => predictive_variableRest.anywhere

theorem predictive_optionalExpression (ending : TokenKind) (ho : ending ≠ .operator)
    (hp : ending ≠ .openParen) (hb : ending ≠ .openBracket) (hi : ending ≠ .identifier) :
    Predictive n (Heads ending) (fun _ => True) (optionalExpression ending) := by
  refine .stopIf .identifier (fun after h => ⟨trivial, h.any⟩) (by simp [hi.symm])
    ((predictive_expression n).mono (fun _ h => h.stops ho hp hb) fun _ => id).map

theorem predictive_forInit : Predictive n (Heads .comma) (fun _ => True) forInit := by
  refine .stopIf .identifier (fun after h => ⟨trivial, h.any⟩) (by simp) ?_
  refine .takeIf (fun _ _ _ => ?_) (.leading (by simp) ?_)
  · refine (predictive_typedVariable.mono ?_ fun _ => id).anywhere.map
    exact fun _ h => h.stops nofun nofun nofun
  · exact ((predictive_expression n).mono (fun _ h => h.stops nofun nofun nofun) fun _ => id).map

theorem predictive_forClauses : Predictive n follow (fun _ => True) forClauses := by
  refine predictive_forInit.bind fun init => .expect nofun (fun _ => LeadsWith.heads) fun _ => ?_
  refine (predictive_optionalExpression .comma nofun nofun nofun nofun).bind fun condition =>
    .expect nofun (fun _ => LeadsWith.heads) fun _ => ?_
  refine (predictive_optionalExpression .closeParen nofun nofun nofun nofun).bind fun update =>
    .expect nofun (fun _ => LeadsWith.heads) fun _ => ?_
  exact .pure fun _ _ => trivial

theorem predictive_forHead : Predictive n (Stops .assignment) (LeadsWith .identifier) forHead :=
  .takeIf (fun _ _ _ => predictive_forClauses)
    (.leading (by simp) (predictive_expression n).map)

end Variables

/-- The terminator after an action may be missing. -/
theorem Predictive.terminated {action : Action α} {middle : List Token → Prop}
    (h : Predictive n middle entry action)
    (hf : ∀ after, follow after → middle after ∧ ∀ t ∈ after.head?, t.kind ≠ .semicolon) :
    Predictive n follow entry (terminated action) := by
  have hterminator : Predictive n follow middle terminator :=
    .takeIf (fun _ _ _ => .pure fun _ _ => trivial) (.pure hf)
  exact h.bind fun v => hterminator.bind fun _ => .pure fun _ => id

/-- A condition before the statement that it governs. -/
theorem predictive_condition {m : Nat} :
    Predictive m (LeadsWith .identifier) (LeadsWith .identifier) expression :=
  (predictive_expression m).mono (fun _ h => h.stops nofun nofun nofun) fun _ => id

section Statements

/-! The hypothesis `nested` is the statement about the statements nested in the one being read. -/

variable (nested : Predictive n Closed (LeadsWith .identifier) bareStatement)

include nested

theorem predictive_statement : Predictive n Closed (LeadsWith .identifier) statement :=
  nested.terminated fun after h => ⟨h, h.not fun t ht => by simp [ht]⟩

theorem predictive_statements {stop : Token → Bool} {m : Nat} (hm : m ≤ n)
    (hstop : ∀ t, t.kind = .closeBrace → stop t = true)
    (hname : stop (.sample .identifier) = false) :
    Predictive m Closed Closed (statements stop) := by
  have hclosed : ∀ after, Closed after → after.head?.all stop = true := by
    intro after hafter
    cases after with
    | nil => rfl
    | cons t us => exact hstop t (hafter t rfl)
  induction m with
  | zero => exact .zero
  | succ m ih =>
    have hstart : ∀ s : Stmt,
        Completes Closed Closed (do let ss ← statements stop; return s :: ss) [] := by
      intro s
      refine ⟨[], [s], nofun, fun after hafter => ⟨fun _ => hafter, ?_⟩⟩
      have hrun : (statements stop).run after = .ok [] after := by
        rw [statements_eq]
        exact if_pos (hclosed after hafter)
      exact bind_of_ok hrun
    rw [statements_eq]
    refine .stopIf .identifier (fun after h => ⟨h, hclosed after h⟩) (by simp [hname]) ?_
    exact ((predictive_statement nested).below hm).bind_below hstart below_of_statement
      fun s => (ih (by omega)).map

theorem predictive_openedBlock {opening : Token} :
    Predictive n follow (fun _ => True) (openedBlock opening) := by
  refine (predictive_statements nested (Nat.le_refl n) ?_ rfl).anywhere.bind fun body => ?_
  · exact fun t ht => by simp [ht]
  refine .expect nofun (fun ts h t ht => ?_) fun _ => .pure fun _ _ => trivial
  rw [h.head_eq ht]
  rfl

theorem predictive_ifElse {m : Nat} (hm : m ≤ n) (position : Position) :
    Predictive m Closed (LeadsWith .identifier) (ifElse position) := by
  induction m generalizing position with
  | zero => exact .zero
  | succ m ih =>
    have hstatement := predictive_statement nested
    refine predictive_condition.bind fun condition => ?_
    refine (hstatement.below hm).bind fun consequent => ?_
    refine .takeIf_below (fun _ _ _ => ?_) (.pure fun after h => ⟨h, h.not fun t ht => ?_⟩)
    · have halternative : Predictive m Closed (LeadsWith .identifier) alternative := by
        rw [alternative_eq]
        exact .takeIf (fun t _ _ => (ih (by omega) t.position).anywhere)
          (.leading (by simp) (hstatement.below (by omega)))
      exact halternative.anywhere.map
    · simp [isWord_kind ht]

theorem predictive_whileLoop (position : Position) :
    Predictive n Closed (LeadsWith .identifier) (whileLoop position) :=
  predictive_condition.bind fun _ => (predictive_statement nested).map

theorem predictive_forLoop (position : Position) :
    Predictive n Closed (LeadsWith .identifier) (forLoop position) := by
  have hhead := (predictive_forHead (n := n)).mono
    (fun _ (h : LeadsWith .identifier _) => h.stops nofun nofun nofun) fun _ => id
  exact hhead.bind fun _ => (predictive_statement nested).map

theorem predictive_clauses {m : Nat} (hm : m ≤ n) (seen : Bool) :
    Predictive m Closed Closed (clauses seen) := by
  induction m generalizing seen with
  | zero => exact .zero
  | succ m ih =>
    have hstatements : Predictive m Closed Closed (statements endsClause) :=
      predictive_statements nested (by omega) (fun t ht => by simp [endsClause, ht]) rfl
    have hno : ∀ {keyword : String} {after : List Token}, Closed after →
        ∀ t ∈ after.head?, ¬t.isWord .controlKeyword keyword = true :=
      fun h => h.not fun t ht => by simp [isWord_kind ht]
    rw [clauses_eq]
    refine .takeIf_below (fun _ _ _ => ?_) ?_
    · refine (predictive_expression m).anywhere.bind fun value => ?_
      refine .expect nofun (fun ts h => h.stops nofun nofun nofun) fun _ => ?_
      exact hstatements.anywhere.bind fun body => (ih (by omega) seen).map
    cases seen with
    | true => exact .refuse nofun (.pure fun after h => ⟨⟨h, hno h⟩, hno h⟩)
    | false =>
      refine .takeIf_below (fun _ _ _ => ?_) (.pure fun after h => ⟨⟨h, hno h⟩, hno h⟩)
      refine .expect nofun (fun _ _ => trivial) fun _ => ?_
      exact hstatements.anywhere.bind fun body => (ih (by omega) true).map

theorem predictive_switch (position : Position) :
    Predictive n follow (LeadsWith .identifier) (switch position) := by
  refine (predictive_expression n).bind fun subject => ?_
  refine .expect nofun (fun ts h => h.stops nofun nofun nofun) fun _ => ?_
  refine (predictive_clauses nested (Nat.le_refl n) false).anywhere.bind fun found => ?_
  refine .expect nofun (fun ts h t ht => ?_) fun _ => .pure fun _ _ => trivial
  rw [h.head_eq ht]
  rfl

end Statements

theorem predictive_returns (position : Position) :
    Predictive n Closed (fun _ => True) (returns position) := by
  refine .stopIf .identifier (fun after h => ⟨trivial, ?_⟩) (by decide) ?_
  · cases after with
    | nil => rfl
    | cons t us =>
      have ht : t.kind = .closeBrace := h t rfl
      simp [endsReturn, ht]
  · exact ((predictive_expression n).mono (fun _ => Closed.stops) fun _ => id).map

/-- What an expression statement starts at does not depend on what follows the expression. -/
theorem run_expressionStatement {used others : List Token} {e : Expr}
    (h : expression.run (used ++ others) = .ok e others) :
    used ≠ [] ∧ expressionStatement.run (used ++ others) =
      .ok (.expression e (here used)) others := by
  have hshort := (Reading.result_eq_ok_iff.mp h).shorter
  cases used with
  | nil => exact absurd hshort (Nat.lt_irrefl _)
  | cons t us => exact ⟨nofun, bind_of_ok h⟩

theorem predictive_expressionStatement :
    Predictive n Closed (LeadsWith .identifier) expressionStatement := by
  intro ts hlt hproper
  cases predictive_expression n ts hlt hproper with
  | done used rest e split settled enters =>
    have hused := (run_expressionStatement (settled rest (.inl rfl))).1
    refine .done used rest (.expression e (here used)) split (fun others h => ?_) fun h =>
      absurd h hused
    exact (run_expressionStatement (settled others (h.imp_right Closed.stops))).2
  | stuck used rest problem split placed settled completes =>
    refine .stuck used rest problem split placed
      (fun others h => bind_of_error (settled others h)) ?_
    obtain ⟨more, e, hmore, hafter⟩ := completes
    refine ⟨more, .expression e (here (used ++ more)), hmore, fun after hclosed => ?_⟩
    obtain ⟨hentry, hrun⟩ := hafter after hclosed.stops
    rw [← List.append_assoc] at hrun ⊢
    exact ⟨hentry, (run_expressionStatement hrun).2⟩

theorem predictive_bareStatement (n : Nat) :
    Predictive n Closed (LeadsWith .identifier) bareStatement := by
  induction n with
  | zero => exact .zero
  | succ n nested =>
    rw [bareStatement_eq]
    refine .takeIf_below (fun _ _ _ => (predictive_openedBlock nested).map) (.leading (by simp) ?_)
    refine .takeIf_below (fun t _ _ => ?_) (.leading (by simp) ?_)
    · exact (predictive_ifElse nested (Nat.le_refl n) t.position).anywhere
    refine .takeIf_below (fun t _ _ => ?_) (.leading (by simp) ?_)
    · exact (predictive_whileLoop nested t.position).anywhere
    refine .takeIf_below (fun t _ _ => ?_) (.leading (by simp) ?_)
    · exact (predictive_forLoop nested t.position).anywhere
    refine .takeIf_below (fun t _ _ => ?_) (.leading (by simp) ?_)
    · exact (predictive_switch nested t.position).anywhere
    refine .takeIf_below (fun t _ _ => predictive_returns t.position) (.leading (by simp) ?_)
    refine .takeIf_below (fun _ _ _ => .pure fun _ _ => trivial) (.leading (by simp) ?_)
    refine .takeIf_below (fun _ _ _ => .pure fun _ _ => trivial) (.leading (by simp) ?_)
    refine .takeIf_below (fun _ _ _ => ?_) (.leading (by simp) predictive_expressionStatement)
    exact (predictive_typedVariable.mono (fun _ => Closed.stops) fun _ => id).anywhere.map

section Programs

/-- A block needs but its braces. -/
theorem completes_openedBlock {opening : Token} :
    Completes follow (fun _ => True) (openedBlock opening) [] :=
  (predictive_openedBlock (predictive_bareStatement 1) [] Nat.one_pos nofun).completes

theorem predictive_block : Predictive n follow (LeadsWith .openBrace) block :=
  .take .openBrace rfl nofun nofun completes_openedBlock fun _ _ =>
    predictive_openedBlock (predictive_bareStatement n)

theorem predictive_parameter : Predictive n follow (LeadsWith .typeKeyword) parameter := by
  have hname : ∀ {m : Nat} {type : Token}, Predictive m follow (LeadsWith .identifier)
      (do let name ← name; return (⟨type.text, name, type.position⟩ : Parameter)) :=
    predictive_name.map
  exact .take .typeKeyword rfl nofun nofun ((hname.anywhere [] Nat.one_pos nofun).completes)
    fun _ _ => hname.anywhere

theorem predictive_parameterList :
    Predictive n (fun after => ∀ t ∈ after.head?, t.kind ≠ .comma) (LeadsWith .typeKeyword)
      parameterList := by
  induction n with
  | zero => exact .zero
  | succ n ih =>
    rw [parameterList_eq]
    have hfirst : Predictive (n + 1) (fun _ => True) _ parameter := predictive_parameter
    refine hfirst.bind fun p => ?_
    exact .takeIf_below (fun _ _ _ => ih.anywhere.map) (.pure fun after h => ⟨trivial, h⟩)

theorem predictive_closedParameters :
    Predictive n follow (LeadsWith .typeKeyword) closedParameters := by
  refine predictive_parameterList.bind fun ps => ?_
  refine .expect nofun (fun ts h t ht => ?_) fun _ => .pure fun _ _ => trivial
  rw [h.head_eq ht]
  exact nofun

/-- Where `void` stands alone in the parentheses, there is no list of parameters. -/
theorem run_closedParameters_of_isVoidClose {ts : List Token} (h : isVoidClose ts = true) :
    closedParameters.run ts = .error (.expected .name) (ts.drop 1) := by
  obtain ⟨t, u, us, rfl, ht, hu⟩ := isVoidClose_iff.mp h
  have hname : name.run (u :: us) = .error (.expected .name) (u :: us) := by
    refine run_takeIf_neg fun v hv => ?_
    obtain rfl : u = v := Option.some.inj hv
    simp [hu]
  have hparameter : parameter.run (t :: u :: us) = .error (.expected .name) (u :: us) :=
    (run_takeIf_pos (isWord_kind ht)).trans (bind_of_error hname)
  have hlist : parameterList.run (t :: u :: us) = .error (.expected .name) (u :: us) := by
    rw [parameterList_eq, bind_of_error hparameter]
  exact bind_of_error hlist

/-- The word `void` alone takes two tokens to tell, but the second one is no name either way. -/
theorem predictive_voidOrParameters :
    Predictive n follow (LeadsWith .typeKeyword) voidOrParameters := by
  have hlist : ∀ {us : List Token}, isVoidClose us = false →
      voidOrParameters.run us = closedParameters.run us := by
    intro us hus
    exact if_neg (by simp [hus])
  have hok : ∀ {us rest : List Token} {ps : List Parameter},
      closedParameters.run us = .ok ps rest → voidOrParameters.run us = .ok ps rest := by
    intro us rest ps hrun
    cases hvoid : isVoidClose us with
    | false => rw [hlist hvoid, hrun]
    | true => cases (run_closedParameters_of_isVoidClose hvoid).symm.trans hrun
  intro ts hlt hproper
  by_cases hvoid : isVoidClose ts = true
  · obtain ⟨t, u, us, rfl, ht, hu⟩ := isVoidClose_iff.mp hvoid
    refine .done [t, u] us [] rfl (fun others _ => ?_) nofun
    exact if_pos (isVoidClose_iff.mpr ⟨t, u, others, rfl, ht, hu⟩)
  cases predictive_closedParameters ts hlt hproper with
  | done used rest ps split settled enters =>
    exact .done used rest ps split (fun others h => hok (settled others h)) enters
  | stuck used rest problem split placed settled completes =>
    refine .stuck used rest problem split placed (fun others h => ?_) ?_
    · have hrun := settled others h
      cases hother : isVoidClose (used ++ others) with
      | false => rw [hlist hother, hrun]
      | true =>
        -- the problem would be at the second token, so that only `void` was used
        rw [run_closedParameters_of_isVoidClose hother] at hrun
        obtain ⟨t, u, us, heq, ht, hu⟩ := isVoidClose_iff.mp hother
        obtain rfl : u :: us = others := by
          rw [heq] at hrun
          exact (EStateM.Result.error.inj hrun).2
        obtain rfl : used = [t] := (List.append_left_inj (u :: us)).mp heq
        obtain ⟨vs, rfl⟩ := List.head?_eq_some_iff.mp h.symm
        exact absurd (split ▸ isVoidClose_iff.mpr ⟨t, u, vs, rfl, ht, hu⟩) hvoid
    · obtain ⟨more, ps, hmore, hafter⟩ := completes
      refine ⟨more, ps, hmore, fun after hfollow => ?_⟩
      obtain ⟨hentry, hrun⟩ := hafter after hfollow
      exact ⟨hentry, hok hrun⟩

theorem predictive_openedParameters : Predictive n follow (fun _ => True) openedParameters :=
  (Predictive.takeIf (fun _ _ _ => .pure fun _ _ => trivial)
    (.leading (by simp) predictive_voidOrParameters)).anywhere

/-- Parameters without parentheses, after the first type, up to the body. -/
theorem predictive_typedParameters (type : Token) :
    Predictive n (Heads .openBrace) (fun _ => True) (typedParameters type) := by
  induction n generalizing type with
  | zero => exact .zero
  | succ n ih =>
    have hothers : Predictive n (Heads .openBrace) (LeadsWith .typeKeyword) bareParameters := by
      rw [bareParameters_eq]
      refine .take .typeKeyword rfl nofun nofun
        ⟨[], [], nofun, fun after h => ⟨fun _ => trivial, ?_⟩⟩ fun t _ => ih t
      exact if_pos h.any
    refine .stopIf .identifier (fun after h => ⟨trivial, h.any⟩) (by simp) (.name fun text => ?_)
    refine .takeIf_below (fun _ _ _ => hothers.anywhere.map) (.pure fun after h => ⟨trivial, ?_⟩)
    exact h.not fun t ht => by simp [ht]

theorem predictive_markedParameters :
    Predictive n (Heads .openBrace) (fun _ => True) markedParameters := by
  refine .takeIf (fun _ _ _ => predictive_openedParameters) ?_
  refine .takeIf (fun _ _ _ => .pure fun _ _ => trivial) ?_
  refine .takeIf (fun t _ _ => predictive_typedParameters t) (.pure fun after h => ?_)
  exact ⟨⟨⟨trivial, h.not fun t ht => by simp [ht]⟩, h.not fun t ht => by simp [isWord_kind ht]⟩,
    h.not fun t ht => by simp [ht]⟩

theorem predictive_markedFunction :
    Predictive n follow (LeadsWith .typeKeyword) markedFunction := by
  have hrest : ∀ {m : Nat} {type : Token}, Predictive m follow (fun _ => True) (do
      let name ← name
      let parameters ← markedParameters
      let body ← block
      return (⟨type.text, name, parameters, body, type.position⟩ : Function)) := by
    intro m type
    refine (Predictive.name fun text => ?_).anywhere
    refine predictive_markedParameters.bind fun parameters => ?_
    exact (predictive_block.mono (fun _ => id) fun _ => LeadsWith.heads).map
  exact .take .typeKeyword rfl nofun nofun (hrest [] Nat.one_pos nofun).completes fun _ _ => hrest

theorem predictive_typedDeclaration (type : Token) :
    Predictive n (Stops .assignment) (LeadsWith .identifier) (typedDeclaration type) := by
  refine .name fun text => .takeIf (fun _ _ _ => ?_) ?_
  · have hparameters : Predictive n (fun _ => True) _ openedParameters :=
      predictive_openedParameters
    exact hparameters.bind fun parameters => predictive_block.anywhere.map
  · refine (predictive_variableRest.mono (fun _ => id) fun after h => ⟨trivial, fun t ht => ?_⟩).map
    exact (stops_variable h t ht).1

/-- A declaration may end the program. -/
theorem predictive_declaration :
    Predictive n (fun after => after = []) (fun _ => True) declaration := by
  refine .takeIf (fun _ _ _ => ?_) (.takeIf (fun t _ _ => ?_) ?_)
  · have hfunction : Predictive n (fun _ => True) _ markedFunction := predictive_markedFunction
    exact (hfunction.terminated fun after h => ⟨trivial, by simp [h]⟩).anywhere.map
  · refine ((predictive_typedDeclaration t).terminated fun after h => ?_).anywhere
    simp [h, Stops]
  · have hstatement := predictive_statement (predictive_bareStatement n)
    refine (hstatement.mono (fun after h => by simp [h, Closed]) fun after h => ?_).map
    exact ⟨⟨trivial, (h.and_not (by simp)).2⟩, (h.and_not (by simp)).2⟩

end Programs

end Action

open KanaScript.Grammar.Action

/-- Where declarations cannot be read, the next token alone is to blame, and what stands before it
can be completed; nothing is needed at the start of a declaration. -/
theorem declarations_stuck (n : Nat) : ∀ {ts rest : List Token} {problem : Problem},
    ts.length < n → (∀ t ∈ ts, t.IsProper) → declarations ts = .error (problem, rest) →
    ∃ used, ts = used ++ rest ∧ (∀ t, problem ≠ .malformedNumber t) ∧
      (∀ others : List Token, others.head? = rest.head? →
        declarations (used ++ others) = .error (problem, others)) ∧
      ∃ more program, (used = [] → more = []) ∧ (∀ t ∈ more, t.kind ≠ .eof) ∧
        declarations (used ++ more) = .ok program := by
  induction n with
  | zero => exact fun hlt => absurd hlt (Nat.not_lt_zero _)
  | succ n ih =>
    intro ts rest problem hlt hproper hfailed
    have hne : ts ≠ [] := by
      rintro rfl
      rw [declarations_eq] at hfailed
      cases hfailed
    cases predictive_declaration (n := n + 1) ts hlt hproper with
    | stuck used rest' problem' split placed settled completes =>
      have hrun := declarations_of_error hne (split ▸ settled rest' rfl)
      obtain ⟨rfl, rfl⟩ : problem' = problem ∧ rest' = rest := by
        simpa using hrun.symm.trans hfailed
      refine ⟨used, split, placed, fun others h => ?_, ?_⟩
      · refine declarations_of_error (fun hnil => hne ?_) (settled others h)
        obtain ⟨rfl, rfl⟩ := List.append_eq_nil_iff.mp hnil
        rw [split, List.head?_eq_none_iff.mp h.symm, List.append_nil]
      · by_cases hu : used = []
        · subst hu
          exact ⟨[], [], fun _ => rfl, nofun, by rw [declarations_eq]; rfl⟩
        · obtain ⟨more, d, hmore, hafter⟩ := completes
          refine ⟨more, [d], fun h => absurd h hu, hmore, ?_⟩
          have hlast := (hafter [] rfl).2
          rw [List.append_nil] at hlast
          rw [declarations_of_ok hlast, declarations_eq]
          rfl
    | done used rest' d split settled enters =>
      have hrun : Action.declaration.run ts = .ok d rest' := split ▸ settled rest' (.inl rfl)
      have hshort := length_of_declaration hrun
      have hrest : declarations rest' = .error (problem, rest) := by
        rw [declarations_of_ok hrun] at hfailed
        cases hd : declarations rest' with
        | ok program => simp [hd, Except.map] at hfailed
        | error failure => simpa [hd, Except.map] using hfailed
      have hproper' : ∀ t ∈ rest', t.IsProper := fun t ht =>
        hproper t (split ▸ List.mem_append_right used ht)
      obtain ⟨used', split', placed, settled', more, program, hstart, hmore, hlast⟩ :=
        ih (by omega) hproper' hrest
      have hused : used ≠ [] := by
        rintro rfl
        rw [split, List.nil_append] at hshort
        omega
      refine ⟨used ++ used', by rw [split, split', List.append_assoc], placed, fun others h => ?_,
        more, d :: program, fun h => absurd (List.append_eq_nil_iff.mp h).1 hused, hmore, ?_⟩
      · have hnext : (used' ++ others).head? = rest'.head? := by
          rw [split', List.head?_append, List.head?_append, h]
        rw [List.append_assoc, declarations_of_ok (settled _ (.inl hnext)), settled' others h]
        rfl
      · have hnext : (used' ++ more).head? = rest'.head? ∨ used' ++ more = [] := by
          by_cases hu : used' = []
          · exact .inr (by rw [hu, hstart hu, List.nil_append])
          · exact .inl (split' ▸ Predicts.head?_append_congr hu more rest)
        rw [List.append_assoc, declarations_of_ok (settled _ hnext), hlast]
        rfl

end KanaScript.Grammar
