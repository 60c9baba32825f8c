import KanaScript.Proofs.Grammar.ProgramAction
import KanaScript.Proofs.Tree.Relocation

/-! Reading does not depend on positions: tokens with their positions changed are read as the same
tree with its positions changed, or refused at the same token for the same reason. -/

namespace KanaScript

namespace Grammar

variable {f : Position → Position}

/-- The problem with the position of the token in it changed. -/
def Problem.move (f : Position → Position) : Problem → Problem
  | malformedNumber token => malformedNumber (token.move f)
  | problem => problem

/-- The head with all positions in it changed. -/
def ForHead.move (f : Position → Position) (head : ForHead) : ForHead :=
  ⟨head.init.map (ForInit.move f), head.condition.map (Expr.move f), head.update.map (Expr.move f)⟩

namespace Action

variable {α β : Type} {n : Nat} {g : α → α}

/-- What the second action does on `ts` with the positions changed is what the first one does on
`ts`, with the positions changed in the value, which `g` does, and in what is left. -/
inductive MovesOn (f : Position → Position) (g : α → α) (action moved : Action α)
    (ts : List Token) : Prop
  | ok {value : α} {rest : List Token} (run : action.run ts = .ok value rest)
      (moves : moved.run (ts.map (Token.move f)) = .ok (g value) (rest.map (Token.move f)))
      (le : rest.length ≤ ts.length)
  | error {problem : Problem} {rest : List Token} (run : action.run ts = .error problem rest)
      (moves : moved.run (ts.map (Token.move f)) =
        .error (problem.move f) (rest.map (Token.move f)))

theorem MovesOn.congr {action moved other other' : Action α} {ts us : List Token}
    (h : MovesOn f g action moved us) (hrun : other.run ts = action.run us)
    (hmoves : other'.run (ts.map (Token.move f)) = moved.run (us.map (Token.move f)))
    (hle : us.length ≤ ts.length) : MovesOn f g other other' ts := by
  cases h with
  | ok run moves le => exact .ok (hrun.trans run) (hmoves.trans moves) (Nat.le_trans le hle)
  | error run moves => exact .error (hrun.trans run) (hmoves.trans moves)

/-- The actions do so on fewer than `n` tokens. -/
def Moves (n : Nat) (f : Position → Position) (g : α → α) (action moved : Action α) : Prop :=
  ∀ ts, ts.length < n → MovesOn f g action moved ts

namespace Moves

variable {action moved : Action α}

theorem zero : Moves 0 f g action moved := by
  intro ts hlt
  exact absurd hlt (Nat.not_lt_zero _)

theorem below {m : Nat} (h : Moves n f g action moved) (hm : m ≤ n) : Moves m f g action moved := by
  intro ts hlt
  exact h ts (by omega)

protected theorem pure {v w : α} (h : w = g v) : Moves n f g (pure v) (pure w) := by
  intro ts _
  exact .ok rfl (by rw [h]; rfl) (Nat.le_refl _)

protected theorem throw {problem other : Problem} (h : other = problem.move f) :
    Moves n f g (throw problem) (throw other) := by
  intro ts _
  exact .error rfl (by rw [h]; rfl)

/-- What the first action leaves is below a bound of its own. -/
theorem bind_below {m : Nat} {g' : β → β} {first first' : Action α} {second second' : α → Action β}
    (hfirst : Moves n f g first first')
    (hbelow : ∀ ts v rest, ts.length < n → first.run ts = .ok v rest → rest.length < m)
    (hsecond : ∀ v, Moves m f g' (second v) (second' (g v))) :
    Moves n f g' (first >>= second) (first' >>= second') := by
  intro ts hlt
  cases hfirst ts hlt with
  | error run moves => exact .error (bind_of_error run) (bind_of_error moves)
  | @ok v middle run moves le =>
    cases hsecond v middle (hbelow ts v middle hlt run) with
    | error run' moves' =>
      exact .error ((bind_of_ok run).trans run') ((bind_of_ok moves).trans moves')
    | ok run' moves' le' =>
      exact .ok ((bind_of_ok run).trans run') ((bind_of_ok moves).trans moves')
        (Nat.le_trans le' le)

protected theorem bind {g' : β → β} {first first' : Action α} {second second' : α → Action β}
    (hfirst : Moves n f g first first')
    (hsecond : ∀ v, Moves n f g' (second v) (second' (g v))) :
    Moves n f g' (first >>= second) (first' >>= second') := by
  refine hfirst.bind_below (fun ts v rest hlt run => ?_) hsecond
  cases hfirst ts hlt with
  | error run' moves => cases run.symm.trans run'
  | ok run' moves le =>
    cases run.symm.trans run'
    omega

/-- An action whose value is changed last. -/
theorem map {g' : β → β} {k k' : α → β} (h : Moves n f g action moved)
    (hk : ∀ v, k' (g v) = g' (k v)) :
    Moves n f g' (do return k (← action)) (do return k' (← moved)) :=
  h.bind fun v => .pure (hk v)

section

variable {accepts : Token → Prop} [DecidablePred accepts] {taken taken' : Token → Action α}
  {otherwise otherwise' : Action α} {problem : Problem}

theorem takeIf_below (haccepts : ∀ t : Token, accepts (t.move f) ↔ accepts t)
    (htaken : ∀ t, accepts t → Moves n f g (taken t) (taken' (t.move f)))
    (hother : Moves (n + 1) f g otherwise otherwise') :
    Moves (n + 1) f g (takeIf accepts taken otherwise) (takeIf accepts taken' otherwise') := by
  intro ts hlt
  cases ts with
  | nil => exact (hother [] hlt).congr rfl rfl (Nat.le_refl _)
  | cons t rest =>
    by_cases ht : accepts t
    · refine (htaken t ht rest (Nat.lt_of_succ_lt_succ hlt)).congr (if_pos ht) ?_ (Nat.le_succ _)
      exact if_pos ((haccepts t).mpr ht)
    · refine (hother (t :: rest) hlt).congr (if_neg ht) ?_ (Nat.le_refl _)
      exact if_neg (mt (haccepts t).mp ht)

protected theorem takeIf (haccepts : ∀ t : Token, accepts (t.move f) ↔ accepts t)
    (htaken : ∀ t, accepts t → Moves n f g (taken t) (taken' (t.move f)))
    (hother : Moves n f g otherwise otherwise') :
    Moves n f g (takeIf accepts taken otherwise) (takeIf accepts taken' otherwise') := by
  cases n with
  | zero => exact zero
  | succ n =>
    exact takeIf_below haccepts (fun t ht => (htaken t ht).below (Nat.le_succ n)) hother

protected theorem take (haccepts : ∀ t : Token, accepts (t.move f) ↔ accepts t)
    (hproblem : problem = problem.move f)
    (htaken : ∀ t, accepts t → Moves n f g (taken t) (taken' (t.move f))) :
    Moves n f g (take accepts problem taken) (take accepts problem taken') :=
  .takeIf haccepts htaken (.throw hproblem)

protected theorem stopIf {stops : Option Token → Prop} [DecidablePred stops] {v w : α}
    (hstops : ∀ t : Option Token, stops (t.map (Token.move f)) ↔ stops t) (h : w = g v)
    (hother : Moves n f g otherwise otherwise') :
    Moves n f g (stopIf stops v otherwise) (stopIf stops w otherwise') := by
  intro ts hlt
  have hhead : stops (ts.map (Token.move f)).head? ↔ stops ts.head? := by
    rw [List.head?_map, hstops]
  by_cases hts : stops ts.head?
  · exact .ok (if_pos hts) ((if_pos (hhead.mpr hts)).trans (by rw [h])) (Nat.le_refl _)
  · exact (hother ts hlt).congr (if_neg hts) (if_neg (mt hhead.mp hts)) (Nat.le_refl _)

protected theorem refuse (haccepts : ∀ t : Token, accepts (t.move f) ↔ accepts t)
    (hproblem : problem = problem.move f) (hother : Moves n f g otherwise otherwise') :
    Moves n f g (refuse accepts problem otherwise) (refuse accepts problem otherwise') := by
  intro ts hlt
  cases ts with
  | nil => exact (hother [] hlt).congr rfl rfl (Nat.le_refl _)
  | cons t rest =>
    by_cases ht : accepts t
    · refine .error (if_pos ht) ((if_pos ((haccepts t).mpr ht)).trans ?_)
      rw [← hproblem]
      rfl
    · refine (hother (t :: rest) hlt).congr (if_neg ht) ?_ (Nat.le_refl _)
      exact if_neg (mt (haccepts t).mp ht)

end

end Moves

section Expressions

theorem moves_expect {kind : TokenKind} {what : Expectation} :
    Moves n f (Token.move f) (expect kind what) (expect kind what) :=
  .take (fun _ => Iff.rfl) rfl fun _ _ => .pure rfl

theorem moves_name : Moves n f id name name :=
  .take (fun _ => Iff.rfl) rfl fun _ _ => .pure rfl

variable (hexpression : Moves n f (Expr.move f) expression expression)

section

include hexpression

theorem moves_primary : Moves (n + 1) f (Expr.move f) primary primary := by
  refine .takeIf_below (fun _ => Iff.rfl) (fun t _ => ?_) ?_
  · obtain ⟨kind, payload, position⟩ := t
    cases payload with
    | number value => exact .pure rfl
    | none => exact .throw rfl
    | text value => exact .throw rfl
  refine .takeIf_below (fun _ => Iff.rfl) (fun _ _ => .pure rfl) ?_
  refine .takeIf_below (fun _ => Iff.rfl) (fun _ _ => .pure rfl) ?_
  refine .takeIf_below (fun _ => Iff.rfl) (fun _ _ => ?_) ?_
  · exact hexpression.bind fun e => moves_expect.bind fun _ => .pure rfl
  · exact .take (fun _ => Iff.rfl) rfl fun _ _ => .pure rfl

theorem moves_expressionList {m : Nat} (hm : m ≤ n) :
    Moves m f (List.map (Expr.move f)) expressionList expressionList := by
  induction m with
  | zero => exact .zero
  | succ m ih =>
    rw [expressionList_eq]
    refine (hexpression.below hm).bind fun e => ?_
    exact .takeIf_below (fun _ => Iff.rfl) (fun _ _ => (ih (by omega)).map fun _ => rfl)
      (.pure rfl)

theorem moves_arguments {m : Nat} (hm : m ≤ n) :
    Moves m f (List.map (Expr.move f)) arguments arguments := by
  refine .takeIf (fun _ => Iff.rfl) (fun _ _ => .pure rfl) ?_
  exact (moves_expressionList hexpression hm).bind fun es => moves_expect.bind fun _ => .pure rfl

theorem moves_suffixes {m : Nat} (hm : m ≤ n + 1) (e : Expr) :
    Moves m f (Expr.move f) (suffixes e) (suffixes (e.move f)) := by
  induction m generalizing e with
  | zero => exact .zero
  | succ m ih =>
    rw [suffixes_eq, suffixes_eq, Expr.position_move]
    refine .takeIf_below (fun _ => Iff.rfl) (fun _ _ => ?_)
      (.takeIf_below (fun _ => Iff.rfl) (fun _ _ => ?_)
        (.takeIf_below (fun _ => Iff.rfl) (fun _ _ => ?_) (.pure rfl)))
    · refine (moves_arguments hexpression (by omega)).bind fun es => ?_
      rw [← Expr.move_call]
      exact ih (by omega) _
    · refine (hexpression.below (by omega)).bind fun index => moves_expect.bind fun _ => ?_
      exact ih (by omega) _
    · exact ih (by omega) _

theorem moves_prefixed {m : Nat} (hm : m ≤ n + 1) :
    Moves m f (Expr.move f) prefixed prefixed := by
  induction m with
  | zero => exact .zero
  | succ m ih =>
    rw [prefixed_eq]
    refine .takeIf_below (fun _ => Iff.rfl) (fun t _ => (ih (by omega)).map fun _ => rfl) ?_
    exact ((moves_primary hexpression).below hm).bind fun e => moves_suffixes hexpression hm e

theorem moves_binary {m : Nat} (hm : m ≤ n + 1) (levels : List (List String)) :
    Moves m f (Expr.move f) (binary levels) (binary levels) := by
  induction levels generalizing m with
  | nil => exact moves_prefixed hexpression hm
  | cons ops tighter ih =>
    refine (ih hm).bind fun left => ?_
    induction m generalizing left with
    | zero => exact .zero
    | succ m hchain =>
      rw [chain_eq, chain_eq, Expr.position_move]
      refine .takeIf_below (fun _ => Iff.rfl) (fun _ _ => ?_) (.pure rfl)
      exact (ih (by omega)).bind fun right => hchain (by omega) _

end

theorem moves_expression (n : Nat) : Moves n f (Expr.move f) expression expression := by
  induction n with
  | zero => exact .zero
  | succ n hexpression =>
    rw [expression_eq]
    refine (moves_binary hexpression (Nat.le_refl _) binaryLevels).bind fun target => ?_
    refine .takeIf_below (fun _ => Iff.rfl) (fun _ _ => hexpression.map fun value => ?_) (.pure rfl)
    rw [Expr.move, Expr.position_move]

end Expressions

section Variables

theorem moves_sizeSuffix : Moves n f id sizeSuffix sizeSuffix := by
  refine .takeIf (fun _ => Iff.rfl) (fun _ _ => ?_) (.pure rfl)
  refine .takeIf (fun _ => Iff.rfl) (fun _ _ => .pure rfl) ?_
  exact (moves_expression n).bind fun _ => moves_expect.bind fun _ => .pure rfl

theorem moves_variableRest {type name : String} {position : Position} :
    Moves n f (Variable.move f) (variableRest type name position)
      (variableRest type name (f position)) := by
  refine moves_sizeSuffix.bind fun suffix => ?_
  exact .takeIf (fun _ => Iff.rfl) (fun _ _ => (moves_expression n).map fun _ => rfl) (.pure rfl)

theorem moves_typedVariable (type : Token) :
    Moves n f (Variable.move f) (typedVariable type) (typedVariable (type.move f)) :=
  moves_name.bind fun _ => moves_variableRest

theorem moves_optionalExpression (ending : TokenKind) :
    Moves n f (Option.map (Expr.move f)) (optionalExpression ending)
      (optionalExpression ending) := by
  refine .stopIf (fun t => ?_) rfl ((moves_expression n).map fun _ => rfl)
  cases t <;> rfl

theorem moves_forInit : Moves n f (Option.map (ForInit.move f)) forInit forInit := by
  refine .stopIf (fun t => by cases t <;> rfl) rfl ?_
  refine .takeIf (fun _ => Iff.rfl) (fun t _ => ?_) ((moves_expression n).map fun _ => rfl)
  exact (moves_typedVariable t).map fun _ => rfl

theorem moves_forClauses : Moves n f (ForHead.move f) forClauses forClauses := by
  refine moves_forInit.bind fun init => moves_expect.bind fun _ => ?_
  refine (moves_optionalExpression .comma).bind fun condition => moves_expect.bind fun _ => ?_
  refine (moves_optionalExpression .closeParen).bind fun update => moves_expect.bind fun _ => ?_
  exact .pure rfl

theorem moves_forHead : Moves n f (ForHead.move f) forHead forHead :=
  .takeIf (fun _ => Iff.rfl) (fun _ _ => moves_forClauses) ((moves_expression n).map fun _ => rfl)

end Variables

theorem Moves.terminated {action moved : Action α} (h : Moves n f g action moved) :
    Moves n f g (terminated action) (terminated moved) := by
  have hterminator : Moves n f id terminator terminator :=
    .takeIf (fun _ => Iff.rfl) (fun _ _ => .pure rfl) (.pure rfl)
  exact h.bind fun v => hterminator.bind fun _ => .pure rfl

section Statements

/-! The hypothesis `nested` is the statement about the statements nested in the one being read. -/

variable (nested : Moves n f (Stmt.move f) bareStatement bareStatement)

include nested

theorem moves_statement : Moves n f (Stmt.move f) statement statement := nested.terminated

theorem moves_statements {stop : Token → Bool} {m : Nat} (hm : m ≤ n)
    (hstop : ∀ t : Token, stop (t.move f) = stop t) :
    Moves m f (List.map (Stmt.move f)) (statements stop) (statements stop) := by
  induction m with
  | zero => exact .zero
  | succ m ih =>
    rw [statements_eq]
    refine .stopIf (fun t => ?_) rfl ?_
    · cases t with
      | none => rfl
      | some t => simp [hstop]
    · exact ((moves_statement nested).below hm).bind_below below_of_statement
        fun s => (ih (by omega)).map fun _ => rfl

theorem moves_openedBlock (opening : Token) :
    Moves n f (Block.move f) (openedBlock opening) (openedBlock (opening.move f)) :=
  (moves_statements nested (Nat.le_refl n) fun _ => rfl).bind fun _ =>
    moves_expect.bind fun _ => .pure rfl

theorem moves_ifElse {m : Nat} (hm : m ≤ n) (position : Position) :
    Moves m f (Stmt.move f) (ifElse position) (ifElse (f position)) := by
  induction m generalizing position with
  | zero => exact .zero
  | succ m ih =>
    have hstatement := moves_statement nested
    refine (moves_expression _).bind fun condition => ?_
    refine (hstatement.below hm).bind fun consequent => ?_
    refine .takeIf_below (fun _ => Iff.rfl) (fun _ _ => ?_) (.pure rfl)
    have halternative : Moves m f (Stmt.move f) alternative alternative := by
      rw [alternative_eq]
      exact .takeIf (fun _ => Iff.rfl) (fun t _ => ih (by omega) t.position)
        (hstatement.below (by omega))
    exact halternative.map fun _ => rfl

theorem moves_whileLoop (position : Position) :
    Moves n f (Stmt.move f) (whileLoop position) (whileLoop (f position)) :=
  (moves_expression n).bind fun _ => (moves_statement nested).map fun _ => rfl

theorem moves_forLoop (position : Position) :
    Moves n f (Stmt.move f) (forLoop position) (forLoop (f position)) :=
  moves_forHead.bind fun _ => (moves_statement nested).map fun _ => rfl

theorem moves_clauses {m : Nat} (hm : m ≤ n) (seen : Bool) :
    Moves m f (Prod.map (List.map (Clause.move f)) (Option.map (List.map (Stmt.move f))))
      (clauses seen) (clauses seen) := by
  induction m generalizing seen with
  | zero => exact .zero
  | succ m ih =>
    have hstatements : Moves m f (List.map (Stmt.move f)) (statements endsClause) _ :=
      moves_statements nested (by omega) fun _ => rfl
    rw [clauses_eq]
    refine .takeIf_below (fun _ => Iff.rfl) (fun _ _ => ?_) ?_
    · refine (moves_expression m).bind fun value => moves_expect.bind fun _ => ?_
      exact hstatements.bind fun body => (ih (by omega) seen).map fun _ => rfl
    cases seen with
    | true => exact .refuse (fun _ => Iff.rfl) rfl (.pure rfl)
    | false =>
      refine .takeIf_below (fun _ => Iff.rfl) (fun _ _ => moves_expect.bind fun _ => ?_) (.pure rfl)
      exact hstatements.bind fun body => (ih (by omega) true).map fun _ => rfl

theorem moves_switch (position : Position) :
    Moves n f (Stmt.move f) (switch position) (switch (f position)) := by
  refine (moves_expression n).bind fun subject => moves_expect.bind fun _ => ?_
  refine (moves_clauses nested (Nat.le_refl n) false).bind fun found => ?_
  exact moves_expect.bind fun _ => .pure (Stmt.move_switch ..).symm

end Statements

theorem moves_returns (position : Position) :
    Moves n f (Stmt.move f) (returns position) (returns (f position)) := by
  refine .stopIf (fun t => ?_) rfl ((moves_expression n).map fun _ => rfl)
  cases t <;> rfl

theorem moves_expressionStatement :
    Moves n f (Stmt.move f) expressionStatement expressionStatement := by
  intro ts hlt
  cases moves_expression n ts hlt with
  | error run moves => exact .error (bind_of_error run) (bind_of_error moves)
  | ok run moves le =>
    -- an expression takes a token, which is where the statement starts
    have hshort := (Reading.result_eq_ok_iff.mp run).shorter
    cases ts with
    | nil => exact absurd hshort (Nat.not_lt_zero _)
    | cons t us => exact .ok (bind_of_ok run) (bind_of_ok moves) le

theorem moves_bareStatement (n : Nat) : Moves n f (Stmt.move f) bareStatement bareStatement := by
  induction n with
  | zero => exact .zero
  | succ n nested =>
    rw [bareStatement_eq]
    refine .takeIf_below (fun _ => Iff.rfl) (fun t _ => ?_) ?_
    · exact (moves_openedBlock nested t).map fun b => (Stmt.move_block ..).symm
    refine .takeIf_below (fun _ => Iff.rfl) (fun t _ => ?_) ?_
    · exact moves_ifElse nested (Nat.le_refl n) t.position
    refine .takeIf_below (fun _ => Iff.rfl) (fun t _ => moves_whileLoop nested t.position) ?_
    refine .takeIf_below (fun _ => Iff.rfl) (fun t _ => moves_forLoop nested t.position) ?_
    refine .takeIf_below (fun _ => Iff.rfl) (fun t _ => moves_switch nested t.position) ?_
    refine .takeIf_below (fun _ => Iff.rfl) (fun t _ => moves_returns t.position) ?_
    refine .takeIf_below (fun _ => Iff.rfl) (fun _ _ => .pure rfl) ?_
    refine .takeIf_below (fun _ => Iff.rfl) (fun _ _ => .pure rfl) ?_
    refine .takeIf_below (fun _ => Iff.rfl) (fun t _ => ?_) moves_expressionStatement
    exact (moves_typedVariable t).map fun _ => rfl

section Programs

theorem moves_block : Moves n f (Block.move f) block block :=
  .take (fun _ => Iff.rfl) rfl fun t _ => moves_openedBlock (moves_bareStatement n) t

theorem moves_parameter : Moves n f (Parameter.move f) parameter parameter :=
  .take (fun _ => Iff.rfl) rfl fun _ _ => moves_name.map fun _ => rfl

theorem moves_parameterList :
    Moves n f (List.map (Parameter.move f)) parameterList parameterList := by
  induction n with
  | zero => exact .zero
  | succ n ih =>
    rw [parameterList_eq]
    refine moves_parameter.bind fun p => ?_
    exact .takeIf_below (fun _ => Iff.rfl) (fun _ _ => ih.map fun _ => rfl) (.pure rfl)

theorem isVoidClose_move (ts : List Token) :
    isVoidClose (ts.map (Token.move f)) = isVoidClose ts := by
  cases ts with
  | nil => rfl
  | cons t rest => cases rest <;> rfl

theorem moves_voidOrParameters :
    Moves n f (List.map (Parameter.move f)) voidOrParameters voidOrParameters := by
  have hclosed : Moves n f (List.map (Parameter.move f)) closedParameters closedParameters :=
    moves_parameterList.bind fun _ => moves_expect.bind fun _ => .pure rfl
  intro ts hlt
  by_cases hvoid : isVoidClose ts = true
  · refine .ok (if_pos hvoid) ((if_pos ((isVoidClose_move ts).trans hvoid)).trans ?_) ?_
    · rw [List.map_drop]
      rfl
    · exact (List.drop_sublist 2 ts).length_le
  · refine (hclosed ts hlt).congr (if_neg hvoid) (if_neg ?_) (Nat.le_refl _)
    rwa [isVoidClose_move]

theorem moves_openedParameters :
    Moves n f (List.map (Parameter.move f)) openedParameters openedParameters :=
  .takeIf (fun _ => Iff.rfl) (fun _ _ => .pure rfl) moves_voidOrParameters

theorem moves_typedParameters (type : Token) :
    Moves n f (List.map (Parameter.move f)) (typedParameters type)
      (typedParameters (type.move f)) := by
  induction n generalizing type with
  | zero => exact .zero
  | succ n ih =>
    have hothers : Moves n f (List.map (Parameter.move f)) bareParameters bareParameters := by
      rw [bareParameters_eq]
      exact .take (fun _ => Iff.rfl) rfl fun t _ => ih t
    refine .stopIf (fun t => by cases t <;> rfl) rfl (moves_name.bind fun text => ?_)
    exact .takeIf_below (fun _ => Iff.rfl) (fun _ _ => hothers.map fun _ => rfl) (.pure rfl)

theorem moves_markedParameters :
    Moves n f (List.map (Parameter.move f)) markedParameters markedParameters := by
  refine .takeIf (fun _ => Iff.rfl) (fun _ _ => moves_openedParameters) ?_
  refine .takeIf (fun _ => Iff.rfl) (fun _ _ => .pure rfl) ?_
  exact .takeIf (fun _ => Iff.rfl) (fun t _ => moves_typedParameters t) (.pure rfl)

theorem moves_markedFunction : Moves n f (Function.move f) markedFunction markedFunction := by
  refine .take (fun _ => Iff.rfl) rfl fun _ _ => moves_name.bind fun text => ?_
  exact moves_markedParameters.bind fun _ => moves_block.map fun _ => rfl

theorem moves_typedDeclaration (type : Token) :
    Moves n f (Declaration.move f) (typedDeclaration type) (typedDeclaration (type.move f)) := by
  refine moves_name.bind fun text => .takeIf (fun _ => Iff.rfl) (fun _ _ => ?_) ?_
  · exact moves_openedParameters.bind fun _ => moves_block.map fun _ => rfl
  · exact moves_variableRest.map fun _ => rfl

theorem moves_declaration : Moves n f (Declaration.move f) declaration declaration := by
  refine .takeIf (fun _ => Iff.rfl) (fun _ _ => moves_markedFunction.terminated.map fun _ => rfl) ?_
  refine .takeIf (fun _ => Iff.rfl) (fun t _ => (moves_typedDeclaration t).terminated) ?_
  exact (moves_statement (moves_bareStatement n)).map fun _ => rfl

end Programs

end Action

/-- The declarations and the problems are the same but for their positions. -/
theorem declarations_move (f : Position → Position) (n : Nat) : ∀ {ts : List Token},
    ts.length < n → declarations (ts.map (Token.move f)) =
      ((declarations ts).map (List.map (Declaration.move f))).mapError
        (Prod.map (Problem.move f) (List.map (Token.move f))) := by
  induction n with
  | zero => exact fun hlt => absurd hlt (Nat.not_lt_zero _)
  | succ n ih =>
    intro ts hlt
    by_cases hne : ts = []
    · subst hne
      rw [List.map_nil, declarations_eq]
      rfl
    cases Action.moves_declaration (f := f) ts hlt with
    | error run moves =>
      rw [declarations_of_error hne run, declarations_of_error (by simpa using hne) moves]
      rfl
    | @ok d rest run moves le =>
      have hshort := Action.length_of_declaration run
      rw [declarations_of_ok run, declarations_of_ok moves, ih (by omega)]
      cases declarations rest <;> rfl

end Grammar

/-- The error with the positions of the tokens in it changed. -/
def ParseError.move (f : Position → Position) (error : ParseError) : ParseError :=
  ⟨error.problem.move f, error.token.move f⟩

section Streams

variable (f : Position → Position)

/-- The stream with the positions of its tokens changed. -/
def TokenStream.move (stream : TokenStream) : TokenStream :=
  ⟨stream.pending.map (Token.move f), stream.last.move f⟩

theorem TokenStream.ofTokens_move {tokens : List Token} (hend : ∃ t ∈ tokens, t.kind = .eof) :
    ofTokens (tokens.map (Token.move f)) = (ofTokens tokens).move f := by
  have hfound : ∃ last, tokens.find? (fun t => t.kind == .eof) = some last := by
    rw [← Option.isSome_iff_exists, List.find?_isSome]
    simpa using hend
  obtain ⟨last, hlast⟩ := hfound
  have hmoved : (tokens.map (Token.move f)).find? (fun t => t.kind == .eof) =
      some (last.move f) := by
    rw [List.find?_map]
    exact congrArg (Option.map (Token.move f)) hlast
  rw [ofTokens, ofTokens, move, hmoved, hlast, List.takeWhile_map]
  rfl

theorem TokenStream.offending_move (stream : TokenStream) (problem : Grammar.Problem)
    (rest : List Token) : (stream.move f).offending (problem.move f) (rest.map (Token.move f)) =
      (stream.offending problem rest).move f := by
  cases problem with
  | malformedNumber token => rfl
  | _ => cases rest <;> rfl

/-- Positions have no part in how tokens up to an end token are parsed. -/
theorem parse_move {tokens : List Token} (hend : ∃ t ∈ tokens, t.kind = .eof) :
    parse (tokens.map (Token.move f)) =
      ((parse tokens).map (List.map (Declaration.move f))).mapError (ParseError.move f) := by
  rw [parse, parse, TokenStream.ofTokens_move f hend, TokenStream.program, TokenStream.program,
    TokenStream.move, Grammar.declarations_move f _ (Nat.lt_succ_self _)]
  cases Grammar.declarations (TokenStream.ofTokens tokens).pending with
  | ok program => rfl
  | error failure =>
    obtain ⟨problem, rest⟩ := failure
    have htoken := TokenStream.offending_move f (TokenStream.ofTokens tokens) problem rest
    exact congrArg (fun token => Except.error (ParseError.mk (problem.move f) token)) htoken

end Streams

end KanaScript
