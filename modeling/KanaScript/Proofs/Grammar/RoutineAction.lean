import KanaScript.Proofs.Grammar.Routine

/-! What routines do to the tokens that are left: what the rules of the grammar do. -/

namespace KanaScript.Grammar

theorem declarations_nil : declarations [] = .ok [] := by
  rw [declarations_eq]
  rfl

namespace Action

variable {ts rest : List Token}

/-- All declarations up to the end. -/
def program : Action Program := fun ts =>
  match declarations ts with
  | .ok ds => .ok ds []
  | .error (problem, rest) => .error problem rest

theorem run_program_of_ok {ds : Program} (h : declarations ts = .ok ds) :
    program.run ts = .ok ds [] := by
  simp only [program, EStateM.run, h]

theorem run_program_of_error {problem : Problem}
    (h : declarations ts = .error (problem, rest)) : program.run ts = .error problem rest := by
  simp only [program, EStateM.run, h]

/-- A program is its first declaration and the others. -/
theorem run_program_cons (h : ts ≠ []) :
    program.run ts = (do
      let d ← declaration
      let others ← program
      return d :: others : Action Program).run ts := by
  cases hd : declaration.run ts with
  | error problem back =>
    rw [run_program_of_error (declarations_of_error h hd), bind_of_error hd]
  | ok d back =>
    rw [bind_of_ok hd]
    have hmap := declarations_of_ok hd
    cases hr : declarations back with
    | error failure =>
      rw [hr] at hmap
      rw [run_program_of_error hmap, bind_of_error (run_program_of_error hr)]
    | ok ds =>
      rw [hr] at hmap
      rw [run_program_of_ok hmap, bind_of_ok (run_program_of_ok hr)]
      rfl

end Action

/-- The rule that a routine is for. -/
def Routine.action : {α : Type} → Routine α → Action α
  | _, .program => Action.program
  | _, .declaration => Action.declaration
  | _, .markedFunction => Action.markedFunction
  | _, .typedDeclaration type => Action.typedDeclaration type
  | _, .markedParameters => Action.markedParameters
  | _, .openedParameters => Action.openedParameters
  | _, .parameterList => Action.parameterList
  | _, .typedParameters type => Action.typedParameters type
  | _, .openedBlock opening => Action.openedBlock opening
  | _, .statements stop => Action.statements stop
  | _, .statement => Action.statement
  | _, .bareStatement => Action.bareStatement
  | _, .ifElse position => Action.ifElse position
  | _, .whileLoop position => Action.whileLoop position
  | _, .forLoop position => Action.forLoop position
  | _, .forClauses => Action.forClauses
  | _, .switch position => Action.switch position
  | _, .clauses seen => Action.clauses seen
  | _, .returns position => Action.returns position
  | _, .typedVariable type => Action.typedVariable type
  | _, .variableRest type name position => Action.variableRest type name position
  | _, .expression => Action.expression
  | _, .binary levels => Action.binary levels
  | _, .chain ops tighter left => Action.chain ops tighter left
  | _, .prefixed => Action.prefixed
  | _, .primary => Action.primary
  | _, .suffixes e => Action.suffixes e
  | _, .arguments => Action.arguments
  | _, .expressionList => Action.expressionList

/-- How tokens end: with an end token, and perhaps one more behind it. -/
structure Ending where
  last : Token
  kind_last : last.kind = .eof
  behind : Option Token

/-- No test accepts the end. -/
theorem Ending.not_accepts (ending : Ending) (test : Test) : ¬test.accepts ending.last :=
  fun h => test.inner _ h ending.kind_last

namespace Code

variable {α β : Type} {ending : Ending}

/-- What code does to the tokens that are left before the end, if every call does what the rule
does. -/
def action (ending : Ending) {α : Type} : Code α → Action α
  | .halt (.ok value) => pure value
  | .halt (.error problem) => throw problem
  | .look next => fun ts => ((next (ts.head?.getD ending.last)).action ending).run ts
  | .lookAhead next => fun ts =>
    ((next (if ts.isEmpty then ending.behind else ts.tail.head?.getD ending.last)).action
      ending).run ts
  | .advance next => fun ts => (next.action ending).run ts.tail
  | .enter routine next => routine.action >>= fun value => (next value).action ending

section Combinators

@[simp]
theorem action_pure (value : α) : (pure value : Code α).action ending = pure value := rfl

@[simp]
theorem action_bind (code : Code α) (next : α → Code β) :
    (code >>= next).action ending =
      code.action ending >>= fun value => (next value).action ending := by
  show (code.bind next).action ending = _
  induction code with
  | halt result => cases result <;> rfl
  | look code ih => exact funext fun ts => congrFun (ih _) ts
  | lookAhead code ih => exact funext fun ts => congrFun (ih _) ts
  | advance code ih => exact funext fun ts => congrFun ih ts.tail
  | enter routine code ih => simp only [bind, action, ih, LawfulMonad.bind_assoc]

@[simp]
theorem action_call (routine : Routine α) : (call routine).action ending = routine.action :=
  bind_pure routine.action

@[simp]
theorem action_takeIf {test : Test} {taken : Token → Code α} {otherwise : Code α} :
    (takeIf test taken otherwise).action ending =
      Action.takeIf test.accepts (fun t => (taken t).action ending) (otherwise.action ending) := by
  refine Action.ext fun ts => ?_
  cases ts with
  | nil =>
    show ((if test.accepts ending.last then _ else otherwise).action ending).run [] = _
    rw [if_neg (ending.not_accepts test)]
    rfl
  | cons t rest =>
    show ((if test.accepts t then (taken t).advance else otherwise).action ending).run _ = _
    rw [Action.run_takeIf_cons]
    split <;> rfl

@[simp]
theorem action_take {test : Test} {problem : Problem} {taken : Token → Code α} :
    (take test problem taken).action ending =
      Action.take test.accepts problem fun t => (taken t).action ending :=
  action_takeIf

@[simp]
theorem action_refuse {test : Test} {problem : Problem} {otherwise : Code α} :
    (refuse test problem otherwise).action ending =
      Action.refuse test.accepts problem (otherwise.action ending) := by
  refine Action.ext fun ts => ?_
  cases ts with
  | nil =>
    show ((if test.accepts ending.last then _ else otherwise).action ending).run [] = _
    rw [if_neg (ending.not_accepts test)]
    rfl
  | cons t rest =>
    show ((if test.accepts t then fail problem else otherwise).action ending).run _ = _
    rw [Action.run_refuse_cons]
    split <;> rfl

theorem action_stopIf {kind : TokenKind} (h : kind ≠ .eof) {value : α} {otherwise : Code α} :
    (stopIf (·.kind == kind) value otherwise).action ending =
      Action.stopIf (·.any (·.kind = kind)) value (otherwise.action ending) := by
  refine Action.ext fun ts => ?_
  rw [Action.run_stopIf]
  show ((if (ts.head?.getD ending.last).kind == kind then pure value else otherwise).action
    ending).run ts = _
  cases ts with
  | nil => simp [ending.kind_last, h.symm]
  | cons t rest => by_cases ht : t.kind = kind <;> simp [ht]

/-- Stopping at the end too. -/
theorem run_stopIf_end {stop : Token → Bool} {value : α} {otherwise : Code α} {ts : List Token}
    (inner : ∀ t ∈ ts.head?, t.kind ≠ .eof) :
    ((stopIf (fun t => t.kind == .eof || stop t) value otherwise).action ending).run ts =
      (Action.stopIf (·.all stop) value (otherwise.action ending)).run ts := by
  rw [Action.run_stopIf]
  show ((if (ts.head?.getD ending.last).kind == .eof || stop (ts.head?.getD ending.last) then
    pure value else otherwise).action ending).run ts = _
  cases ts with
  | nil => simp [ending.kind_last]
  | cons t rest =>
    have ht : t.kind ≠ .eof := inner t rfl
    by_cases hs : stop t = true <;> simp [hs, ht]

@[simp]
theorem action_expect {kind : TokenKind} {what : Expectation} {h : kind ≠ .eof} :
    (expect kind what h).action ending = Action.expect kind what :=
  action_take

@[simp]
theorem action_name : name.action ending = Action.name := action_take

@[simp]
theorem action_terminated (code : Code α) :
    (terminated code).action ending = Action.terminated (code.action ending) := by
  simp only [terminated, action_bind, action_takeIf, action_pure]
  rfl

end Combinators

section Parts

@[simp]
theorem action_sizeSuffix : sizeSuffix.action ending = Action.sizeSuffix := by
  simp only [sizeSuffix, action_takeIf, action_bind, action_call, action_expect, action_pure]
  rfl

@[simp]
theorem action_alternative : alternative.action ending = Action.alternative := by
  simp only [alternative, action_takeIf, action_call]
  exact Action.alternative_eq.symm

theorem action_optionalExpression {kind : TokenKind} (h : kind ≠ .eof) :
    (optionalExpression kind).action ending = Action.optionalExpression kind := by
  simp only [optionalExpression, action_stopIf h, action_bind, action_call, action_pure]
  rfl

@[simp]
theorem action_forInit : forInit.action ending = Action.forInit := by
  have hcomma : TokenKind.comma ≠ .eof := by decide
  simp only [forInit, action_stopIf hcomma, action_takeIf, action_bind, action_call, action_pure]
  rfl

@[simp]
theorem action_forHead : forHead.action ending = Action.forHead := by
  simp only [forHead, action_takeIf, action_bind, action_call, action_pure]
  rfl

@[simp]
theorem action_caseClause (seen : Bool) (label : Token) :
    (caseClause seen label).action ending = Action.caseClause seen label := by
  simp only [caseClause, action_bind, action_call, action_expect, action_pure]
  rfl

@[simp]
theorem action_defaultClause : defaultClause.action ending = Action.defaultClause := by
  simp only [defaultClause, action_bind, action_call, action_expect, action_pure]
  rfl

@[simp]
theorem action_lastClauses (seen : Bool) :
    (lastClauses seen).action ending = Action.lastClauses seen := by
  cases seen with
  | true => exact action_refuse
  | false =>
    show (takeIf _ _ _).action ending = _
    rw [action_takeIf, action_defaultClause]
    rfl

/-- No expression is read from nothing, so that it does not matter which position it would get. -/
@[simp]
theorem action_expressionStatement :
    expressionStatement.action ending = Action.expressionStatement := by
  have hlook : ∀ ts, (expressionStatement.action ending).run ts =
      ((do return .expression (← call .expression) (ts.head?.getD ending.last).position :
        Code Stmt).action ending).run ts := fun _ => rfl
  refine Action.ext fun ts => ?_
  rw [hlook, action_bind, action_call]
  cases ts with
  | cons t rest => rfl
  | nil =>
    cases hread : Grammar.expression [] with
    | ok e rest shorter => exact absurd shorter (Nat.not_lt_zero _)
    | failed problem rest =>
      have hrun : Action.expression.run [] = .error problem rest := congrArg Reading.result hread
      exact (Action.bind_of_error hrun).trans (Action.bind_of_error hrun).symm

@[simp]
theorem action_block : block.action ending = Action.block := by
  simp only [block, action_take, action_call]
  rfl

@[simp]
theorem action_parameter : parameter.action ending = Action.parameter := by
  simp only [parameter, action_take, action_bind, action_name, action_pure]
  rfl

@[simp]
theorem action_bareParameters : bareParameters.action ending = Action.bareParameters := by
  simp only [bareParameters, action_take, action_call]
  exact Action.bareParameters_eq.symm

@[simp]
theorem action_closedParameters : closedParameters.action ending = Action.closedParameters := by
  simp only [closedParameters, action_bind, action_call, action_expect, action_pure]
  rfl

@[simp]
theorem action_voidOrParameters : voidOrParameters.action ending = Action.voidOrParameters := by
  refine Action.ext fun ts => ?_
  show _ = if isVoidClose ts then _ else Action.closedParameters.run ts
  rw [← action_closedParameters]
  cases ts with
  | nil =>
    have hlast : ¬ending.last.isWord .typeKeyword "void" = true := by
      simp [Token.isWord, ending.kind_last]
    show ((if ending.last.isWord .typeKeyword "void" then _ else _ : Code _).action ending).run _ = _
    rw [if_neg hlast]
    rfl
  | cons t rest =>
    show ((if t.isWord .typeKeyword "void" then _ else _ : Code _).action ending).run _ = _
    by_cases ht : t.isWord .typeKeyword "void" = true
    · rw [if_pos ht]
      show ((if (some (rest.head?.getD ending.last)).any (·.kind == .closeParen) then _
        else _ : Code _).action ending).run _ = _
      cases rest with
      | nil =>
        rw [if_neg (by simp [ending.kind_last])]
        rfl
      | cons u more =>
        have hvoid : isVoidClose (t :: u :: more) = (u.kind == .closeParen) := by
          simp [isVoidClose, ht]
        rw [hvoid]
        show ((if (u.kind == .closeParen) = true then _ else _ : Code _).action ending).run _ = _
        split <;> rfl
    · have hvoid : isVoidClose (t :: rest) = false := by
        cases rest <;> simp [isVoidClose, ht]
      rw [if_neg ht, hvoid]
      rfl

end Parts

/-! In the lemmas below `delta` opens the body of a routine, since the equations of a match over an
indexed family are costly. -/

section Declarations

theorem run_program (ts : List Token) (inner : ∀ t ∈ ts.head?, t.kind ≠ .eof) :
    ((body .program).action ending).run ts = Action.program.run ts := by
  have hlook : ((body .program).action ending).run ts =
      ((if (ts.head?.getD ending.last).kind == .eof then pure [] else do
        let d ← call .declaration
        let others ← call .program
        return d :: others : Code Program).action ending).run ts := rfl
  rw [hlook]
  cases ts with
  | nil =>
    rw [if_pos (by simp [ending.kind_last])]
    exact (Action.run_program_of_ok declarations_nil).symm
  | cons t rest =>
    rw [if_neg (by simpa using inner t rfl)]
    simp only [action_bind, action_call, action_pure]
    exact (Action.run_program_cons (List.cons_ne_nil t rest)).symm

theorem action_declaration : (body .declaration).action ending = Action.declaration := by
  delta body
  simp only [action_takeIf, action_bind, action_terminated, action_call, action_pure]
  rfl

theorem action_markedFunction : (body .markedFunction).action ending = Action.markedFunction := by
  delta body
  simp only [action_take, action_bind, action_name, action_call, action_block, action_pure]
  rfl

theorem action_typedDeclaration (type : Token) :
    (body (.typedDeclaration type)).action ending = Action.typedDeclaration type := by
  delta body
  simp only [action_bind, action_name, action_takeIf, action_call, action_block, action_pure]
  rfl

theorem action_markedParameters :
    (body .markedParameters).action ending = Action.markedParameters := by
  delta body
  simp only [action_takeIf, action_call, action_pure]
  rfl

theorem action_openedParameters :
    (body .openedParameters).action ending = Action.openedParameters := by
  delta body
  simp only [action_takeIf, action_pure, action_voidOrParameters]
  rfl

theorem action_parameterList : (body .parameterList).action ending = Action.parameterList := by
  delta body
  simp only [action_bind, action_parameter, action_takeIf, action_call, action_pure]
  exact Action.parameterList_eq.symm

theorem action_typedParameters (type : Token) :
    (body (.typedParameters type)).action ending = Action.typedParameters type := by
  have hbrace : TokenKind.openBrace ≠ .eof := by decide
  delta body
  simp only [action_stopIf hbrace, action_bind, action_name, action_takeIf,
    action_bareParameters, action_pure]
  rfl

end Declarations

section Statements

theorem action_openedBlock (opening : Token) :
    (body (.openedBlock opening)).action ending = Action.openedBlock opening := by
  delta body
  simp only [action_bind, action_call, action_expect, action_pure]
  rfl

theorem run_statements (stop : Token → Bool) {ts : List Token}
    (inner : ∀ t ∈ ts.head?, t.kind ≠ .eof) :
    ((body (.statements stop)).action ending).run ts = (Action.statements stop).run ts := by
  delta body
  rw [run_stopIf_end inner]
  simp only [action_bind, action_call, action_pure]
  exact congrFun (Action.statements_eq stop).symm ts

theorem action_statement : (body .statement).action ending = Action.statement := by
  delta body
  simp only [action_terminated, action_call]
  rfl

theorem action_bareStatement : (body .bareStatement).action ending = Action.bareStatement := by
  delta body
  simp only [action_takeIf, action_bind, action_call, action_pure,
    action_expressionStatement]
  exact Action.bareStatement_eq.symm

theorem action_ifElse (position : Position) :
    (body (.ifElse position)).action ending = Action.ifElse position := by
  delta body
  simp only [action_bind, action_call, action_takeIf, action_alternative, action_pure]
  rfl

theorem action_whileLoop (position : Position) :
    (body (.whileLoop position)).action ending = Action.whileLoop position := by
  delta body
  simp only [action_bind, action_call, action_pure]
  rfl

theorem action_forLoop (position : Position) :
    (body (.forLoop position)).action ending = Action.forLoop position := by
  delta body
  simp only [action_bind, action_forHead, action_call, action_pure]
  rfl

theorem action_forClauses : (body .forClauses).action ending = Action.forClauses := by
  have hcomma : TokenKind.comma ≠ .eof := by decide
  have hparen : TokenKind.closeParen ≠ .eof := by decide
  delta body
  simp only [action_bind, action_forInit, action_expect, action_optionalExpression hcomma,
    action_optionalExpression hparen, action_pure]
  rfl

theorem action_switch (position : Position) :
    (body (.switch position)).action ending = Action.switch position := by
  delta body
  simp only [action_bind, action_call, action_expect, action_pure]
  rfl

theorem action_clauses (seen : Bool) :
    (body (.clauses seen)).action ending = Action.clauses seen := by
  delta body
  simp only [action_takeIf, action_caseClause, action_lastClauses]
  exact (Action.clauses_eq seen).symm

theorem run_returns (position : Position) {ts : List Token}
    (inner : ∀ t ∈ ts.head?, t.kind ≠ .eof) :
    ((body (.returns position)).action ending).run ts = (Action.returns position).run ts := by
  delta body
  rw [run_stopIf_end inner]
  simp only [action_bind, action_call, action_pure]
  rfl

theorem action_typedVariable (type : Token) :
    (body (.typedVariable type)).action ending = Action.typedVariable type := by
  delta body
  simp only [action_bind, action_name, action_call]
  rfl

theorem action_variableRest (type name : String) (position : Position) :
    (body (.variableRest type name position)).action ending =
      Action.variableRest type name position := by
  delta body
  simp only [action_bind, action_sizeSuffix, action_takeIf, action_call, action_pure]
  rfl

end Statements

section Expressions

theorem action_expression : (body .expression).action ending = Action.expression := by
  delta body
  simp only [action_bind, action_call, action_takeIf, action_pure]
  exact Action.expression_eq.symm

theorem action_binary (levels : List (List String)) :
    (body (.binary levels)).action ending = Action.binary levels := by
  cases levels with
  | nil =>
    delta body
    simp only [action_call]
    rfl
  | cons ops tighter =>
    delta body
    simp only [action_bind, action_call]
    rfl

theorem action_chain (ops : List String) (tighter : List (List String)) (left : Expr) :
    (body (.chain ops tighter left)).action ending = Action.chain ops tighter left := by
  delta body
  simp only [action_takeIf, action_bind, action_call, action_pure]
  exact (Action.chain_eq ops tighter left).symm

theorem action_prefixed : (body .prefixed).action ending = Action.prefixed := by
  delta body
  simp only [action_takeIf, action_bind, action_call, action_pure]
  exact Action.prefixed_eq.symm

theorem action_primary : (body .primary).action ending = Action.primary := by
  delta body
  simp only [action_takeIf, action_take, action_bind, action_call, action_expect,
    action_pure]
  refine Action.ext fun ts => ?_
  cases ts with
  | nil => rfl
  | cons t rest =>
    obtain ⟨kind, payload, position⟩ := t
    cases kind
    case number => cases payload <;> rfl
    all_goals rfl

theorem action_suffixes (e : Expr) :
    (body (.suffixes e)).action ending = Action.suffixes e := by
  delta body
  simp only [action_takeIf, action_bind, action_call, action_expect, action_pure]
  exact (Action.suffixes_eq e).symm

theorem action_arguments : (body .arguments).action ending = Action.arguments := by
  delta body
  simp only [action_takeIf, action_bind, action_call, action_expect, action_pure]
  rfl

theorem action_expressionList :
    (body .expressionList).action ending = Action.expressionList := by
  delta body
  simp only [action_bind, action_call, action_takeIf, action_pure]
  exact Action.expressionList_eq.symm

end Expressions

/-- The body of a routine does what the rule does. -/
theorem run_action_body (routine : Routine α) {ts : List Token}
    (inner : ∀ t ∈ ts.head?, t.kind ≠ .eof) :
    ((body routine).action ending).run ts = routine.action.run ts := by
  cases routine with
  | program => exact run_program ts inner
  | declaration => exact congrFun action_declaration ts
  | markedFunction => exact congrFun action_markedFunction ts
  | typedDeclaration type => exact congrFun (action_typedDeclaration type) ts
  | markedParameters => exact congrFun action_markedParameters ts
  | openedParameters => exact congrFun action_openedParameters ts
  | parameterList => exact congrFun action_parameterList ts
  | typedParameters type => exact congrFun (action_typedParameters type) ts
  | openedBlock opening => exact congrFun (action_openedBlock opening) ts
  | statements stop => exact run_statements stop inner
  | statement => exact congrFun action_statement ts
  | bareStatement => exact congrFun action_bareStatement ts
  | ifElse position => exact congrFun (action_ifElse position) ts
  | whileLoop position => exact congrFun (action_whileLoop position) ts
  | forLoop position => exact congrFun (action_forLoop position) ts
  | forClauses => exact congrFun action_forClauses ts
  | switch position => exact congrFun (action_switch position) ts
  | clauses seen => exact congrFun (action_clauses seen) ts
  | returns position => exact run_returns position inner
  | typedVariable type => exact congrFun (action_typedVariable type) ts
  | variableRest type name position => exact congrFun (action_variableRest type name position) ts
  | expression => exact congrFun action_expression ts
  | binary levels => exact congrFun (action_binary levels) ts
  | chain ops tighter left => exact congrFun (action_chain ops tighter left) ts
  | prefixed => exact congrFun action_prefixed ts
  | primary => exact congrFun action_primary ts
  | suffixes e => exact congrFun (action_suffixes e) ts
  | arguments => exact congrFun action_arguments ts
  | expressionList => exact congrFun action_expressionList ts

end Code

end KanaScript.Grammar
