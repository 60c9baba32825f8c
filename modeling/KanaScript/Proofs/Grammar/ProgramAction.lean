import KanaScript.Grammar.Program
import KanaScript.Proofs.Grammar.Action

/-! The rules for statements and programs as actions. -/

namespace KanaScript.Grammar

open Reading

/-- The rule for the statements nested in a statement. -/
def nestedStatement (n : Nat) : Rule n Stmt := fun ts _ => bareStatement ts

namespace Action

variable {α : Type} {n : Nat} {ts : List Token}

section Variables

def sizeSuffix : Action String :=
  takeIf (·.kind = .openBracket) (fun _ =>
    takeIf (·.kind = .closeBracket) (fun _ => pure arraySuffix) do
      let _ ← expression
      let _ ← expect .closeBracket .sizeClose
      return arraySuffix) (pure "")

def variableRest (type name : String) (position : Position) : Action Variable := do
  let suffix ← sizeSuffix
  takeIf (·.isWord .operator "=") (fun _ => do
    let init ← expression
    return ⟨type ++ suffix, name, some init, position⟩)
    (pure ⟨type ++ suffix, name, none, position⟩)

/-- A variable after its type. -/
def typedVariable (type : Token) : Action Variable := do
  let name ← name
  variableRest type.text name type.position

def localVariable : Action Variable := take (·.kind = .typeKeyword) (.expected .type) typedVariable

theorem result_sizeSuffix : (variableRest.suffix ts).result = sizeSuffix.run ts := by
  have sized : ∀ us : List Token, ((Grammar.expression us).andThen fun _ rest₁ h₁ =>
      (Grammar.expect .closeBracket .sizeClose rest₁).andThen fun _ rest₂ h₂ =>
        (.ok arraySuffix rest₂ (by omega) : Reading (us.length + 2) String)).result =
      (do let _ ← expression; let _ ← expect .closeBracket .sizeClose; return arraySuffix :
        Action String).run us := fun us =>
    result_andThen rfl fun _ _ _ => result_andThen (result_expect ..) fun _ _ _ => rfl
  unfold variableRest.suffix
  cases ts with
  | nil => rfl
  | cons t rest =>
    simp only [sizeSuffix, run_takeIf_cons]
    split
    · cases rest with
      | nil => exact sized []
      | cons u more =>
        simp only [startsWith_cons, run_takeIf_cons]
        split
        · rename_i hu
          simp [Grammar.expect, hu]
        · exact sized (u :: more)
    · rfl

theorem result_variableRest {type name : String} {position : Position} :
    (Grammar.variableRest type name position ts).result =
      (variableRest type name position).run ts := by
  refine result_andThen result_sizeSuffix fun suffix rest _ => ?_
  cases rest with
  | nil => rfl
  | cons t more =>
    simp only [run_takeIf_cons]
    split
    · exact result_andThen rfl fun _ _ _ => rfl
    · rfl

/-- A rule that a type leads goes on after the type, which it stands at. -/
theorem result_typeLed {m : Nat} {what : Expectation} {taken : Token → Action α}
    {next : (type : String) → (rest : List Token) → rest.length < ts.length → Reading m α}
    (h : ∀ t rest, ts = t :: rest → ∀ h, (next t.text rest h).result = (taken t).run rest) :
    ((typeName what ts).andThen next).result =
      (take (·.kind = .typeKeyword) (.expected what) taken).run ts := by
  cases ts with
  | nil => rfl
  | cons t rest =>
    rw [take, run_takeIf_cons]
    by_cases ht : t.kind = .typeKeyword
    · simp only [typeName, Grammar.expect, ht, if_true, andThen_ok]
      exact h t rest rfl _
    · simp [typeName, Grammar.expect, ht]

theorem result_localVariable : (Grammar.localVariable ts).result = localVariable.run ts := by
  refine result_typeLed ?_
  rintro t rest rfl h
  exact result_andThen (result_name rest) fun name rest₁ _ =>
    result_weaken.trans result_variableRest

end Variables

section Statements

def bareStatement : Action Stmt := fun ts => (Grammar.bareStatement ts).result

def statement : Action Stmt := terminated bareStatement

theorem result_statement {h : ts.length < n} :
    (nestedStatement n ts h).terminated.result = statement.run ts := result_terminated rfl

/-- A statement is never empty. -/
theorem length_of_statement {ts rest : List Token} {s : Stmt}
    (h : statement.run ts = .ok s rest) : rest.length < ts.length := by
  have hread := (result_statement (h := Nat.lt_succ_self ts.length)).trans h
  exact (Reading.result_eq_ok_iff.mp hread).shorter

/-- A statement leaves fewer tokens than it was given, so that those that follow it are below a
smaller bound. -/
theorem below_of_statement {n : Nat} (ts : List Token) (s : Stmt) (rest : List Token)
    (hlt : ts.length < n + 1) (hrun : statement.run ts = .ok s rest) : rest.length < n :=
  Nat.lt_of_lt_of_le (length_of_statement hrun) (Nat.le_of_lt_succ hlt)

def statements (stop : Token → Bool) : Action (List Stmt) := fun ts =>
  (Grammar.statements (nestedStatement (ts.length + 1)) stop ts shorter_succ).result

theorem statements_step {stop : Token → Bool} (k : Nat) : ∀ {n : Nat} {ts : List Token}
    {h : ts.length < n}, ts.length = k →
    (Grammar.statements (nestedStatement n) stop ts h).result =
      (stopIf (·.all stop) [] do
        let s ← statement
        let ss ← statements stop
        return s :: ss).run ts := by
  induction k using Nat.strongRecOn with
  | _ k ih =>
    intro n ts h hk
    cases ts with
    | nil =>
      rw [Grammar.statements]
      rfl
    | cons t rest =>
      rw [Grammar.statements, run_stopIf]
      by_cases ht : stop t = true
      · simp [ht]
      · simp only [List.head?_cons, Option.all_some, ht, Bool.false_eq_true, if_false]
        refine result_andThen result_statement fun s rest₁ h₁ => ?_
        have again : ∀ {m : Nat} {h : rest₁.length < m},
            (Grammar.statements (nestedStatement m) stop rest₁ h).result =
              (statements stop).run rest₁ :=
          (ih _ (hk ▸ h₁) rfl).trans (ih _ (hk ▸ h₁) rfl).symm
        exact result_andThen again fun _ _ _ => rfl

theorem statements_eq (stop : Token → Bool) : statements stop =
    stopIf (·.all stop) [] do
      let s ← statement
      let ss ← statements stop
      return s :: ss :=
  funext fun _ => statements_step _ rfl

theorem result_statements {stop : Token → Bool} {h : ts.length < n} :
    (Grammar.statements (nestedStatement n) stop ts h).result = (statements stop).run ts :=
  (statements_step _ rfl).trans (statements_step _ rfl).symm

/-- A block after its opening brace. -/
def openedBlock (opening : Token) : Action Block := do
  let body ← statements fun t => t.kind == .closeBrace
  let _ ← expect .closeBrace .blockClose
  return ⟨body, opening.position⟩

def block : Action Block := take (·.kind = .openBrace) (.expected .blockOpen) openedBlock

theorem result_block {h : ts.length < n + 1} :
    (Grammar.block (nestedStatement n) ts h).result = block.run ts := by
  cases ts with
  | nil => rfl
  | cons t rest =>
    rw [block, take, run_takeIf_cons]
    by_cases ht : t.kind = .openBrace
    · simp only [Grammar.block, Grammar.expect, ht, if_true, andThen_ok]
      exact result_andThen result_statements fun _ _ _ =>
        result_andThen (result_expect ..) fun _ _ _ => rfl
    · simp [Grammar.block, Grammar.expect, ht]

/-- What follows an `else`. -/
def alternative : Action Stmt := fun ts =>
  if startsWithControl "if" ts then bareStatement.run ts else statement.run ts

def ifElse (position : Position) : Action Stmt := do
  let condition ← expression
  let consequent ← statement
  takeIf (·.isWord .controlKeyword "else") (fun _ => do
    let alternative ← alternative
    return .ifElse condition consequent (some alternative) position)
    (pure (.ifElse condition consequent none position))

theorem result_ifElse {position : Position} {h : ts.length < n} :
    (Grammar.ifElse (nestedStatement n) position ts h).result = (ifElse position).run ts := by
  refine result_andThen rfl fun condition rest h₁ =>
    result_andThen result_statement fun consequent rest₂ h₂ => ?_
  cases rest₂ with
  | nil => rfl
  | cons t more =>
    simp only [run_takeIf_cons]
    split
    · refine result_andThen ?_ fun _ _ _ => rfl
      show _ = if startsWithControl "if" more then _ else _
      split
      · rfl
      · exact result_statement
    · rfl

def whileLoop (position : Position) : Action Stmt := do
  let condition ← expression
  let body ← statement
  return .whileLoop condition body position

theorem result_whileLoop {position : Position} {h : ts.length < n} :
    (Grammar.whileLoop (nestedStatement n) position ts h).result = (whileLoop position).run ts :=
  result_andThen rfl fun _ _ _ => result_andThen result_statement fun _ _ _ => rfl

def optionalExpression (ending : TokenKind) : Action (Option Expr) :=
  stopIf (·.any (·.kind = ending)) none do
    let e ← expression
    return some e

def forInit : Action (Option ForInit) :=
  stopIf (·.any (·.kind = .comma)) none <|
    takeIf (·.kind = .typeKeyword) (fun type => do
      let v ← typedVariable type
      return some (.declare v)) do
      let e ← expression
      return some (.expression e)

def forClauses : Action ForHead := do
  let init ← forInit
  let _ ← expect .comma .forInitEnd
  let condition ← optionalExpression .comma
  let _ ← expect .comma .forConditionEnd
  let update ← optionalExpression .closeParen
  let _ ← expect .closeParen .forClose
  return ⟨init, condition, update⟩

def forHead : Action ForHead :=
  takeIf (·.kind = .openParen) (fun _ => forClauses) do
    let condition ← expression
    return ⟨none, some condition, none⟩

def forLoop (position : Position) : Action Stmt := do
  let head ← forHead
  let body ← statement
  return .forLoop head.init head.condition head.update body position

theorem startsWith_iff {kind : TokenKind} :
    startsWith kind ts = true ↔ ts.head?.any (·.kind = kind) = true := by
  cases ts <;> simp [startsWith]

theorem result_optionalExpression {ending : TokenKind} :
    (Grammar.optionalExpression ending ts).result = (optionalExpression ending).run ts := by
  rw [Grammar.optionalExpression, optionalExpression, run_stopIf]
  simp only [startsWith_iff]
  split
  · rfl
  · exact result_andThen rfl fun _ _ _ => rfl

theorem result_forInit : (Grammar.forInit ts).result = forInit.run ts := by
  rw [Grammar.forInit, forInit, run_stopIf]
  simp only [startsWith_iff]
  split
  · rfl
  cases ts with
  | nil => exact result_andThen rfl fun _ _ _ => rfl
  | cons t rest =>
    simp only [List.head?_cons, Option.any_some, decide_eq_true_eq, run_takeIf_cons]
    split
    · rename_i ht
      rw [← run_bind_congr (run_takeIf_pos ht : localVariable.run (t :: rest) = _)]
      exact result_andThen result_localVariable fun _ _ _ => rfl
    · exact result_andThen rfl fun _ _ _ => rfl

theorem result_forClauses : (Grammar.forClauses ts).result = forClauses.run ts :=
  result_andThen result_forInit fun _ _ _ => result_andThen (result_expect ..) fun _ _ _ =>
    result_andThen result_optionalExpression fun _ _ _ =>
      result_andThen (result_expect ..) fun _ _ _ =>
        result_andThen result_optionalExpression fun _ _ _ =>
          result_andThen (result_expect ..) fun _ _ _ => rfl

theorem result_forHead : (Grammar.forHead ts).result = forHead.run ts := by
  unfold Grammar.forHead
  cases ts with
  | nil => exact result_andThen rfl fun _ _ _ => rfl
  | cons t rest =>
    simp only [startsWith_cons, forHead, run_takeIf_cons]
    split
    · exact result_weaken.trans result_forClauses
    · exact result_andThen rfl fun _ _ _ => rfl

theorem result_forLoop {position : Position} {h : ts.length < n} :
    (Grammar.forLoop (nestedStatement n) position ts h).result = (forLoop position).run ts :=
  result_andThen result_forHead fun _ _ _ => result_andThen result_statement fun _ _ _ => rfl

def clauses (seen : Bool) : Action (List Clause × Option (List Stmt)) := fun ts =>
  (Grammar.clauses (nestedStatement (ts.length + 1)) seen ts shorter_succ).result

def caseClause (seen : Bool) (label : Token) : Action (List Clause × Option (List Stmt)) := do
  let value ← expression
  let _ ← expect .colon .caseEnd
  let body ← statements endsClause
  let others ← clauses seen
  return (.case value body label.position :: others.1, others.2)

def defaultClause : Action (List Clause × Option (List Stmt)) := do
  let _ ← expect .colon .defaultEnd
  let body ← statements endsClause
  let others ← clauses true
  return (others.1, some body)

/-- Where no case is in front: a default, unless there was one, or the end. -/
def lastClauses (seen : Bool) : Action (List Clause × Option (List Stmt)) :=
  if seen then refuse (·.isWord .controlKeyword "default") .duplicateDefault (pure ([], none))
  else takeIf (·.isWord .controlKeyword "default") (fun _ => defaultClause) (pure ([], none))

theorem clauses_step (k : Nat) : ∀ {seen : Bool} {n : Nat} {ts : List Token} {h : ts.length < n},
    ts.length = k → (Grammar.clauses (nestedStatement n) seen ts h).result =
      (takeIf (·.isWord .controlKeyword "case") (caseClause seen) (lastClauses seen)).run ts := by
  induction k using Nat.strongRecOn with
  | _ k ih =>
    have again : ∀ {seen : Bool} {m : Nat} {us : List Token} {h : us.length < m}, us.length < k →
        (Grammar.clauses (nestedStatement m) seen us h).result = (clauses seen).run us :=
      fun hlt => (ih _ hlt rfl).trans (ih _ hlt rfl).symm
    intro seen n ts h hk
    cases ts with
    | nil =>
      rw [Grammar.clauses]
      cases seen <;> rfl
    | cons t rest =>
      simp only [List.length_cons] at hk
      rw [Grammar.clauses, run_takeIf_cons]
      split
      · exact result_andThen rfl fun _ _ _ => result_andThen (result_expect ..) fun _ _ _ =>
          result_andThen result_statements fun _ _ _ =>
            result_andThen (again (by omega)) fun _ _ _ => rfl
      cases seen with
      | true =>
        simp only [lastClauses, if_true, run_refuse_cons]
        split <;> rfl
      | false =>
        simp only [lastClauses, Bool.false_eq_true, if_false, run_takeIf_cons]
        split
        · exact result_andThen (result_expect ..) fun _ _ _ =>
            result_andThen result_statements fun _ _ _ =>
              result_andThen (again (by omega)) fun _ _ _ => rfl
        · rfl

theorem clauses_eq (seen : Bool) : clauses seen =
    takeIf (·.isWord .controlKeyword "case") (caseClause seen) (lastClauses seen) :=
  funext fun _ => clauses_step _ rfl

def switch (position : Position) : Action Stmt := do
  let subject ← expression
  let _ ← expect .openBrace .switchOpen
  let found ← clauses false
  let _ ← expect .closeBrace .switchClose
  return .switch subject found.1 found.2 position

theorem result_switch {position : Position} {h : ts.length < n} :
    (Grammar.switch (nestedStatement n) position ts h).result = (switch position).run ts :=
  result_andThen rfl fun _ _ _ => result_andThen (result_expect ..) fun _ _ _ =>
    result_andThen ((clauses_step _ rfl).trans (clauses_step _ rfl).symm) fun _ _ _ =>
      result_andThen (result_expect ..) fun _ _ _ => rfl

/-- Whether a `return` with `t` after it has no value. -/
def endsReturn (t : Token) : Bool :=
  t.kind == .closeBrace || t.kind == .semicolon || t.kind == .controlKeyword ||
    t.kind == .typeKeyword

def returns (position : Position) : Action Stmt :=
  stopIf (·.all endsReturn) (.returns none position) do
    let value ← expression
    return .returns (some value) position

theorem result_returns {position : Position} :
    (Grammar.returns position ts).result = (returns position).run ts := by
  have hr : returnsNothing ts = ts.head?.all endsReturn := by cases ts <;> rfl
  rw [Grammar.returns, returns, run_stopIf, hr]
  split
  · rfl
  · exact result_andThen rfl fun _ _ _ => rfl

def expressionStatement : Action Stmt := fun ts => (do
  let e ← expression
  return .expression e (here ts) : Action Stmt).run ts

theorem bareStatement_eq : bareStatement =
    (takeIf (·.kind = .openBrace) (fun opening => do
        let b ← openedBlock opening
        return .block b.statements b.position) <|
      takeIf (·.isWord .controlKeyword "if") (fun t => ifElse t.position) <|
      takeIf (·.isWord .controlKeyword "while") (fun t => whileLoop t.position) <|
      takeIf (·.isWord .controlKeyword "for") (fun t => forLoop t.position) <|
      takeIf (·.isWord .controlKeyword "switch") (fun t => switch t.position) <|
      takeIf (·.isWord .controlKeyword "return") (fun t => returns t.position) <|
      takeIf (·.isWord .controlKeyword "break") (fun t => pure (.breaks t.position)) <|
      takeIf (·.isWord .controlKeyword "continue") (fun t => pure (.continues t.position)) <|
      takeIf (·.kind = .typeKeyword) (fun type => do
        let v ← typedVariable type
        return .declare v)
      expressionStatement) := by
  refine ext fun ts => ?_
  show (Grammar.bareStatement ts).result = _
  rw [Grammar.bareStatement]
  have plain : ∀ us : List Token,
      (Grammar.expressionStatement us).result = expressionStatement.run us :=
    fun us => result_andThen rfl fun _ _ _ => rfl
  cases ts with
  | nil => exact plain []
  | cons t rest =>
    rw [statementWith]
    simp only [run_takeIf_cons]
    split
    · rename_i ht
      rw [← run_bind_congr (run_takeIf_pos ht : block.run (t :: rest) = _)]
      exact result_andThen result_block fun _ _ _ => rfl
    split
    · exact result_weaken.trans result_ifElse
    split
    · exact result_weaken.trans result_whileLoop
    split
    · exact result_weaken.trans result_forLoop
    split
    · exact result_weaken.trans result_switch
    split
    · exact result_returns
    split
    · rfl
    split
    · rfl
    split
    · rename_i ht
      rw [← run_bind_congr (run_takeIf_pos ht : localVariable.run (t :: rest) = _)]
      exact result_andThen result_localVariable fun _ _ _ => rfl
    · exact plain (t :: rest)

/-- After `else`, an `if` leaves the terminator that may follow it. -/
theorem alternative_eq : alternative =
    takeIf (·.isWord .controlKeyword "if") (fun t => ifElse t.position) statement := by
  refine ext fun ts => ?_
  show (if startsWithControl "if" ts then bareStatement.run ts else statement.run ts) = _
  cases ts with
  | nil => rfl
  | cons t rest =>
    rw [run_takeIf_cons, startsWithControl]
    split
    · rename_i ht
      have hb : ¬t.kind = .openBrace := by
        rintro hk
        simp [Token.isWord, hk] at ht
      rw [bareStatement_eq, run_takeIf_cons, if_neg hb, run_takeIf_pos ht]
    · rfl

end Statements

section Programs

def parameter : Action Parameter :=
  take (·.kind = .typeKeyword) (.expected .parameterType) fun type => do
    let name ← name
    return ⟨type.text, name, type.position⟩

theorem result_parameter : (Grammar.parameter ts).result = parameter.run ts := by
  refine result_typeLed ?_
  rintro t rest rfl h
  exact result_andThen (result_name rest) fun _ _ _ => rfl

def parameterList : Action (List Parameter) := fun ts => (Grammar.parameterList ts).result

theorem parameterList_eq : parameterList = (do
    let p ← parameter
    takeIf (·.kind = .comma) (fun _ => do
      let ps ← parameterList
      return p :: ps) (pure [p])) := by
  refine ext fun ts => ?_
  show (Grammar.parameterList ts).result = _
  rw [Grammar.parameterList]
  refine result_andThen result_parameter fun p rest _ => ?_
  cases rest with
  | nil => rfl
  | cons t more =>
    simp only [run_takeIf_cons]
    split
    · exact result_andThen rfl fun _ _ _ => rfl
    · rfl

def closedParameters : Action (List Parameter) := do
  let ps ← parameterList
  let _ ← expect .closeParen .parametersClose
  return ps

/-- The word `void` and the closing parenthesis, or at least one parameter. -/
def voidOrParameters : Action (List Parameter) := fun ts =>
  if isVoidClose ts then .ok [] (ts.drop 2) else closedParameters.run ts

/-- Parameters in parentheses, after the opening one. -/
def openedParameters : Action (List Parameter) :=
  takeIf (·.kind = .closeParen) (fun _ => pure []) voidOrParameters

theorem result_parenthesized : (parenthesized ts).result =
    (take (·.kind = .openParen) (.expected .parametersOpen) fun _ => openedParameters).run ts := by
  unfold parenthesized
  cases ts with
  | nil => rfl
  | cons t rest =>
    rw [take, run_takeIf_cons]
    by_cases ht : t.kind = .openParen
    · simp only [Grammar.expect, ht, if_true, andThen_ok]
      by_cases hc : startsWith .closeParen rest = true
      · cases rest with
        | nil => simp [startsWith] at hc
        | cons u more =>
          have hu : u.kind = .closeParen := startsWith_cons.mp hc
          rw [if_pos hc, openedParameters, run_takeIf_pos hu]
          simp [hu]
      · have hu : ∀ u ∈ rest.head?, ¬u.kind = .closeParen := by
          cases rest <;> simp_all
        rw [if_neg hc, openedParameters, run_takeIf_neg hu]
        show _ = if isVoidClose rest then _ else _
        split
        · rfl
        · exact result_andThen rfl fun _ _ _ => result_andThen (result_expect ..) fun _ _ _ => rfl
    · simp [Grammar.expect, ht]

def bareParameters : Action (List Parameter) := fun ts => (Grammar.bareParameters ts).result

/-- Parameters without parentheses, after the first type. -/
def typedParameters (type : Token) : Action (List Parameter) :=
  stopIf (·.any (·.kind = .openBrace)) [] do
    let name ← name
    takeIf (·.kind = .comma) (fun _ => do
      let ps ← bareParameters
      return ⟨type.text, name, type.position⟩ :: ps) (pure [⟨type.text, name, type.position⟩])

theorem bareParameters_eq : bareParameters =
    take (·.kind = .typeKeyword) (.expected .parameterType) typedParameters := by
  refine ext fun ts => ?_
  show (Grammar.bareParameters ts).result = _
  rw [Grammar.bareParameters]
  refine result_typeLed ?_
  rintro t rest rfl h
  rw [typedParameters, run_stopIf]
  simp only [startsWith_iff]
  split
  · rfl
  · refine result_andThen (result_name rest) fun name rest₁ _ => ?_
    cases rest₁ with
    | nil => rfl
    | cons u more =>
      simp only [run_takeIf_cons]
      split
      · exact result_andThen rfl fun _ _ _ => rfl
      · rfl

def markedParameters : Action (List Parameter) :=
  takeIf (·.kind = .openParen) (fun _ => openedParameters) <|
  takeIf (·.isWord .typeKeyword "void") (fun _ => pure []) <|
  takeIf (·.kind = .typeKeyword) typedParameters (pure [])

theorem result_markedParameters :
    (Grammar.markedParameters ts).result = markedParameters.run ts := by
  unfold Grammar.markedParameters
  cases ts with
  | nil => rfl
  | cons t rest =>
    simp only [markedParameters, run_takeIf_cons]
    split
    · rename_i ht
      rw [result_weaken, result_parenthesized, take, run_takeIf_pos ht]
    split
    · rfl
    split
    · rename_i ht
      rw [result_weaken]
      show bareParameters.run (t :: rest) = _
      rw [bareParameters_eq, take, run_takeIf_pos ht]
    · rfl

def markedFunction : Action Function :=
  take (·.kind = .typeKeyword) (.expected .returnType) fun type => do
    let name ← name
    let parameters ← markedParameters
    let body ← block
    return ⟨type.text, name, parameters, body, type.position⟩

theorem result_markedFunction : (Grammar.markedFunction ts).result = markedFunction.run ts := by
  refine result_typeLed ?_
  rintro t rest rfl h
  exact result_andThen (result_name rest) fun _ _ _ =>
    result_andThen result_markedParameters fun _ _ _ => result_andThen result_block fun _ _ _ => rfl

/-- A function or a variable after its type. -/
def typedDeclaration (type : Token) : Action Declaration := do
  let name ← name
  takeIf (·.kind = .openParen) (fun _ => do
    let parameters ← openedParameters
    let body ← block
    return .function ⟨type.text, name, parameters, body, type.position⟩) do
    let v ← variableRest type.text name type.position
    return .global v

theorem result_typedDeclaration : (typeLed ts).result =
    (take (·.kind = .typeKeyword) (.expected .type) typedDeclaration).run ts := by
  refine result_typeLed ?_
  rintro t rest rfl h
  refine result_andThen (result_name rest) fun name rest₁ _ => ?_
  cases rest₁ with
  | nil =>
    rw [if_neg (by simp [startsWith]), run_takeIf_nil]
    exact result_andThen result_variableRest fun _ _ _ => rfl
  | cons u more =>
    simp only [startsWith_cons, run_takeIf_cons]
    split
    · rename_i hu
      rw [← run_bind_congr (run_takeIf_pos hu : (take (·.kind = .openParen)
        (.expected .parametersOpen) fun _ => openedParameters).run (u :: more) = _)]
      exact result_andThen result_parenthesized fun _ _ _ =>
        result_andThen result_block fun _ _ _ => rfl
    · exact result_andThen result_variableRest fun _ _ _ => rfl

def declaration : Action Declaration :=
  takeIf (·.isWord .otherKeyword Vocabulary.functionMarker) (fun _ => do
    let f ← terminated markedFunction
    return .function f) <|
  takeIf (·.kind = .typeKeyword) (fun type => terminated (typedDeclaration type)) do
    let s ← statement
    return .statement s

theorem result_declaration : (Grammar.declaration ts).result = declaration.run ts := by
  have plain : ∀ us : List Token, (Grammar.statement us).result = statement.run us :=
    fun us => result_terminated rfl
  unfold Grammar.declaration
  cases ts with
  | nil => exact result_andThen (plain []) fun _ _ _ => rfl
  | cons t rest =>
    simp only [declaration, run_takeIf_cons]
    split
    · exact result_andThen (result_terminated result_markedFunction) fun _ _ _ => rfl
    split
    · rename_i ht
      rw [result_terminated result_typedDeclaration]
      exact run_bind_congr (run_takeIf_pos ht) _
    · exact result_andThen (plain _) fun _ _ _ => rfl

/-- A declaration is never empty. -/
theorem length_of_declaration {rest : List Token} {d : Declaration}
    (h : declaration.run ts = .ok d rest) : rest.length < ts.length :=
  (result_eq_ok_iff.mp (result_declaration.trans h)).shorter

end Programs

end Action

/-- A program is read declaration by declaration. -/
theorem declarations_eq (ts : List Token) : declarations ts =
    if ts.isEmpty then .ok []
    else
      match Action.declaration.run ts with
      | .ok d rest => (declarations rest).map (d :: ·)
      | .error problem rest => .error (problem, rest) := by
  rw [declarations, ← Action.result_declaration]
  split
  · rfl
  · cases declaration ts <;> rfl

theorem declarations_of_ok {ts rest : List Token} {d : Declaration}
    (h : Action.declaration.run ts = .ok d rest) :
    declarations ts = (declarations rest).map (d :: ·) := by
  have hne : ¬ts.isEmpty = true := by
    intro hempty
    have hshort := Action.length_of_declaration h
    simp [List.isEmpty_iff.mp hempty] at hshort
  rw [declarations_eq, if_neg hne, h]

theorem declarations_of_error {ts rest : List Token} {problem : Problem} (hne : ts ≠ [])
    (h : Action.declaration.run ts = .error problem rest) :
    declarations ts = .error (problem, rest) := by
  rw [declarations_eq, if_neg (by simpa using hne), h]

end KanaScript.Grammar
