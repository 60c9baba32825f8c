import KanaScript.Proofs.Grammar.ExpressionSteps

/-! The rules of the grammar as actions on the tokens that are left.  An action forgets the bound on
what a reading leaves, so that a rule can be run on any tokens; for each rule the action is put
together from a few combinators, and the rule does the same as its action. -/

namespace KanaScript.Grammar

/-- A rule without the bound on what it leaves. -/
abbrev Action := EStateM Problem (List Token)

namespace Reading

variable {m n : Nat} {α β : Type}

/-- A reading without its bound. -/
def result : Reading n α → EStateM.Result Problem (List Token) α
  | ok value rest _ => .ok value rest
  | failed problem rest => .error problem rest

@[simp]
theorem result_ok {value : α} {rest : List Token} {shorter : rest.length < n} :
    (ok value rest shorter).result = .ok value rest := rfl

@[simp]
theorem result_failed {problem : Problem} {rest : List Token} :
    (failed problem rest : Reading n α).result = .error problem rest := rfl

@[simp]
theorem result_weaken {reading : Reading m α} {le : m ≤ n} :
    (reading.weaken le).result = reading.result := by
  cases reading <;> rfl

theorem result_eq_ok_iff {reading : Reading n α} {value : α} {rest : List Token} :
    reading.result = .ok value rest ↔ reading.Yields value rest := by
  cases reading with
  | ok v middle shorter => simp
  | failed problem middle => simp

/-- A sequence of readings is the sequence of their actions. -/
theorem result_andThen {reading : Reading m α}
    {next : (value : α) → (rest : List Token) → rest.length < m → Reading n β} {ts : List Token}
    {first : Action α} {second : α → Action β} (hfirst : reading.result = first.run ts)
    (hsecond : ∀ value rest h, (next value rest h).result = (second value).run rest) :
    (reading.andThen next).result = (first >>= second).run ts := by
  show _ = EStateM.bind first second ts
  rw [EStateM.bind, show first ts = first.run ts from rfl, ← hfirst]
  cases reading with
  | ok value rest h => exact hsecond value rest h
  | failed problem rest => rfl

end Reading

open Reading

namespace Action

variable {α β : Type}

theorem ext {first second : Action α} (h : ∀ ts, first.run ts = second.run ts) : first = second :=
  funext h

theorem bind_of_ok {first : Action α} {second : α → Action β} {ts rest : List Token} {value : α}
    (h : first.run ts = .ok value rest) : (first >>= second).run ts = (second value).run rest := by
  show EStateM.bind first second ts = _
  rw [EStateM.bind, show first ts = _ from h]
  rfl

theorem bind_of_error {first : Action α} {second : α → Action β} {ts rest : List Token}
    {problem : Problem} (h : first.run ts = .error problem rest) :
    (first >>= second).run ts = .error problem rest := by
  show EStateM.bind first second ts = _
  rw [EStateM.bind, show first ts = _ from h]

theorem run_bind_congr {first first' : Action α} {ts us : List Token}
    (h : first.run ts = first'.run us) (second : α → Action β) :
    (first >>= second).run ts = (first' >>= second).run us := by
  cases hu : first'.run us with
  | ok value rest => rw [bind_of_ok hu, bind_of_ok (h.trans hu)]
  | error problem rest => rw [bind_of_error hu, bind_of_error (h.trans hu)]

@[simp]
theorem run_pure (value : α) (ts : List Token) : (pure value : Action α).run ts = .ok value ts :=
  rfl

@[simp]
theorem run_throw (problem : Problem) (ts : List Token) :
    (throw problem : Action α).run ts = .error problem ts := rfl

/-- Takes the token in front and goes on with it if it is one that `accepts` holds of. -/
def takeIf (accepts : Token → Prop) [DecidablePred accepts] (taken : Token → Action α)
    (otherwise : Action α) : Action α
  | t :: rest => if accepts t then (taken t).run rest else otherwise.run (t :: rest)
  | [] => otherwise.run []

/-- Takes the token in front, which has to be one that `accepts` holds of. -/
def take (accepts : Token → Prop) [DecidablePred accepts] (problem : Problem)
    (taken : Token → Action α) : Action α :=
  takeIf accepts taken (throw problem)

/-- Stops with `value` if `stops` holds of the token in front. -/
def stopIf (stops : Option Token → Prop) [DecidablePred stops] (value : α)
    (otherwise : Action α) : Action α :=
  fun ts => if stops ts.head? then .ok value ts else otherwise.run ts

/-- Refuses a token in front that `accepts` holds of. -/
def refuse (accepts : Token → Prop) [DecidablePred accepts] (problem : Problem)
    (otherwise : Action α) : Action α
  | t :: rest => if accepts t then .error problem (t :: rest) else otherwise.run (t :: rest)
  | [] => otherwise.run []

section

variable {accepts : Token → Prop} [DecidablePred accepts] {taken : Token → Action α}
  {otherwise : Action α} {t : Token} {ts : List Token}

theorem run_takeIf_nil : (takeIf accepts taken otherwise).run [] = otherwise.run [] := rfl

theorem run_takeIf_cons : (takeIf accepts taken otherwise).run (t :: ts) =
    if accepts t then (taken t).run ts else otherwise.run (t :: ts) := rfl

theorem run_takeIf_pos (h : accepts t) :
    (takeIf accepts taken otherwise).run (t :: ts) = (taken t).run ts := by
  rw [run_takeIf_cons, if_pos h]

theorem run_takeIf_neg (h : ∀ t ∈ ts.head?, ¬accepts t) :
    (takeIf accepts taken otherwise).run ts = otherwise.run ts := by
  cases ts with
  | nil => rfl
  | cons t rest => rw [run_takeIf_cons, if_neg (h t rfl)]

theorem run_stopIf {stops : Option Token → Prop} [DecidablePred stops] {value : α} :
    (stopIf stops value otherwise).run ts =
      if stops ts.head? then .ok value ts else otherwise.run ts := rfl

theorem run_refuse_cons {problem : Problem} : (refuse accepts problem otherwise).run (t :: ts) =
    if accepts t then .error problem (t :: ts) else otherwise.run (t :: ts) := rfl

end

def expect (kind : TokenKind) (what : Expectation) : Action Token :=
  take (·.kind = kind) (.expected what) pure

def name : Action String :=
  take (fun t => t.kind = .identifier ∨ t.kind = .otherKeyword) (.expected .name) (pure ·.text)

/-- Drops one terminator. -/
def terminator : Action Unit := takeIf (·.kind = .semicolon) (fun _ => pure ()) (pure ())

/-- The action and the terminator after it. -/
def terminated (action : Action α) : Action α := do
  let value ← action
  terminator
  return value

theorem result_expect (kind : TokenKind) (what : Expectation) (ts : List Token) :
    (Grammar.expect kind what ts).result = (expect kind what).run ts := by
  cases ts with
  | nil => rfl
  | cons t rest =>
    rw [Grammar.expect, expect, take, run_takeIf_cons]
    split <;> rfl

theorem result_name (ts : List Token) : (Grammar.name ts).result = name.run ts := by
  cases ts with
  | nil => rfl
  | cons t rest =>
    rw [Grammar.name, name, take, run_takeIf_cons]
    split <;> rfl

theorem run_terminator (ts : List Token) : terminator.run ts = .ok () (skipTerminator ts) := by
  cases ts with
  | nil => rfl
  | cons t rest =>
    rw [terminator, run_takeIf_cons, skipTerminator]
    split <;> rfl

theorem result_terminated {n : Nat} {reading : Reading n α} {action : Action α} {ts : List Token}
    (h : reading.result = action.run ts) :
    reading.terminated.result = (terminated action).run ts := by
  cases reading with
  | failed problem rest =>
    rw [terminated, bind_of_error h.symm]
    rfl
  | ok value rest shorter =>
    rw [terminated, bind_of_ok h.symm, bind_of_ok (run_terminator rest)]
    rfl

section Success

/-! What a run that succeeds is made of. -/

variable {ts rest : List Token}

theorem run_bind_eq_ok_iff {first : Action α} {second : α → Action β} {v : β} :
    (first >>= second).run ts = .ok v rest ↔
      ∃ a middle, first.run ts = .ok a middle ∧ (second a).run middle = .ok v rest := by
  cases hrun : first.run ts with
  | error problem middle => simp [bind_of_error hrun]
  | ok a middle =>
    rw [bind_of_ok hrun]
    constructor
    · exact fun h => ⟨a, middle, rfl, h⟩
    · rintro ⟨_, _, ⟨⟩, h⟩
      exact h

theorem run_map_eq_ok_iff {action : Action α} {k : α → β} {w : β} :
    (do return k (← action) : Action β).run ts = .ok w rest ↔
      ∃ v, action.run ts = .ok v rest ∧ k v = w := by
  cases hrun : action.run ts with
  | error problem middle =>
    rw [bind_of_error hrun]
    simp
  | ok v middle =>
    rw [bind_of_ok hrun]
    simp only [run_pure, EStateM.Result.ok.injEq]
    constructor
    · rintro ⟨rfl, rfl⟩
      exact ⟨v, ⟨rfl, rfl⟩, rfl⟩
    · rintro ⟨_, ⟨rfl, rfl⟩, rfl⟩
      exact ⟨rfl, rfl⟩

theorem run_terminated_eq_ok_iff {action : Action α} {v : α} :
    (terminated action).run ts = .ok v rest ↔
      ∃ middle, action.run ts = .ok v middle ∧ skipTerminator middle = rest := by
  cases hrun : action.run ts with
  | error problem middle =>
    rw [terminated, bind_of_error hrun]
    simp
  | ok w middle =>
    rw [terminated, bind_of_ok hrun, bind_of_ok (run_terminator middle)]
    simp only [run_pure, EStateM.Result.ok.injEq]
    constructor
    · rintro ⟨rfl, rfl⟩
      exact ⟨middle, ⟨rfl, rfl⟩, rfl⟩
    · rintro ⟨_, ⟨rfl, rfl⟩, rfl⟩
      exact ⟨rfl, rfl⟩

theorem run_take_eq_ok_iff {accepts : Token → Prop} [DecidablePred accepts] {problem : Problem}
    {taken : Token → Action α} {v : α} :
    (take accepts problem taken).run ts = .ok v rest ↔
      ∃ t us, ts = t :: us ∧ accepts t ∧ (taken t).run us = .ok v rest := by
  cases ts with
  | nil => simp [take, run_takeIf_nil]
  | cons t us =>
    rw [take, run_takeIf_cons]
    split
    · rename_i ht
      constructor
      · exact fun h => ⟨t, us, rfl, ht, h⟩
      · rintro ⟨_, _, ⟨⟩, -, h⟩
        exact h
    · rename_i ht
      constructor
      · nofun
      · rintro ⟨_, _, ⟨⟩, h, -⟩
        exact absurd h ht

theorem run_expect_eq_ok_iff {kind : TokenKind} {what : Expectation} {t : Token} :
    (expect kind what).run ts = .ok t rest ↔ ts = t :: rest ∧ t.kind = kind := by
  rw [expect, run_take_eq_ok_iff]
  simp only [run_pure, EStateM.Result.ok.injEq]
  constructor
  · rintro ⟨u, us, rfl, hu, rfl, rfl⟩
    exact ⟨rfl, hu⟩
  · rintro ⟨rfl, ht⟩
    exact ⟨t, rest, rfl, ht, rfl, rfl⟩

end Success

section Expressions

/-! For a loop of the grammar the action is the loop itself, run with the least bound; that the
bound does not matter is shown with the step of the loop. -/

variable {n : Nat} {ts : List Token}

def expression : Action Expr := fun ts => (Grammar.expression ts).result

def primary : Action Expr :=
  takeIf (·.kind = .number) (fun t =>
    match t.payload with
    | .number value => pure (.number value t.position)
    | _ => throw (.malformedNumber t)) <|
  takeIf (·.kind = .stringLiteral) (fun t => pure (.string t.text t.position)) <|
  takeIf (·.kind = .charLiteral) (fun t => pure (.char t.text t.position)) <|
  takeIf (·.kind = .openParen) (fun _ => do
    let e ← expression
    let _ ← expect .closeParen .groupClose
    return e) <|
  take (fun t => t.kind = .identifier ∨ t.kind = .otherKeyword ∨ t.kind = .controlKeyword)
    .unexpectedToken fun t => pure (.name t.text t.position)

theorem result_primary {h : ts.length < n + 1} :
    (Grammar.primary (nestedExpression n) ts h).result = primary.run ts := by
  cases ts with
  | nil => rfl
  | cons t rest =>
    obtain ⟨kind, payload, position⟩ := t
    cases kind
    case number => cases payload <;> rfl
    case openParen =>
      exact result_andThen rfl fun e rest _ => result_andThen (result_expect ..) fun _ _ _ => rfl
    all_goals rfl

def expressionList : Action (List Expr) := fun ts =>
  (Grammar.expressionList (nestedExpression (ts.length + 1)) ts shorter_succ).result

def moreExpressions (e : Expr) : Action (List Expr) :=
  takeIf (·.kind = .comma) (fun _ => do
    let es ← expressionList
    return e :: es) (pure [e])

theorem expressionList_step (k : Nat) : ∀ {n : Nat} {ts : List Token} {h : ts.length < n},
    ts.length = k → (Grammar.expressionList (nestedExpression n) ts h).result =
      (expression >>= moreExpressions).run ts := by
  induction k using Nat.strongRecOn with
  | _ k ih =>
    intro n ts h hk
    rw [Grammar.expressionList]
    refine result_andThen rfl fun e rest h₁ => ?_
    cases rest with
    | nil => rfl
    | cons t more =>
      have hlt : more.length < k := by
        simp only [List.length_cons] at h₁
        omega
      have again : ∀ {m : Nat} {h : more.length < m},
          (Grammar.expressionList (nestedExpression m) more h).result = expressionList.run more :=
        (ih _ hlt rfl).trans (ih _ hlt rfl).symm
      simp only [moreExpressions, run_takeIf_cons]
      split
      · exact result_andThen again fun _ _ _ => rfl
      · rfl

theorem expressionList_eq : expressionList = expression >>= moreExpressions :=
  funext fun _ => expressionList_step _ rfl

def arguments : Action (List Expr) :=
  takeIf (·.kind = .closeParen) (fun _ => pure []) do
    let es ← expressionList
    let _ ← expect .closeParen .argumentsClose
    return es

theorem result_arguments {h : ts.length < n} :
    (Grammar.arguments (nestedExpression n) ts h).result = arguments.run ts := by
  have list : ∀ {us : List Token} {h : us.length < n},
      (Grammar.expressionList (nestedExpression n) us h).result = expressionList.run us :=
    (expressionList_step _ rfl).trans (expressionList_step _ rfl).symm
  by_cases hc : startsWith .closeParen ts = true
  · cases ts with
    | nil => simp [startsWith] at hc
    | cons t rest =>
      have ht : t.kind = .closeParen := startsWith_cons.mp hc
      simp [Grammar.arguments, arguments, run_takeIf_cons, Grammar.expect, hc, ht]
  · have ht : ∀ t ∈ ts.head?, ¬t.kind = .closeParen := by
      cases ts <;> simp_all
    simp only [Grammar.arguments, arguments, run_takeIf_neg ht, if_neg hc]
    exact result_andThen list fun _ _ _ => result_andThen (result_expect ..) fun _ _ _ => rfl

def suffixes (e : Expr) : Action Expr := fun ts =>
  (Grammar.suffixes (nestedExpression ts.length) e ts shorter_succ).result

theorem suffixes_step (k : Nat) : ∀ {n : Nat} {e : Expr} {ts : List Token} {h : ts.length < n + 1},
    ts.length = k → (Grammar.suffixes (nestedExpression n) e ts h).result =
      (takeIf (·.kind = .openParen) (fun _ => do
          let es ← arguments
          suffixes (.call e es e.position)) <|
        takeIf (·.kind = .openBracket) (fun _ => do
          let index ← expression
          let _ ← expect .closeBracket .indexClose
          suffixes (.index e index e.position)) <|
        takeIf (isOperator suffixOperators ·) (fun t => suffixes (.suffixed t.text e e.position))
          (pure e)).run ts := by
  induction k using Nat.strongRecOn with
  | _ k ih =>
    have again : ∀ {n : Nat} {e : Expr} {us : List Token} {h : us.length < n + 1}, us.length < k →
        (Grammar.suffixes (nestedExpression n) e us h).result = (suffixes e).run us :=
      fun hlt => (ih _ hlt rfl).trans (ih _ hlt rfl).symm
    intro n e ts h hk
    cases ts with
    | nil =>
      rw [Grammar.suffixes]
      rfl
    | cons t rest =>
      simp only [List.length_cons] at hk
      rw [Grammar.suffixes]
      simp only [run_takeIf_cons]
      split
      · refine result_andThen result_arguments fun es rest₁ h₁ => ?_
        rw [result_weaken]
        exact again (by omega)
      split
      · refine result_andThen rfl fun index rest₁ h₁ =>
          result_andThen (result_expect ..) fun _ rest₂ h₂ => ?_
        rw [result_weaken]
        exact again (by omega)
      split
      · rw [result_weaken]
        exact again (by omega)
      · rfl

theorem suffixes_eq (e : Expr) : suffixes e =
    (takeIf (·.kind = .openParen) (fun _ => do
        let es ← arguments
        suffixes (.call e es e.position)) <|
      takeIf (·.kind = .openBracket) (fun _ => do
        let index ← expression
        let _ ← expect .closeBracket .indexClose
        suffixes (.index e index e.position)) <|
      takeIf (isOperator suffixOperators ·) (fun t => suffixes (.suffixed t.text e e.position))
        (pure e)) :=
  funext fun _ => suffixes_step _ rfl

theorem result_suffixes {e : Expr} {h : ts.length < n + 1} :
    (Grammar.suffixes (nestedExpression n) e ts h).result = (suffixes e).run ts :=
  (suffixes_step _ rfl).trans (suffixes_step _ rfl).symm

def prefixed : Action Expr := fun ts =>
  (Grammar.prefixed (nestedExpression ts.length) ts shorter_succ).result

theorem prefixed_step : ∀ {ts : List Token} {n : Nat} {h : ts.length < n + 1},
    (Grammar.prefixed (nestedExpression n) ts h).result =
      (takeIf (isOperator prefixOperators ·) (fun t => do
        let e ← prefixed
        return .prefixed t.text e t.position) (primary >>= suffixes)).run ts := by
  intro ts
  induction ts with
  | nil => exact fun {_ _} => rfl
  | cons t rest ih =>
    intro n h
    rw [Grammar.prefixed, run_takeIf_cons]
    split
    · exact result_andThen (ih.trans ih.symm) fun _ _ _ => rfl
    · exact result_andThen result_primary fun e rest₁ _ => result_weaken.trans result_suffixes

theorem prefixed_eq : prefixed =
    takeIf (isOperator prefixOperators ·) (fun t => do
      let e ← prefixed
      return .prefixed t.text e t.position) (primary >>= suffixes) :=
  funext fun _ => prefixed_step

theorem result_prefixed {h : ts.length < n + 1} :
    (Grammar.prefixed (nestedExpression n) ts h).result = prefixed.run ts :=
  prefixed_step.trans prefixed_step.symm

def chain (ops : List String) (tighter : List (List String)) (left : Expr) : Action Expr :=
  fun ts => (Grammar.chain (Grammar.binary (operandRule ts.length) tighter) ops left ts
    shorter_succ).result

def binary : List (List String) → Action Expr
  | [] => prefixed
  | ops :: tighter => binary tighter >>= chain ops tighter

theorem chain_step {ops : List String} {tighter : List (List String)}
    (operand : ∀ {n : Nat} {ts : List Token} {h : ts.length < n + 1},
      (Grammar.binary (operandRule n) tighter ts h).result = (binary tighter).run ts) (k : Nat) :
    ∀ {n : Nat} {left : Expr} {ts : List Token} {h : ts.length < n + 1}, ts.length = k →
      (Grammar.chain (Grammar.binary (operandRule n) tighter) ops left ts h).result =
        (takeIf (isOperator ops ·) (fun t => do
          let right ← binary tighter
          chain ops tighter (.binary t.text left right left.position)) (pure left)).run ts := by
  induction k using Nat.strongRecOn with
  | _ k ih =>
    intro n left ts h hk
    cases ts with
    | nil =>
      rw [Grammar.chain]
      rfl
    | cons t rest =>
      simp only [List.length_cons] at hk
      rw [Grammar.chain, run_takeIf_cons]
      split
      · refine result_andThen operand fun right rest₁ h₁ => result_weaken.trans ?_
        exact (ih _ (by omega) rfl).trans (ih _ (by omega) rfl).symm
      · rfl

theorem result_binary : ∀ (levels : List (List String)) {n : Nat} {ts : List Token}
    {h : ts.length < n + 1},
      (Grammar.binary (operandRule n) levels ts h).result = (binary levels).run ts
  | [] => result_prefixed
  | ops :: tighter => by
    refine result_andThen (result_binary tighter) fun left rest h₁ => result_weaken.trans ?_
    have step := @chain_step ops tighter (result_binary tighter)
    exact (step _ rfl).trans (step _ rfl).symm

theorem chain_eq (ops : List String) (tighter : List (List String)) (left : Expr) :
    chain ops tighter left =
      takeIf (isOperator ops ·) (fun t => do
        let right ← binary tighter
        chain ops tighter (.binary t.text left right left.position)) (pure left) :=
  funext fun _ => chain_step (result_binary tighter) _ rfl

theorem expression_eq : expression = (do
    let target ← binary binaryLevels
    takeIf (·.isWord .operator "=") (fun _ => do
      let value ← expression
      return .assign target value target.position) (pure target)) := by
  funext ts
  show (Grammar.expression ts).result = _
  rw [Grammar.expression, assignment]
  refine result_andThen (result_binary _) fun target rest _ => ?_
  cases rest with
  | nil => rfl
  | cons t more =>
    simp only [run_takeIf_cons]
    split
    · exact result_andThen rfl fun _ _ _ => rfl
    · rfl

end Expressions

end Action

end KanaScript.Grammar
