import KanaScript.Token.Basic

/-! Readings.  A rule of the grammar reads a value from the front of a list of tokens.  A reading that
succeeds leaves fewer tokens than it was given, which is what ends every recursion of the grammar;
one that fails says why and what was left where it stopped. -/

namespace KanaScript.Grammar

/-- What a rule needs at a certain place. -/
inductive Expectation
  | name
  | type
  | returnType
  | parameterType
  | parametersOpen
  | parametersClose
  | blockOpen
  | blockClose
  | sizeClose
  | forInitEnd
  | forConditionEnd
  | forClose
  | switchOpen
  | switchClose
  | caseEnd
  | defaultEnd
  | argumentsClose
  | indexClose
  | groupClose
deriving DecidableEq

def Expectation.text : Expectation → String
  | name => "identifier"
  | type => "type"
  | returnType => "return type"
  | parameterType => "parameter type"
  | parametersOpen => "'(' before parameters"
  | parametersClose => "')' after parameters"
  | blockOpen => "'\x7b' to open block"
  | blockClose => "'\x7d' after block"
  | sizeClose => "']' after array size"
  | forInitEnd => "',' after for initializer"
  | forConditionEnd => "',' after for condition"
  | forClose => "')' after for clauses"
  | switchOpen => "'\x7b' after switch subject"
  | switchClose => "'\x7d' after switch body"
  | caseEnd => "':' after case value"
  | defaultEnd => "':' after default"
  | argumentsClose => "')' after arguments"
  | indexClose => "']' after index"
  | groupClose => "')' after expression"

/-- Why a reading failed. -/
inductive Problem
  | expected (what : Expectation)
  | unexpectedToken
  | duplicateDefault
  /-- A number token that carries no number. -/
  | malformedNumber (token : Token)
deriving DecidableEq

/-- A value read with what is left, fewer than `n` tokens; or a problem and what was left there. -/
inductive Reading (n : Nat) (α : Type)
  | ok (value : α) (rest : List Token) (shorter : rest.length < n)
  | failed (problem : Problem) (rest : List Token)

/-- A rule for any input of fewer than `n` tokens. -/
abbrev Rule (n : Nat) (α : Type) := (ts : List Token) → ts.length < n → Reading ts.length α

section Bounds

variable {n : Nat} {t : Token} {ts rest more : List Token}

/-! Bounds on what is left.  The rules use them by name, so that no rule holds a proof of its own
that another one holds too. -/

theorem shorter_succ : ts.length < ts.length + 1 := Nat.lt_succ_self _

theorem shorter_succ_cons : (t :: rest).length < (t :: rest).length + 1 := Nat.lt_succ_self _

theorem shorter_succ_nil : ([] : List Token).length < ([] : List Token).length + 1 :=
  Nat.lt_succ_self _

theorem shorter_tail : rest.length < (t :: rest).length := Nat.lt_succ_self _

theorem shorter_trans (h : more.length < rest.length) (h' : rest.length < ts.length) :
    more.length < ts.length := Nat.lt_trans h h'

theorem lt_of_shorter (h : rest.length < ts.length) (h' : ts.length < n) : rest.length < n :=
  Nat.lt_trans h h'

theorem lt_succ_of_shorter (h : rest.length < ts.length) : rest.length < ts.length + 1 :=
  Nat.lt_succ_of_lt h

theorem tail_lt (h : (t :: rest).length < n + 1) : rest.length < n := Nat.lt_of_succ_lt_succ h

end Bounds

namespace Reading

variable {m n : Nat} {α β : Type}

/-- Goes on with the value and the rest of a reading that succeeded. -/
def andThen (reading : Reading m α)
    (next : (value : α) → (rest : List Token) → rest.length < m → Reading n β) : Reading n β :=
  match reading with
  | ok value rest shorter => next value rest shorter
  | failed problem rest => failed problem rest

@[simp]
theorem andThen_ok (value : α) (rest : List Token) (shorter : rest.length < m)
    (next : (value : α) → (rest : List Token) → rest.length < m → Reading n β) :
    (ok value rest shorter).andThen next = next value rest shorter := rfl

@[simp]
theorem andThen_failed (problem : Problem) (rest : List Token)
    (next : (value : α) → (rest : List Token) → rest.length < m → Reading n β) :
    (failed problem rest).andThen next = failed problem rest := rfl

/-- The same reading under a weaker bound. -/
def weaken (reading : Reading m α) (h : m ≤ n) : Reading n α :=
  match reading with
  | ok value rest shorter => ok value rest (Nat.lt_of_lt_of_le shorter h)
  | failed problem rest => failed problem rest

end Reading

/-- The token in front, if it is of kind `kind`. -/
def expect (kind : TokenKind) (what : Expectation) (ts : List Token) : Reading ts.length Token :=
  match ts with
  | t :: rest =>
    if t.kind = kind then .ok t rest shorter_tail else .failed (.expected what) (t :: rest)
  | [] => .failed (.expected what) []

theorem expect_eq_ok_iff {kind : TokenKind} {what : Expectation} {ts : List Token} {t : Token}
    {rest : List Token} {shorter : rest.length < ts.length} :
    expect kind what ts = .ok t rest shorter ↔ ts = t :: rest ∧ t.kind = kind := by
  cases ts with
  | nil => simp [expect]
  | cons u us =>
    simp only [expect]
    by_cases hu : u.kind = kind
    · simp only [hu, if_true]
      constructor
      · intro e
        cases e
        exact ⟨rfl, hu⟩
      · rintro ⟨e, -⟩
        cases e
        rfl
    · simp only [hu, if_false]
      constructor
      · intro e
        cases e
      · rintro ⟨e, ht⟩
        cases e
        exact absurd ht hu

/-- Whether the token in front is of kind `kind`. -/
def startsWith (kind : TokenKind) (ts : List Token) : Bool :=
  match ts with
  | t :: _ => t.kind == kind
  | [] => false

/-- Whether the token in front is the control keyword `word`. -/
def startsWithControl (word : String) (ts : List Token) : Bool :=
  match ts with
  | t :: _ => t.isWord .controlKeyword word
  | [] => false

/-- Whether `t` is one of the operators `ops`. -/
def isOperator (ops : List String) (t : Token) : Bool :=
  t.kind == .operator && ops.contains t.text

/-- Drops one terminator. -/
def skipTerminator (ts : List Token) : List Token :=
  match ts with
  | t :: rest => if t.kind = .semicolon then rest else t :: rest
  | [] => []

theorem length_skipTerminator_le (ts : List Token) : (skipTerminator ts).length ≤ ts.length := by
  unfold skipTerminator
  split
  · split <;> simp
  · simp

/-- The reading with the terminator after it dropped. -/
def Reading.terminated {n : Nat} {α : Type} (reading : Reading n α) : Reading n α :=
  match reading with
  | ok value rest shorter =>
    ok value (skipTerminator rest) (Nat.lt_of_le_of_lt (length_skipTerminator_le rest) shorter)
  | failed problem rest => failed problem rest

/-- The C spelling of a type. -/
def typeName (what : Expectation) (ts : List Token) : Reading ts.length String :=
  (expect .typeKeyword what ts).andThen fun t rest h => .ok t.text rest h

/-- A name: an identifier, or a keyword that is neither a type nor control flow. -/
def name (ts : List Token) : Reading ts.length String :=
  match ts with
  | t :: rest =>
    if t.kind = .identifier ∨ t.kind = .otherKeyword then .ok t.text rest shorter_tail
    else .failed (.expected .name) (t :: rest)
  | [] => .failed (.expected .name) []

end KanaScript.Grammar
