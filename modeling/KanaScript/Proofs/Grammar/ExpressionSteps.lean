import KanaScript.Proofs.Grammar.Derivation
import KanaScript.Proofs.Grammar.Yield

/-! What each rule for expressions yields in one step: the token in front decides which way the rule
goes, and each way is stated with what the rules it calls yield. -/

namespace KanaScript.Grammar

open Reading

/-- The rule for the expressions nested in an expression. -/
def nestedExpression (n : Nat) : Rule n Expr := fun ts _ => expression ts

/-- The rule for the operands of binary operators. -/
def operandRule (n : Nat) : Rule (n + 1) Expr := fun ts h => prefixed (nestedExpression n) ts h

variable {n : Nat} {ts rest : List Token} {t : Token} {e v : Expr}

theorem yields_primary {h : (t :: ts).length < n + 1} :
    (primary (nestedExpression n) (t :: ts) h).Yields v rest ↔
      (∃ value, t.kind = .number ∧ t.payload = .number value ∧ v = .number value t.position ∧
        rest = ts) ∨
      (t.kind = .stringLiteral ∧ v = .string t.text t.position ∧ rest = ts) ∨
      (t.kind = .charLiteral ∧ v = .char t.text t.position ∧ rest = ts) ∨
      ((t.kind = .identifier ∨ t.kind = .otherKeyword ∨ t.kind = .controlKeyword) ∧
        v = .name t.text t.position ∧ rest = ts) ∨
      (t.kind = .openParen ∧ ∃ u : Token, (expression ts).Yields v (u :: rest) ∧
        u.kind = .closeParen) := by
  obtain ⟨kind, payload, position⟩ := t
  cases kind
  case number => cases payload <;> simp [primary, eq_comm]
  case openParen =>
    simp only [primary, yields_andThen, yields_expect, yields_ok, nestedExpression]
    grind
  all_goals simp [primary, eq_comm]

theorem yields_expressionList {h : ts.length < n} {es : List Expr} :
    (expressionList (nestedExpression n) ts h).Yields es rest ↔
      ∃ e, ((expression ts).Yields e rest ∧ startsWith .comma rest = false ∧ es = [e]) ∨
        ∃ t more es', ∃ h', (expression ts).Yields e (t :: more) ∧ t.kind = .comma ∧
          (expressionList (nestedExpression n) more h').Yields es' rest ∧ es = e :: es' := by
  rw [expressionList]
  simp only [yields_andThen, nestedExpression]
  constructor
  · rintro ⟨e, middle, he, hes⟩
    refine ⟨e, ?_⟩
    cases middle with
    | nil =>
      obtain ⟨rfl, rfl⟩ := yields_ok.mp hes
      exact .inl ⟨he, rfl, rfl⟩
    | cons t more =>
      by_cases hc : t.kind = .comma
      · simp only [hc, if_true, yields_andThen, yields_ok] at hes
        obtain ⟨es', middle, hes', rfl, rfl⟩ := hes
        exact .inr ⟨t, more, es', _, he, hc, hes', rfl⟩
      · simp only [hc, if_false, yields_ok] at hes
        obtain ⟨rfl, rfl⟩ := hes
        exact .inl ⟨he, by simpa [startsWith] using hc, rfl⟩
  · rintro ⟨e, ⟨he, hc, rfl⟩ | ⟨t, more, es', h', he, hc, hes', rfl⟩⟩
    · refine ⟨e, rest, he, ?_⟩
      cases rest with
      | nil => simp
      | cons t more => simp_all [startsWith]
    · refine ⟨e, t :: more, he, ?_⟩
      simp only [hc, if_true, yields_andThen, yields_ok]
      exact ⟨es', rest, hes', rfl, rfl⟩

theorem yields_arguments {h : ts.length < n} {es : List Expr} :
    (arguments (nestedExpression n) ts h).Yields es rest ↔
      (∃ u, ts = u :: rest ∧ u.kind = .closeParen ∧ es = []) ∨
        startsWith .closeParen ts = false ∧ ∃ u : Token, u.kind = .closeParen ∧
          (expressionList (nestedExpression n) ts h).Yields es (u :: rest) := by
  unfold arguments
  by_cases hc : startsWith .closeParen ts = true
  · simp only [hc, if_true, yields_andThen, yields_expect, yields_ok]
    grind
  · simp only [hc, Bool.false_eq_true, if_false, yields_andThen, yields_expect, yields_ok]
    have hn : ∀ u, ts = u :: rest → u.kind ≠ .closeParen := by
      rintro u rfl
      simpa using hc
    grind

theorem yields_suffixes_nil {h : ([] : List Token).length < n + 1} :
    (suffixes (nestedExpression n) e [] h).Yields v rest ↔ v = e ∧ rest = [] := by
  rw [suffixes]
  simp [eq_comm]

theorem yields_suffixes_cons {h : (t :: ts).length < n + 1} :
    (suffixes (nestedExpression n) e (t :: ts) h).Yields v rest ↔
      (t.kind = .openParen ∧ ∃ es middle, ∃ h₁ h₂,
        (arguments (nestedExpression n) ts h₁).Yields es middle ∧
        (suffixes (nestedExpression n) (.call e es e.position) middle h₂).Yields v rest) ∨
      (t.kind = .openBracket ∧ ∃ index middle, ∃ u : Token, ∃ h₁,
        (expression ts).Yields index (u :: middle) ∧ u.kind = .closeBracket ∧
        (suffixes (nestedExpression n) (.index e index e.position) middle h₁).Yields v rest) ∨
      (isOperator suffixOperators t = true ∧ ∃ h₁,
        (suffixes (nestedExpression n) (.suffixed t.text e e.position) ts h₁).Yields v rest) ∨
      (continuesOperand t = false ∧ v = e ∧ rest = t :: ts) := by
  rw [suffixes]
  by_cases ho : t.kind = .openParen
  · have hs : isOperator suffixOperators t = false := by simp [isOperator, ho]
    have hc : continuesOperand t = true := by simp [continuesOperand, ho]
    simp only [ho, hs, hc, if_true, yields_andThen, yields_weaken]
    grind
  by_cases hb : t.kind = .openBracket
  · have hs : isOperator suffixOperators t = false := by simp [isOperator, hb]
    have hc : continuesOperand t = true := by simp [continuesOperand, hb]
    simp only [hb, hs, hc, reduceCtorEq, if_true, if_false, yields_andThen, yields_weaken,
      yields_expect, nestedExpression]
    grind
  by_cases hs : isOperator suffixOperators t = true
  · have hc : continuesOperand t = true := by simp [continuesOperand, hs]
    simp only [ho, hb, hs, hc, if_true, if_false, yields_weaken]
    grind
  · have hc : continuesOperand t = false := by simp [continuesOperand, ho, hb, hs]
    simp only [ho, hb, hs, hc, Bool.false_eq_true, if_false, yields_ok]
    grind

theorem yields_prefixed_nil {h : ([] : List Token).length < n + 1} :
    ¬(prefixed (nestedExpression n) [] h).Yields v rest := by
  simp [prefixed, primary]

theorem yields_prefixed_cons {h : (t :: ts).length < n + 1} :
    (prefixed (nestedExpression n) (t :: ts) h).Yields v rest ↔
      (isOperator prefixOperators t = true ∧ ∃ e h₁,
        (prefixed (nestedExpression n) ts h₁).Yields e rest ∧
        v = .prefixed t.text e t.position) ∨
      (isOperator prefixOperators t = false ∧ ∃ e middle h₁,
        (primary (nestedExpression n) (t :: ts) h).Yields e middle ∧
        (suffixes (nestedExpression n) e middle h₁).Yields v rest) := by
  rw [prefixed]
  by_cases ho : isOperator prefixOperators t = true
  · simp only [ho, if_true, yields_andThen, yields_ok]
    grind
  · simp only [ho, Bool.false_eq_true, if_false, yields_andThen, yields_weaken]
    grind

theorem yields_chain_nil {operand : Rule n Expr} {ops : List String}
    {h : ([] : List Token).length < n} :
    (chain operand ops e [] h).Yields v rest ↔ v = e ∧ rest = [] := by
  rw [chain]
  simp [eq_comm]

theorem yields_chain_cons {operand : Rule n Expr} {ops : List String} {h : (t :: ts).length < n} :
    (chain operand ops e (t :: ts) h).Yields v rest ↔
      (isOperator ops t = true ∧ ∃ right middle h₁ h₂, (operand ts h₁).Yields right middle ∧
        (chain operand ops (.binary t.text e right e.position) middle h₂).Yields v rest) ∨
      (isOperator ops t = false ∧ v = e ∧ rest = t :: ts) := by
  rw [chain]
  by_cases ho : isOperator ops t = true
  · simp only [ho, if_true, yields_andThen, yields_weaken]
    grind
  · simp only [ho, Bool.false_eq_true, if_false, yields_ok]
    grind

theorem yields_binary_cons {operand : Rule n Expr} {ops : List String}
    {tighter : List (List String)} {h : ts.length < n} :
    (binary operand (ops :: tighter) ts h).Yields v rest ↔
      ∃ left middle h₁, (binary operand tighter ts h).Yields left middle ∧
        (chain (binary operand tighter) ops left middle h₁).Yields v rest := by
  simp only [binary, yields_andThen, yields_weaken]
  grind

theorem yields_expression :
    (expression ts).Yields v rest ↔
      (∃ target value t more, (binary (operandRule ts.length) binaryLevels ts
          (Nat.lt_succ_self _)).Yields target (t :: more) ∧ t.isWord .operator "=" = true ∧
        (expression more).Yields value rest ∧ v = .assign target value target.position) ∨
      ((binary (operandRule ts.length) binaryLevels ts (Nat.lt_succ_self _)).Yields v rest ∧
        ∀ t ∈ rest.head?, t.isWord .operator "=" = false) := by
  rw [expression, assignment]
  simp only [yields_andThen]
  change (∃ first middle, ∃ h : (binary (operandRule ts.length) binaryLevels ts
    (Nat.lt_succ_self _)).Yields first middle, _) ↔ _
  constructor
  · rintro ⟨target, middle, ht, hv⟩
    cases middle with
    | nil =>
      obtain ⟨rfl, rfl⟩ := yields_ok.mp hv
      exact .inr ⟨ht, by simp⟩
    | cons t more =>
      by_cases hw : t.isWord .operator "=" = true
      · simp only [hw, if_true, yields_andThen, yields_ok] at hv
        obtain ⟨value, out, hval, rfl, rfl⟩ := hv
        exact .inl ⟨target, value, t, more, ht, hw, hval, rfl⟩
      · simp only [hw, Bool.false_eq_true, if_false, yields_ok] at hv
        obtain ⟨rfl, rfl⟩ := hv
        exact .inr ⟨ht, by simpa using hw⟩
  · rintro (⟨target, value, t, more, ht, hw, hval, rfl⟩ | ⟨hv, hw⟩)
    · refine ⟨target, t :: more, ht, ?_⟩
      simp only [hw, if_true, yields_andThen, yields_ok]
      exact ⟨value, rest, hval, rfl, rfl⟩
    · refine ⟨v, rest, hv, ?_⟩
      cases rest with
      | nil => simp
      | cons t more =>
        have hw : t.isWord .operator "=" = false := hw t rfl
        simp [hw]

/-- A loop that finds nothing to go on with leaves its operand as it is. -/
theorem yields_suffixes_of_stops {n : Nat} {rest : List Token} {e : Expr}
    {h : rest.length < n + 1} (hs : Stops .suffixed rest) :
    (suffixes (nestedExpression n) e rest h).Yields e rest := by
  cases rest with
  | nil => exact yields_suffixes_nil.mpr ⟨rfl, rfl⟩
  | cons t more => exact yields_suffixes_cons.mpr (.inr (.inr (.inr ⟨hs t rfl, rfl, rfl⟩)))

theorem yields_chain_of_stops {n : Nat} {operand : Rule n Expr} {ops : List String}
    {tighter : List (List String)} {rest : List Token} {e : Expr} {h : rest.length < n}
    (hs : Stops (.binary (ops :: tighter)) rest) : (chain operand ops e rest h).Yields e rest := by
  cases rest with
  | nil => exact yields_chain_nil.mpr ⟨rfl, rfl⟩
  | cons t more =>
    have ht : (Tier.binary (ops :: tighter)).continues t = false := hs t rfl
    have ho : isOperator ops t = false := by
      simp only [Tier.continues, List.any_cons, Bool.or_eq_false_iff] at ht
      exact ht.1.1
    exact yields_chain_cons.mpr (.inr ⟨ho, rfl, rfl⟩)

end KanaScript.Grammar
