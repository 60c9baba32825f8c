import KanaScript.Proofs.C.ExpressionTokens
import KanaScript.Proofs.C.Grouping

/-! The tree that the text of an expression is meant to be read as.  The tokens of the text match in
their parentheses and have the weight of that tree, whether they are read as it or not. -/

namespace KanaScript

open C

mutual

/-- An expression as it is emitted, with its leaves as they are spelled. -/
def Expr.tree : Expr → C.Tree
  | .binary op left right _ => .binary op left.tree right.tree
  | .prefixed op operand _ => .prefixed op operand.tree
  | .suffixed op operand _ => .suffixed op operand.tree
  | .assign target value _ => .assign target.tree value.tree
  | .call callee arguments _ => .call callee.tree (argumentTrees (isPrint callee) arguments)
  | .index array index _ => .index array.tree index.tree
  | .name text _ => .leaf (identifier text)
  | .number value _ => .leaf value.text
  | .string text _ => .leaf (stringLiteral text)
  | .char text _ => .leaf (charLiteral text)

/-- Arguments as they are emitted, the first of which is a format if `print` says so. -/
def argumentTrees (print : Bool) : List Expr → List C.Tree
  | [] => []
  | e :: es => ((formatCode? print e).map .leaf).getD e.tree :: argumentTrees false es

end

theorem isSign_of_level {op : String} (h : ∃ ops ∈ levels, op ∈ ops) : isSign op = true := by
  have signs : ∀ ops ∈ levels, ∀ op ∈ ops, isSign op = true := by decide
  obtain ⟨ops, hops, hop⟩ := h
  exact signs ops hops op hop

theorem balanced_glueMinus : ∀ {ts : List C.Token}, Balanced ts → Balanced (glueMinus ts)
  | [], h => h.cons rfl
  | t :: ts, h => by
    unfold glueMinus
    split
    · subst t
      exact (h.of_cons rfl).cons rfl
    · split
      · subst t
        exact (balanced_glueMinus (h.of_cons rfl)).cons rfl
      · exact h.cons rfl

@[simp]
theorem weight_minus : (C.Token.mark "-").weight = 1 := by decide

@[simp]
theorem weight_decrement : (C.Token.mark "--").weight = 2 := by decide

theorem weight_glueMinus : ∀ ts : List C.Token, weight (glueMinus ts) = weight ts + 1
  | [] => by decide
  | t :: ts => by
    unfold glueMinus
    split
    · subst t
      simp only [weight_cons, weight_minus, weight_decrement]
      omega
    · split
      · subst t
        simp only [weight_cons, weight_decrement, weight_glueMinus ts]
        omega
      · simp only [weight_cons, weight_minus]
        omega

/-- The parts of a number are no parentheses, and they are as long as its text. -/
theorem numberTokens_text (cs : List Char) :
    Balanced (numberTokens cs) ∧ weight (numberTokens cs) = cs.length := by
  have plain : ∀ cs, (unsignedToken cs).isPlain = true ∧ (unsignedToken cs).weight = cs.length := by
    intro cs
    unfold unsignedToken
    split <;> simp [C.Token.isPlain, C.Token.weight, C.Token.text]
  unfold numberTokens
  split
  · rename_i cs
    refine ⟨(Balanced.nil.cons (plain cs).1).cons rfl, ?_⟩
    simp only [weight_cons, weight_nil, weight_minus, (plain cs).2, List.length_cons]
    omega
  · exact ⟨Balanced.nil.cons (plain cs).1, by simp [(plain cs).2]⟩

theorem balanced_format {print : Bool} {e : Expr} (h : Balanced e.tokens) :
    Balanced (((formatCode? print e).map fun code => [C.Token.literal code]).getD e.tokens) := by
  cases formatCode? print e with
  | none => exact h
  | some code => exact Balanced.nil.cons rfl

theorem weight_format {print : Bool} {e : Expr} (h : weight e.tokens = e.tree.weight) :
    weight (((formatCode? print e).map fun code => [C.Token.literal code]).getD e.tokens) =
      (((formatCode? print e).map C.Tree.leaf).getD e.tree).weight := by
  cases formatCode? print e with
  | none => exact h
  | some code => simp [Tree.weight, C.Token.weight, C.Token.isPlain, C.Token.text]

mutual

theorem Expr.balanced : ∀ {e : Expr}, e.HasKnownOperators → Balanced e.tokens
  | .binary op left right _, h => by
    obtain ⟨hop, hl, hr⟩ := Expr.hasKnownOperators_binary.mp h
    have hop := isPlain_of_isSign (isSign_of_level hop)
    have h := ((Expr.balanced hl).append ((Expr.balanced hr).cons hop)).group
    simpa [Expr.tokens] using h
  | .prefixed op operand _, h => by
    obtain ⟨hop, ho⟩ := Expr.hasKnownOperators_prefixed.mp h
    rw [Expr.tokens]
    split
    · exact balanced_glueMinus (Expr.balanced ho)
    · exact (Expr.balanced ho).cons
        (isPlain_of_isSign (isSign_of_mem_prefixes hop))
  | .suffixed op operand _, h => by
    obtain ⟨hop, ho⟩ := Expr.hasKnownOperators_suffixed.mp h
    rw [Expr.tokens]
    exact (Expr.balanced ho).append
      (Balanced.nil.cons (isPlain_of_isSign (isSign_of_mem_suffixes hop)))
  | .assign target value _, h => by
    obtain ⟨ht, hv⟩ := Expr.hasKnownOperators_assign.mp h
    rw [Expr.tokens]
    exact (Expr.balanced ht).append ((Expr.balanced hv).cons rfl)
  | .call callee arguments _, h => by
    obtain ⟨hc, ha⟩ := Expr.hasKnownOperators_call.mp h
    rw [Expr.tokens]
    exact (Expr.balanced hc).append (balanced_arguments ha).group
  | .index array place _, h => by
    obtain ⟨ha, hp⟩ := Expr.hasKnownOperators_index.mp h
    rw [Expr.tokens]
    exact (Expr.balanced ha).append
      (((Expr.balanced hp).append (Balanced.nil.cons rfl)).cons rfl)
  | .name text _, _ => Balanced.nil.cons rfl
  | .number value _, _ => (numberTokens_text _).1
  | .string text _, _ => Balanced.nil.cons rfl
  | .char text _, _ => Balanced.nil.cons rfl

theorem balanced_arguments {print : Bool} : ∀ {es : List Expr},
    (∀ e ∈ es, e.HasKnownOperators) → Balanced (argumentTokens print es)
  | [], _ => Balanced.nil
  | [e], h => by
    have he := h e List.mem_cons_self
    rw [argumentTokens]
    exact balanced_format (Expr.balanced he)
  | e :: e' :: es, h => by
    obtain ⟨he, hes⟩ := List.forall_mem_cons.mp h
    rw [argumentTokens]
    exact (balanced_format (Expr.balanced he)).append ((balanced_arguments hes).cons rfl)

end

mutual

theorem Expr.weight_tokens : ∀ {e : Expr}, e.HasKnownOperators → weight e.tokens = e.tree.weight
  | .binary op left right _, h => by
    obtain ⟨hop, hl, hr⟩ := Expr.hasKnownOperators_binary.mp h
    have hop := weight_sign (isSign_of_level hop)
    simp only [Expr.tokens, Expr.tree, Tree.weight, weight_append, weight_cons, weight_nil,
      weight_openParen, weight_closeParen, Expr.weight_tokens hl, Expr.weight_tokens hr, hop]
    omega
  | .prefixed op operand _, h => by
    obtain ⟨hop, ho⟩ := Expr.hasKnownOperators_prefixed.mp h
    rw [Expr.tokens, Expr.tree, Tree.weight]
    split
    · subst op
      rw [weight_glueMinus, Expr.weight_tokens ho, Nat.add_comm]
      rfl
    · have hop := weight_sign (isSign_of_mem_prefixes hop)
      rw [weight_cons, hop, Expr.weight_tokens ho]
  | .suffixed op operand _, h => by
    obtain ⟨hop, ho⟩ := Expr.hasKnownOperators_suffixed.mp h
    have hop := weight_sign (isSign_of_mem_suffixes hop)
    simp [Expr.tokens, Expr.tree, Tree.weight, Expr.weight_tokens ho, hop]
  | .assign target value _, h => by
    obtain ⟨ht, hv⟩ := Expr.hasKnownOperators_assign.mp h
    simp only [Expr.tokens, Expr.tree, Tree.weight, weight_append, weight_cons, weight_equals,
      Expr.weight_tokens ht, Expr.weight_tokens hv]
    omega
  | .call callee arguments _, h => by
    obtain ⟨hc, ha⟩ := Expr.hasKnownOperators_call.mp h
    simp [Expr.tokens, Expr.tree, Tree.weight, Expr.weight_tokens hc, weight_arguments ha]
  | .index array place _, h => by
    obtain ⟨ha, hp⟩ := Expr.hasKnownOperators_index.mp h
    simp only [Expr.tokens, Expr.tree, Tree.weight, weight_append, weight_cons, weight_nil,
      weight_openBracket, weight_closeBracket, Expr.weight_tokens ha, Expr.weight_tokens hp]
    omega
  | .name text _, _ => by
    simp [Expr.tokens, Expr.tree, Tree.weight, C.Token.weight, C.Token.isPlain, C.Token.text]
  | .number value _, _ => by
    rw [Expr.tokens, Expr.tree, Tree.weight, (numberTokens_text _).2, String.length_toList]
  | .string text _, _ => by
    simp [Expr.tokens, Expr.tree, Tree.weight, C.Token.weight, C.Token.isPlain, C.Token.text]
  | .char text _, _ => by
    simp [Expr.tokens, Expr.tree, Tree.weight, C.Token.weight, C.Token.isPlain, C.Token.text]

theorem weight_arguments : ∀ {print : Bool} {es : List Expr},
    (∀ e ∈ es, e.HasKnownOperators) →
    weight (argumentTokens print es) = listWeight (argumentTrees print es)
  | _, [], _ => by simp [argumentTokens, argumentTrees, listWeight]
  | _, [e], h => by
    have he := h e List.mem_cons_self
    rw [argumentTokens, argumentTrees, argumentTrees, listWeight]
    exact weight_format (Expr.weight_tokens he)
  | _, e :: e' :: es, h => by
    obtain ⟨he, hes⟩ := List.forall_mem_cons.mp h
    rw [argumentTokens, argumentTrees, weight_append, weight_cons, weight_comma,
      weight_format (Expr.weight_tokens he), weight_arguments hes]
    rw [argumentTrees, listWeight]
    omega

end

section Marks

def expressionMarks : List String :=
  ["(", ")", "[", "]", ",", "="] ++ levels.flatten ++ prefixes ++ suffixes

/-- Whether the token may occur in an expression. -/
def Token.inExpression : C.Token → Bool
  | .mark m => expressionMarks.contains m
  | _ => true

theorem inExpression_level {op : String} (h : ∃ ops ∈ levels, op ∈ ops) :
    Token.inExpression (.mark op) = true := by
  have hop : op ∈ levels.flatten := List.mem_flatten.mpr h
  simp [Token.inExpression, expressionMarks, hop]

theorem inExpression_glueMinus : ∀ {ts : List C.Token}, (∀ t ∈ ts, Token.inExpression t = true) →
    ∀ t ∈ glueMinus ts, Token.inExpression t = true
  | [], _ => by decide
  | t :: ts, h => by
    rw [List.forall_mem_cons] at h
    unfold glueMinus
    split
    · rw [List.forall_mem_cons]
      exact ⟨by decide, h.2⟩
    · split
      · rw [List.forall_mem_cons]
        exact ⟨by decide, inExpression_glueMinus h.2⟩
      · rw [List.forall_mem_cons, List.forall_mem_cons]
        exact ⟨by decide, h⟩

theorem inExpression_format {print : Bool} {e : Expr}
    (h : ∀ t ∈ e.tokens, Token.inExpression t = true) :
    ∀ t ∈ ((formatCode? print e).map fun code => [C.Token.literal code]).getD e.tokens,
      Token.inExpression t = true := by
  cases formatCode? print e with
  | none => exact h
  | some code => simp [Token.inExpression]

theorem inExpression_number (cs : List Char) :
    ∀ t ∈ numberTokens cs, Token.inExpression t = true := by
  have unsigned : ∀ cs, Token.inExpression (unsignedToken cs) = true := by
    intro cs
    unfold unsignedToken
    split <;> rfl
  unfold numberTokens
  split
  · rw [List.forall_mem_cons, List.forall_mem_singleton]
    exact ⟨by decide, unsigned _⟩
  · rw [List.forall_mem_singleton]
    exact unsigned _

mutual

theorem Expr.inExpression : ∀ {e : Expr}, e.HasKnownOperators →
    ∀ t ∈ e.tokens, Token.inExpression t = true
  | .binary op left right _, h => by
    obtain ⟨hop, hl, hr⟩ := Expr.hasKnownOperators_binary.mp h
    simp only [Expr.tokens, List.forall_mem_cons, List.forall_mem_append]
    exact ⟨by decide, Expr.inExpression hl, inExpression_level hop,
      Expr.inExpression hr, by decide⟩
  | .prefixed op operand _, h => by
    obtain ⟨hop, ho⟩ := Expr.hasKnownOperators_prefixed.mp h
    rw [Expr.tokens]
    split
    · exact inExpression_glueMinus (Expr.inExpression ho)
    · have hop : op ∈ prefixes := hop
      rw [List.forall_mem_cons]
      exact ⟨by simp [Token.inExpression, expressionMarks, hop], Expr.inExpression ho⟩
  | .suffixed op operand _, h => by
    obtain ⟨hop, ho⟩ := Expr.hasKnownOperators_suffixed.mp h
    have hop : op ∈ suffixes := hop
    simp only [Expr.tokens, List.forall_mem_append, List.forall_mem_singleton]
    exact ⟨Expr.inExpression ho, by simp [Token.inExpression, expressionMarks, hop]⟩
  | .assign target value _, h => by
    obtain ⟨ht, hv⟩ := Expr.hasKnownOperators_assign.mp h
    simp only [Expr.tokens, List.forall_mem_cons, List.forall_mem_append]
    exact ⟨Expr.inExpression ht, by decide, Expr.inExpression hv⟩
  | .call callee arguments _, h => by
    obtain ⟨hc, ha⟩ := Expr.hasKnownOperators_call.mp h
    simp only [Expr.tokens, List.forall_mem_cons, List.forall_mem_append]
    exact ⟨Expr.inExpression hc, by decide, inExpression_arguments ha, by decide⟩
  | .index array place _, h => by
    obtain ⟨ha, hp⟩ := Expr.hasKnownOperators_index.mp h
    simp only [Expr.tokens, List.forall_mem_cons, List.forall_mem_append]
    exact ⟨Expr.inExpression ha, by decide, Expr.inExpression hp, by decide⟩
  | .name text _, _ => by simp [Expr.tokens, Token.inExpression]
  | .number value _, _ => by
    rw [Expr.tokens]
    exact inExpression_number _
  | .string text _, _ => by simp [Expr.tokens, Token.inExpression]
  | .char text _, _ => by simp [Expr.tokens, Token.inExpression]

theorem inExpression_arguments : ∀ {print : Bool} {es : List Expr},
    (∀ e ∈ es, e.HasKnownOperators) →
    ∀ t ∈ argumentTokens print es, Token.inExpression t = true
  | _, [], _ => by simp [argumentTokens]
  | _, [e], h => by
    have he := h e List.mem_cons_self
    rw [argumentTokens]
    exact inExpression_format (Expr.inExpression he)
  | _, e :: e' :: es, h => by
    obtain ⟨he, hes⟩ := List.forall_mem_cons.mp h
    rw [argumentTokens, List.forall_mem_append, List.forall_mem_cons]
    exact ⟨inExpression_format (Expr.inExpression he), by decide, inExpression_arguments hes⟩

end

end Marks

end KanaScript
