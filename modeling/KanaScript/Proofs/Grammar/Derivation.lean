import KanaScript.Grammar.Expression

/-! The grammar of expressions as a set of rules, apart from any order of reading.  `Derives` says
which trees a list of tokens stands for at a tier, and `Tier.continues` which tokens could make an
expression of that tier longer. -/

namespace KanaScript.Grammar

/-- How tightly an expression binds, from the loosest tier to the tightest. -/
inductive Tier
  | assignment
  /-- Operators between two operands, of the levels given, a tighter level after a looser one. -/
  | binary (levels : List (List String))
  | prefixed
  | suffixed
  | primary

/-- The levels of a tier are all those given, or the tighter ones of them. -/
def Tier.Within (all : List (List String)) : Tier → Prop
  | binary levels => levels <:+ all
  | _ => True

mutual

/-- The tokens derive the tree at the tier.  A tree made from operands stands where its first
operand stands; with an operator in front it stands where the operator does. -/
inductive Derives : Tier → List Token → Expr → Prop
  | assign {a b : List Token} {t : Token} {target value : Expr}
      (left : Derives (.binary binaryLevels) a target) (sign : t.isWord .operator "=" = true)
      (right : Derives .assignment b value) :
      Derives .assignment (a ++ t :: b) (.assign target value target.position)
  | unassigned {ts : List Token} {e : Expr} (whole : Derives (.binary binaryLevels) ts e) :
      Derives .assignment ts e
  | operate {a b : List Token} {t : Token} {left right : Expr} {ops : List String}
      {tighter : List (List String)} (first : Derives (.binary (ops :: tighter)) a left)
      (sign : isOperator ops t = true) (second : Derives (.binary tighter) b right) :
      Derives (.binary (ops :: tighter)) (a ++ t :: b) (.binary t.text left right left.position)
  | tighter {ts : List Token} {e : Expr} {ops : List String} {tighter : List (List String)}
      (whole : Derives (.binary tighter) ts e) : Derives (.binary (ops :: tighter)) ts e
  | operand {ts : List Token} {e : Expr} (whole : Derives .prefixed ts e) :
      Derives (.binary []) ts e
  | before {ts : List Token} {t : Token} {e : Expr} (sign : isOperator prefixOperators t = true)
      (operand : Derives .prefixed ts e) :
      Derives .prefixed (t :: ts) (.prefixed t.text e t.position)
  | unprefixed {ts : List Token} {e : Expr} (whole : Derives .suffixed ts e) :
      Derives .prefixed ts e
  | call {a b : List Token} {t u : Token} {callee : Expr} {es : List Expr}
      (function : Derives .suffixed a callee) (opening : t.kind = .openParen)
      (arguments : DerivesList b es) (closing : u.kind = .closeParen) :
      Derives .suffixed (a ++ t :: (b ++ [u])) (.call callee es callee.position)
  | index {a b : List Token} {t u : Token} {array index : Expr}
      (indexed : Derives .suffixed a array) (opening : t.kind = .openBracket)
      (inner : Derives .assignment b index) (closing : u.kind = .closeBracket) :
      Derives .suffixed (a ++ t :: (b ++ [u])) (.index array index array.position)
  | after {a : List Token} {t : Token} {e : Expr} (operand : Derives .suffixed a e)
      (sign : isOperator suffixOperators t = true) :
      Derives .suffixed (a ++ [t]) (.suffixed t.text e e.position)
  | unsuffixed {ts : List Token} {e : Expr} (whole : Derives .primary ts e) :
      Derives .suffixed ts e
  | number {t : Token} {value : Number} (kind : t.kind = .number)
      (payload : t.payload = .number value) : Derives .primary [t] (.number value t.position)
  | string {t : Token} (kind : t.kind = .stringLiteral) :
      Derives .primary [t] (.string t.text t.position)
  | char {t : Token} (kind : t.kind = .charLiteral) :
      Derives .primary [t] (.char t.text t.position)
  /-- A keyword that is no type stands for a name. -/
  | name {t : Token}
      (kind : t.kind = .identifier ∨ t.kind = .otherKeyword ∨ t.kind = .controlKeyword) :
      Derives .primary [t] (.name t.text t.position)
  | group {ts : List Token} {t u : Token} {e : Expr} (opening : t.kind = .openParen)
      (inner : Derives .assignment ts e) (closing : u.kind = .closeParen) :
      Derives .primary (t :: (ts ++ [u])) e

inductive DerivesList : List Token → List Expr → Prop
  | none : DerivesList [] []
  | last {ts : List Token} {e : Expr} (only : Derives .assignment ts e) : DerivesList ts [e]
  | more {a b : List Token} {t : Token} {e e' : Expr} {es : List Expr}
      (first : Derives .assignment a e) (comma : t.kind = .comma)
      (others : DerivesList b (e' :: es)) : DerivesList (a ++ t :: b) (e :: e' :: es)

end

/-- Whether `t` continues an operand that ends before it: as a call, an index or an operator after
the operand. -/
def continuesOperand (t : Token) : Bool :=
  t.kind == .openParen || t.kind == .openBracket || isOperator suffixOperators t

/-- Whether `t` could continue an expression of the tier that ends before it. -/
def Tier.continues : Tier → Token → Bool
  | assignment, t =>
    isOperator ["="] t || binaryLevels.any (isOperator · t) || continuesOperand t
  | binary levels, t => levels.any (isOperator · t) || continuesOperand t
  | prefixed, t => continuesOperand t
  | suffixed, t => continuesOperand t
  | primary, _ => false

/-- No token in front could continue an expression of the tier. -/
def Stops (tier : Tier) (rest : List Token) : Prop :=
  ∀ t ∈ rest.head?, tier.continues t = false

theorem isOperator_iff {ops : List String} {t : Token} :
    isOperator ops t = true ↔ t.kind = .operator ∧ t.text ∈ ops := by
  simp [isOperator]

theorem isOperator_equals (t : Token) : isOperator ["="] t = t.isWord .operator "=" := by
  obtain ⟨kind, payload, position⟩ := t
  cases payload with
  | none => simp [isOperator, Token.isWord, Token.text, Payload.text?]
  | number value => simp [isOperator, Token.isWord, Token.text, Payload.text?]
  | text value =>
    rw [Bool.eq_iff_iff]
    simp [isOperator, Token.isWord, Token.text, Payload.text?]

/-- An operator of one level is neither of a tighter level nor one that follows its operand. -/
theorem levels_disjoint {ops : List String} {tighter : List (List String)}
    (hl : (ops :: tighter) <:+ binaryLevels) :
    ∀ op ∈ ops, op ∉ suffixOperators ∧ ∀ level ∈ tighter, op ∉ level := by
  simp only [binaryLevels, List.suffix_cons_iff, List.suffix_nil, List.cons.injEq,
    reduceCtorEq, or_false] at hl
  rcases hl with ⟨rfl, rfl⟩ | ⟨rfl, rfl⟩ | ⟨rfl, rfl⟩ | ⟨rfl, rfl⟩ | ⟨rfl, rfl⟩ | ⟨rfl, rfl⟩ <;>
    decide

theorem continues_tighter {ops : List String} {tighter : List (List String)} {t : Token}
    (hl : (ops :: tighter) <:+ binaryLevels) (ht : isOperator ops t = true) :
    (Tier.binary tighter).continues t = false := by
  obtain ⟨hk, ht⟩ := isOperator_iff.mp ht
  obtain ⟨hs, hlevel⟩ := levels_disjoint hl _ ht
  simp only [Tier.continues, continuesOperand, isOperator, hk]
  simpa [hs] using hlevel

theorem continues_equals {t : Token} (ht : t.isWord .operator "=" = true) :
    (Tier.binary binaryLevels).continues t = false := by
  rw [← isOperator_equals] at ht
  obtain ⟨hk, ht⟩ := isOperator_iff.mp ht
  have ht : t.text = "=" := List.mem_singleton.mp ht
  simp [Tier.continues, continuesOperand, isOperator, hk, ht, binaryLevels, suffixOperators]

theorem Stops.tighter {ops : List String} {tighter : List (List String)} {rest : List Token}
    (hs : Stops (.binary (ops :: tighter)) rest) : Stops (.binary tighter) rest := by
  intro t ht
  have := hs t ht
  simp only [Tier.continues, List.any_cons, Bool.or_eq_false_iff] at this ⊢
  exact ⟨this.1.2, this.2⟩

/-- Only an operator or an opening bracket continues an expression. -/
theorem stops_cons {tier : Tier} {t : Token} {rest : List Token} (ho : t.kind ≠ .operator)
    (hp : t.kind ≠ .openParen) (hb : t.kind ≠ .openBracket) : Stops tier (t :: rest) := by
  have hn : ∀ ops, isOperator ops t = false := fun ops => by simp [isOperator, ho]
  intro u hu
  obtain rfl : t = u := by simpa using hu
  cases tier <;> simp [Tier.continues, continuesOperand, hn, hp, hb]

/-- Whether `t` goes on with an expression that could end before it. -/
def continuesExpression (t : Token) : Bool :=
  t.kind == .openParen || t.kind == .openBracket ||
    isOperator ["=", "||", "&&", "==", "!=", "<", ">", "<=", ">=", "+", "-", "*", "/", "%", "++",
      "--"] t

theorem continues_assignment (t : Token) :
    Tier.assignment.continues t = continuesExpression t := by
  rw [Bool.eq_iff_iff]
  simp only [Tier.continues, continuesExpression, continuesOperand, binaryLevels, suffixOperators,
    List.any_cons, List.any_nil, Bool.or_eq_true, Bool.false_eq_true, or_false, isOperator_iff,
    List.mem_cons, List.not_mem_nil]
  grind

def opensOperand (t : Token) : Bool :=
  [.number, .stringLiteral, .charLiteral, .identifier, .otherKeyword, .controlKeyword,
    .openParen].contains t.kind

def Tier.opens : Tier → Token → Bool
  | suffixed, t => opensOperand t
  | primary, t => opensOperand t
  | _, t => isOperator prefixOperators t || opensOperand t

/-- The tokens start as an expression of the tier does. -/
def Starts (tier : Tier) (ts : List Token) : Prop := ∃ t more, ts = t :: more ∧ tier.opens t = true

theorem Starts.append {tier : Tier} {a : List Token} (h : Starts tier a) (b : List Token) :
    Starts tier (a ++ b) := by
  obtain ⟨t, more, rfl, ht⟩ := h
  exact ⟨t, more ++ b, rfl, ht⟩

theorem Starts.loosen {tier : Tier} {ts : List Token} (h : Starts .suffixed ts) :
    Starts tier ts := by
  obtain ⟨t, more, rfl, ht⟩ := h
  refine ⟨t, more, rfl, ?_⟩
  have ht : opensOperand t = true := ht
  cases tier <;> simp [Tier.opens, ht]

theorem Derives.starts : ∀ {tier : Tier} {ts : List Token} {e : Expr}, Derives tier ts e →
    Starts tier ts
  | _, _, _, .assign left _ _ => left.starts.append _
  | _, _, _, .unassigned whole => whole.starts
  | _, _, _, .operate first _ _ => first.starts.append _
  | _, _, _, .tighter whole => whole.starts
  | _, _, _, .operand whole => whole.starts
  | _, _, _, .before sign _ => ⟨_, _, rfl, by simp [Tier.opens, sign]⟩
  | _, _, _, .unprefixed whole => whole.starts.loosen
  | _, _, _, .call function _ _ _ => function.starts.append _
  | _, _, _, .index indexed _ _ _ => indexed.starts.append _
  | _, _, _, .after whole _ => whole.starts.append _
  | _, _, _, .unsuffixed whole => whole.starts
  | _, _, _, .number kind _ => ⟨_, _, rfl, by simp [Tier.opens, opensOperand, kind]⟩
  | _, _, _, .string kind => ⟨_, _, rfl, by simp [Tier.opens, opensOperand, kind]⟩
  | _, _, _, .char kind => ⟨_, _, rfl, by simp [Tier.opens, opensOperand, kind]⟩
  | _, _, _, .name kind => ⟨_, _, rfl, by rcases kind with h | h | h <;>
      simp [Tier.opens, opensOperand, h]⟩
  | _, _, _, .group opening _ _ => ⟨_, _, rfl, by simp [Tier.opens, opensOperand, opening]⟩

theorem not_isOperator_of_opensOperand {t : Token} {ops : List String}
    (h : opensOperand t = true) : isOperator ops t = false := by
  obtain ⟨kind, payload, position⟩ := t
  cases kind <;> simp_all [opensOperand, isOperator]

theorem startsWith_closeParen_of_starts {tier : Tier} {ts : List Token}
    (h : Starts tier ts) : startsWith .closeParen ts = false := by
  obtain ⟨⟨kind, payload, position⟩, more, rfl, ht⟩ := h
  cases tier <;> cases kind <;>
    simp_all [Tier.opens, opensOperand, isOperator, startsWith]

theorem Derives.binary_of_prefixed {ts : List Token} {e : Expr} (h : Derives .prefixed ts e) :
    ∀ levels : List (List String), Derives (.binary levels) ts e
  | [] => h.operand
  | _ :: levels => (h.binary_of_prefixed levels).tighter

theorem DerivesList.eq_nil {ts : List Token} (h : DerivesList ts []) : ts = [] := by
  cases h
  rfl

end KanaScript.Grammar
