import KanaScript.Proofs.C.ProgramOutline
import KanaScript.Proofs.Grammar.Program

/-! The tokens behind the nodes of a program: each node is derived from tokens that stand together,
within those of the node around it. -/

namespace KanaScript

/-- The labelled clauses of a `switch`. -/
def Stmt.clauses : Stmt → List Clause
  | .switch _ cases _ _ => cases
  | _ => []

namespace Grammar

/-- Some tokens that stand together among `ts` are as in `p`. -/
def Within (ts : List Token) (p : List Token → Prop) : Prop := ∃ us, us <:+: ts ∧ p us

namespace Within

variable {ts us : List Token} {p q : List Token → Prop}

theorem self (h : p ts) : Within ts p := ⟨ts, List.infix_rfl, h⟩

theorem mono (h : Within us p) (hus : us <:+: ts) : Within ts p := by
  obtain ⟨vs, hvs, hp⟩ := h
  exact ⟨vs, hvs.trans hus, hp⟩

theorem left (h : Within us p) (vs : List Token) : Within (us ++ vs) p :=
  h.mono (List.prefix_append us vs).isInfix

theorem right (h : Within us p) (vs : List Token) : Within (vs ++ us) p :=
  h.mono (List.suffix_append vs us).isInfix

theorem cons (h : Within us p) (t : Token) : Within (t :: us) p :=
  h.mono (List.suffix_cons t us).isInfix

theorem bind (h : Within ts p) (hpq : ∀ us, p us → Within us q) : Within ts q := by
  obtain ⟨us, hus, hp⟩ := h
  exact (hpq us hp).mono hus

theorem imp (h : Within ts p) (hpq : ∀ us, p us → q us) : Within ts q :=
  h.bind fun us hp => .self (hpq us hp)

end Within

mutual

/-- Every node of an expression is derived from some of its tokens. -/
theorem Derives.nodes_within : ∀ {tier : Tier} {ts : List Token} {e : Expr}, Derives tier ts e →
    ∀ x ∈ e.nodes, Within ts fun us => ∃ tier, Derives tier us x
  | _, _, _, .assign left sign right, x, hx => by
    simp only [Expr.nodes, List.mem_cons, List.mem_append] at hx
    rcases hx with rfl | hx | hx
    · exact .self ⟨_, .assign left sign right⟩
    · exact (left.nodes_within x hx).left _
    · exact ((right.nodes_within x hx).cons _).right _
  | _, _, _, .unassigned whole, x, hx => whole.nodes_within x hx
  | _, _, _, .operate first sign second, x, hx => by
    simp only [Expr.nodes, List.mem_cons, List.mem_append] at hx
    rcases hx with rfl | hx | hx
    · exact .self ⟨_, .operate first sign second⟩
    · exact (first.nodes_within x hx).left _
    · exact ((second.nodes_within x hx).cons _).right _
  | _, _, _, .tighter whole, x, hx => whole.nodes_within x hx
  | _, _, _, .operand whole, x, hx => whole.nodes_within x hx
  | _, _, _, .before sign operand, x, hx => by
    simp only [Expr.nodes, List.mem_cons] at hx
    rcases hx with rfl | hx
    · exact .self ⟨_, .before sign operand⟩
    · exact (operand.nodes_within x hx).cons _
  | _, _, _, .unprefixed whole, x, hx => whole.nodes_within x hx
  | _, _, _, .call function opening arguments closing, x, hx => by
    simp only [Expr.nodes, List.mem_cons, List.mem_append] at hx
    rcases hx with rfl | hx | hx
    · exact .self ⟨_, .call function opening arguments closing⟩
    · exact (function.nodes_within x hx).left _
    · exact (((arguments.nodes_within x hx).left _).cons _).right _
  | _, _, _, .index indexed opening inner closing, x, hx => by
    simp only [Expr.nodes, List.mem_cons, List.mem_append] at hx
    rcases hx with rfl | hx | hx
    · exact .self ⟨_, .index indexed opening inner closing⟩
    · exact (indexed.nodes_within x hx).left _
    · exact (((inner.nodes_within x hx).left _).cons _).right _
  | _, _, _, .after operand sign, x, hx => by
    simp only [Expr.nodes, List.mem_cons] at hx
    rcases hx with rfl | hx
    · exact .self ⟨_, .after operand sign⟩
    · exact (operand.nodes_within x hx).left _
  | _, _, _, .unsuffixed whole, x, hx => whole.nodes_within x hx
  | _, _, _, .number kind payload, x, hx => by
    rw [List.mem_singleton.mp hx]
    exact .self ⟨_, .number kind payload⟩
  | _, _, _, .string kind, x, hx => by
    rw [List.mem_singleton.mp hx]
    exact .self ⟨_, .string kind⟩
  | _, _, _, .char kind, x, hx => by
    rw [List.mem_singleton.mp hx]
    exact .self ⟨_, .char kind⟩
  | _, _, _, .name kind, x, hx => by
    rw [List.mem_singleton.mp hx]
    exact .self ⟨_, .name kind⟩
  | _, _, _, .group _ inner _, x, hx => ((inner.nodes_within x hx).left _).cons _

theorem DerivesList.nodes_within : ∀ {ts : List Token} {es : List Expr}, DerivesList ts es →
    ∀ x ∈ argumentNodes es, Within ts fun us => ∃ tier, Derives tier us x
  | _, _, .none, x, hx => by simp [argumentNodes] at hx
  | _, _, .last only, x, hx => by
    simp only [argumentNodes, List.append_nil] at hx
    exact only.nodes_within x hx
  | _, _, .more first _ others, x, hx => by
    rw [argumentNodes, List.mem_append] at hx
    rcases hx with hx | hx
    · exact (first.nodes_within x hx).left _
    · exact ((others.nodes_within x hx).cons _).right _

end

section Statements

mutual

/-- Every statement within a statement is derived from some of its tokens. -/
theorem DerivesStatement.nodes_within : ∀ {ts : List Token} {s : Stmt}, DerivesStatement ts s →
    ∀ x ∈ s.nodes, Within ts (DerivesStatement · x)
  | _, _, .block whole, x, hx => by
    rcases List.mem_cons.mp hx with rfl | hx
    · exact .self (.block whole)
    · exact whole.nodes_within x hx
  | _, _, .ifOnly word test body, x, hx => by
    rcases List.mem_cons.mp hx with rfl | hx
    · exact .self (.ifOnly word test body)
    · exact ((body.nodes_within x hx).right _).cons _
  | _, _, .ifElse word test body word' other, x, hx => by
    simp only [Stmt.nodes, List.mem_cons, List.mem_append] at hx
    rcases hx with rfl | hx | hx
    · exact .self (.ifElse word test body word' other)
    · exact (((body.nodes_within x hx).left _).right _).cons _
    · exact ((((other.nodes_within x hx).cons _).right _).right _).cons _
  | _, _, .whileLoop word test body, x, hx => by
    rcases List.mem_cons.mp hx with rfl | hx
    · exact .self (.whileLoop word test body)
    · exact ((body.nodes_within x hx).right _).cons _
  | _, _, .forLoop word clauses body, x, hx => by
    rcases List.mem_cons.mp hx with rfl | hx
    · exact .self (.forLoop word clauses body)
    · exact ((body.nodes_within x hx).right _).cons _
  | _, _, .switch word value opening clauses closing, x, hx => by
    rw [Stmt.nodes_switch] at hx
    rcases List.mem_cons.mp hx with rfl | hx
    · exact .self (.switch word value opening clauses closing)
    · exact ((((clauses.nodes_within x hx).left _).cons _).right _).cons _
  | _, _, .returns word value, x, hx => by
    rw [List.mem_singleton.mp hx]
    exact .self (.returns word value)
  | _, _, .breaks word, x, hx => by
    rw [List.mem_singleton.mp hx]
    exact .self (.breaks word)
  | _, _, .continues word, x, hx => by
    rw [List.mem_singleton.mp hx]
    exact .self (.continues word)
  | _, _, .declare whole, x, hx => by
    rw [List.mem_singleton.mp hx]
    exact .self (.declare whole)
  | _, _, .expression whole, x, hx => by
    rw [List.mem_singleton.mp hx]
    exact .self (.expression whole)

theorem DerivesBody.nodes_within : ∀ {ts : List Token} {s : Stmt}, DerivesBody ts s →
    ∀ x ∈ s.nodes, Within ts (DerivesStatement · x)
  | _, _, .intro whole _, x, hx => (whole.nodes_within x hx).left _

theorem DerivesStatements.nodes_within : ∀ {ts : List Token} {ss : List Stmt},
    DerivesStatements ts ss → ∀ x ∈ statementNodes ss, Within ts (DerivesStatement · x)
  | _, _, .none, x, hx => by cases hx
  | _, _, .more first others, x, hx => by
    rcases List.mem_append.mp hx with hx | hx
    · exact (first.nodes_within x hx).left _
    · exact (others.nodes_within x hx).right _

theorem DerivesBlock.nodes_within : ∀ {ts : List Token} {b : Block}, DerivesBlock ts b →
    ∀ x ∈ statementNodes b.statements, Within ts (DerivesStatement · x)
  | _, _, .intro _ inner _, x, hx => ((inner.nodes_within x hx).left _).cons _

theorem DerivesClauses.nodes_within : ∀ {ts : List Token} {cases : List Clause}
    {fallback : Option (List Stmt)}, DerivesClauses ts cases fallback →
    ∀ x ∈ clauseNodes cases ++ (fallback.map statementNodes).getD [],
      Within ts (DerivesStatement · x)
  | _, _, _, .none, x, hx => by cases hx
  | _, _, _, .case word label colon inner others, x, hx => by
    rw [clauseNodes, List.append_assoc, List.mem_append] at hx
    rcases hx with hx | hx
    · exact ((((inner.nodes_within x hx).left _).cons _).right _).cons _
    · exact ((((others.nodes_within x hx).right _).cons _).right _).cons _
  | _, _, _, .default word colon inner others, x, hx => by
    rcases List.mem_append.mp hx with hx | hx
    · exact (((others.nodes_within x (List.mem_append_left _ hx)).right _).cons _).cons _
    · exact (((inner.nodes_within x hx).left _).cons _).cons _

end

variable {ts : List Token} {s : Stmt} {v : Variable} {e : Expr}

theorem DerivesVariable.init_within (h : DerivesVariable ts v) (he : e ∈ v.init) :
    Within ts (Derives .assignment · e) := by
  obtain ⟨type, name, size, value⟩ := h
  cases value with
  | none => cases he
  | some sign value =>
    obtain rfl := Option.some.inj he
    exact ((((Within.self value).cons _).right _).cons _).cons _

theorem DerivesOptional.within {o : Option Expr} (h : DerivesOptional ts o) (he : e ∈ o) :
    Within ts (Derives .assignment · e) := by
  cases h with
  | none => cases he
  | some whole =>
    obtain rfl := Option.some.inj he
    exact .self whole

/-- A clause is derived from its tokens, from the label up to the next one. -/
theorem DerivesClauses.clause_within : ∀ {ts : List Token} {cases : List Clause}
    {fallback : Option (List Stmt)}, DerivesClauses ts cases fallback →
    ∀ x ∈ cases, Within ts (DerivesClauses · [x] Option.none)
  | _, _, _, .none, x, hx => by cases hx
  | _, _, _, .case (c := rest) word label colon inner others, x, hx => by
    rcases List.mem_cons.mp hx with rfl | hx
    · exact ⟨_, ⟨[], rest, by simp⟩, .case word label colon inner .none⟩
    · exact ((((others.clause_within x hx).right _).cons _).right _).cons _
  | _, _, _, .default word colon inner others, x, hx =>
    (((others.clause_within x hx).right _).cons _).cons _

theorem DerivesClauses.value_within {x : Clause} (h : DerivesClauses ts [x] Option.none) :
    Within ts (Derives .assignment · x.value) := by
  cases h with
  | case word label colon inner others => exact ((Within.self label).left _).cons _

theorem DerivesForInit.expressions_within {init : Option ForInit} (h : DerivesForInit ts init)
    (he : e ∈ (init.map ForInit.expressions).getD []) : Within ts (Derives .assignment · e) := by
  cases h with
  | none => cases he
  | declare whole => exact whole.init_within (Option.mem_toList.mp he)
  | expression whole =>
    rw [List.mem_singleton.mp he]
    exact .self whole

theorem DerivesForHead.expressions_within {head : ForHead} (h : DerivesForHead ts head)
    (he : e ∈ (head.init.map ForInit.expressions).getD [] ++ head.condition.toList ++
      head.update.toList) : Within ts (Derives .assignment · e) := by
  cases h with
  | clauses opening first comma second comma' third closing =>
    simp only [List.mem_append, Option.mem_toList] at he
    rcases he with (he | he) | he
    · exact ((first.expressions_within he).left _).cons _
    · exact ((((second.within he).left _).cons _).right _).cons _
    · exact ((((((third.within he).left _).cons _).right _).cons _).right _).cons _
  | condition whole =>
    rw [List.mem_singleton.mp he]
    exact .self whole

theorem DerivesForHead.variable_within {head : ForHead} (h : DerivesForHead ts head)
    (hv : head.init = some (.declare v)) : Within ts (DerivesVariable · v) := by
  cases h with
  | clauses opening first comma second comma' third closing =>
    obtain rfl : _ = some (ForInit.declare v) := hv
    cases first with
    | declare whole => exact ((Within.self whole).left _).cons _
  | condition whole => cases hv

/-- The expressions of a statement that are in no other statement. -/
theorem DerivesStatement.expressions_within (h : DerivesStatement ts s) (he : e ∈ s.expressions) :
    Within ts (Derives .assignment · e) := by
  cases h with
  | block whole => cases he
  | breaks word => cases he
  | continues word => cases he
  | declare whole => exact whole.init_within (Option.mem_toList.mp he)
  | ifOnly word test body =>
    rw [List.mem_singleton.mp he]
    exact ((Within.self test).left _).cons _
  | ifElse word test body word' other =>
    rw [List.mem_singleton.mp he]
    exact ((Within.self test).left _).cons _
  | whileLoop word test body =>
    rw [List.mem_singleton.mp he]
    exact ((Within.self test).left _).cons _
  | forLoop word clauses body => exact ((clauses.expressions_within he).left _).cons _
  | switch word value opening clauses closing =>
    rcases List.mem_cons.mp he with rfl | he
    · exact ((Within.self value).left _).cons _
    · obtain ⟨x, hx, rfl⟩ := List.mem_map.mp he
      have hvalue := (clauses.clause_within x hx).bind fun _ hclause => hclause.value_within
      exact (((hvalue.left _).cons _).right _).cons _
  | returns word value => exact (value.within (Option.mem_toList.mp he)).cons _
  | expression whole =>
    rw [List.mem_singleton.mp he]
    exact .self whole

theorem DerivesStatement.variables_within (h : DerivesStatement ts s) (hv : v ∈ s.variables) :
    Within ts (DerivesVariable · v) := by
  cases h with
  | declare whole =>
    rw [List.mem_singleton.mp hv]
    exact .self whole
  | @forLoop _ _ _ head _ word clauses body =>
    have hinit : head.init = some (.declare v) := by
      match hhead : head.init with
      | some (.declare w) =>
        rw [hhead] at hv
        rw [List.mem_singleton.mp hv]
      | some (.expression e) =>
        rw [hhead] at hv
        cases hv
      | none =>
        rw [hhead] at hv
        cases hv
    exact ((clauses.variable_within hinit).left _).cons _
  | _ => cases hv

theorem DerivesStatement.clauses_within {x : Clause} (h : DerivesStatement ts s)
    (hx : x ∈ s.clauses) : Within ts (DerivesClauses · [x] none) := by
  cases h with
  | switch word value opening clauses closing =>
    exact ((((clauses.clause_within x hx).left _).cons _).right _).cons _
  | _ => cases hx

end Statements

section Parameters

variable {ts : List Token} {ps : List Parameter} {p : Parameter}

theorem DerivesParameters.within (h : DerivesParameters ts ps) (hp : p ∈ ps) :
    Within ts (DerivesParameter · p) := by
  induction h with
  | last only =>
    rw [List.mem_singleton.mp hp]
    exact .self only
  | more first comma others ih =>
    rcases List.mem_cons.mp hp with rfl | hp
    · exact (Within.self first).left _
    · exact ((ih hp).cons _).right _

theorem DerivesGroup.within (h : DerivesGroup ts ps) (hp : p ∈ ps) :
    Within ts (DerivesParameter · p) := by
  cases h with
  | empty opening closing => cases hp
  | void opening word closing => cases hp
  | list opening inner closing => exact ((inner.within hp).left _).cons _

theorem DerivesBare.within (h : DerivesBare ts ps) (hp : p ∈ ps) :
    Within ts (DerivesParameter · p) := by
  induction h with
  | type type => cases hp
  | last only =>
    rw [List.mem_singleton.mp hp]
    exact .self only
  | more first comma others ih =>
    rcases List.mem_cons.mp hp with rfl | hp
    · exact (Within.self first).left _
    · exact ((ih hp).cons _).right _

theorem DerivesMarked.within (h : DerivesMarked ts ps) (hp : p ∈ ps) :
    Within ts (DerivesParameter · p) := by
  cases h with
  | group whole => exact whole.within hp
  | bare whole => exact whole.within hp
  | void word => cases hp
  | none => cases hp

end Parameters

section Declarations

variable {ts : List Token} {d : Declaration}

theorem DerivesDeclaration.nodes_within (h : DerivesDeclaration ts d) {s : Stmt}
    (hs : s ∈ d.nodes) : Within ts (DerivesStatement · s) := by
  cases h with
  | marked marker type name list inner =>
    exact ((((inner.nodes_within s hs).right _).cons _).cons _).cons _
  | typed type name list inner => exact (((inner.nodes_within s hs).right _).cons _).cons _
  | global whole =>
    rw [List.mem_singleton.mp hs]
    exact .self (.declare whole)
  | statement whole => exact whole.nodes_within s hs

theorem DerivesProgram.within {program : Program} (h : DerivesProgram ts program)
    (hd : d ∈ program) : Within ts (DerivesDeclaration · d) := by
  induction h with
  | none => cases hd
  | more first ending others ih =>
    rcases List.mem_cons.mp hd with rfl | hd
    · exact (Within.self first).left _
    · exact ((ih hd).right _).right _

end Declarations

end Grammar

end KanaScript
