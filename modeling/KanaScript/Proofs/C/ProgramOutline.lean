import KanaScript.C.Program
import KanaScript.Grammar.Program
import KanaScript.Proofs.C.ElsePairing
import KanaScript.Proofs.C.ExpressionTree
import Mathlib.Data.List.Basic

/-! The outline of a program as it is meant to be read, and when it is sound: if no `else` is left
where the branch before it would take it, and no statement is led by a reserved word.  This takes
operators of the grammar and types of the vocabulary. -/

namespace KanaScript

open C

def typeSpellings : List String := Vocabulary.typeKeywords.map Prod.snd

/-- The tokens of the type and the name of a variable. -/
def Variable.declarator (v : Variable) : List C.Token :=
  match v.elementType? with
  | some element => [.word element, .word (identifier v.name), .mark "[", .mark "]"]
  | none => [.word v.typeName, .word (identifier v.name)]

def Variable.tokens (v : Variable) : List C.Token :=
  v.declarator ++ (v.init.map fun init => .mark "=" :: init.tokens).getD []

def ForInit.tokens : ForInit → List C.Token
  | declare v => v.tokens
  | expression e => e.tokens

def optionalTokens (e : Option Expr) : List C.Token := (e.map Expr.tokens).getD []

def inParentheses (ts : List C.Token) : List C.Token := .mark "(" :: (ts ++ [.mark ")"])

mutual

/-- A statement as it is meant to be read. -/
def Stmt.outline : Stmt → Outline
  | .block statements _ => .block (statementItems statements)
  | .declare v => .simple v.tokens
  | .ifElse condition consequent none _ =>
    .ifOnly (inParentheses condition.tokens) consequent.outline
  | .ifElse condition consequent (some alternative) _ =>
    .ifElse (inParentheses condition.tokens) consequent.outline alternative.outline
  | .whileLoop condition body _ => .headed "while" (inParentheses condition.tokens) body.outline
  | .forLoop init condition update body _ =>
    .headed "for" (inParentheses ((init.map ForInit.tokens).getD [] ++ .mark ";" ::
      (optionalTokens condition ++ .mark ";" :: optionalTokens update))) body.outline
  | .switch subject cases none _ =>
    .headed "switch" (inParentheses subject.tokens) (.block (clauseItems cases))
  | .switch subject cases (some fallback) _ =>
    .headed "switch" (inParentheses subject.tokens)
      (.block (clauseItems cases ++ .label [.word "default"] :: statementItems fallback))
  | .returns none _ => .simple [.word "return"]
  | .returns (some value) _ => .simple (.word "return" :: value.tokens)
  | .breaks _ => .simple [.word "break"]
  | .continues _ => .simple [.word "continue"]
  | .expression e _ => .simple e.tokens

def statementItems : List Stmt → List Item
  | [] => []
  | s :: ss => .statement s.outline :: statementItems ss

def clauseItems : List Clause → List Item
  | [] => []
  | .case value statements _ :: others =>
    .label (.word "case" :: value.tokens) :: (statementItems statements ++ clauseItems others)

end

def Parameter.tokens (p : Parameter) : List C.Token :=
  [.word p.typeName, .word (identifier p.name)]

def parameterTokens : List Parameter → List C.Token
  | [] => []
  | [p] => p.tokens
  | p :: p' :: ps => p.tokens ++ .mark "," :: parameterTokens (p' :: ps)

def Function.headerTokens (f : Function) : List C.Token :=
  .word f.returnType :: .word (identifier f.name) ::
    inParentheses (if f.parameters.isEmpty && f.name == entryPoint then [.word "void"]
      else parameterTokens f.parameters)

def Declaration.outline : Declaration → External
  | function f => .function f.headerTokens (statementItems f.body.statements)
  | global v => .statement (.simple v.tokens)
  | statement s => .statement s.outline

/-- A program as it is meant to be read. -/
def Program.outline (program : Program) : List External := List.map Declaration.outline program

section Parts

mutual

/-- A statement and all statements within it. -/
def Stmt.nodes : Stmt → List Stmt
  | .block statements position => .block statements position :: statementNodes statements
  | .declare v => [.declare v]
  | .ifElse condition consequent none position =>
    .ifElse condition consequent none position :: consequent.nodes
  | .ifElse condition consequent (some alternative) position =>
    .ifElse condition consequent (some alternative) position ::
      (consequent.nodes ++ alternative.nodes)
  | .whileLoop condition body position => .whileLoop condition body position :: body.nodes
  | .forLoop init condition update body position =>
    .forLoop init condition update body position :: body.nodes
  | .switch subject cases none position => .switch subject cases none position :: clauseNodes cases
  | .switch subject cases (some fallback) position =>
    .switch subject cases (some fallback) position ::
      (clauseNodes cases ++ statementNodes fallback)
  | .returns value position => [.returns value position]
  | .breaks position => [.breaks position]
  | .continues position => [.continues position]
  | .expression e position => [.expression e position]

def statementNodes : List Stmt → List Stmt
  | [] => []
  | s :: ss => s.nodes ++ statementNodes ss

def clauseNodes : List Clause → List Stmt
  | [] => []
  | .case _ statements _ :: others => statementNodes statements ++ clauseNodes others

end

theorem Stmt.nodes_ifElse {condition : Expr} {consequent : Stmt} {alternative : Option Stmt}
    {position : Position} : (Stmt.ifElse condition consequent alternative position).nodes =
      .ifElse condition consequent alternative position ::
        (consequent.nodes ++ (alternative.map Stmt.nodes).getD []) := by
  cases alternative <;> simp [Stmt.nodes]

theorem Stmt.nodes_switch {subject : Expr} {cases : List Clause} {fallback : Option (List Stmt)}
    {position : Position} : (Stmt.switch subject cases fallback position).nodes =
      .switch subject cases fallback position ::
        (clauseNodes cases ++ (fallback.map statementNodes).getD []) := by
  cases fallback <;> simp [Stmt.nodes]

def Clause.value : Clause → Expr
  | case value _ _ => value

def ForInit.expressions : ForInit → List Expr
  | declare v => v.init.toList
  | expression e => [e]

/-- The expressions of a statement that are in no other statement. -/
def Stmt.expressions : Stmt → List Expr
  | .declare v => v.init.toList
  | .ifElse condition _ _ _ => [condition]
  | .whileLoop condition _ _ => [condition]
  | .forLoop init condition update _ _ =>
    (init.map ForInit.expressions).getD [] ++ condition.toList ++ update.toList
  | .switch subject cases _ _ => subject :: cases.map Clause.value
  | .returns value _ => value.toList
  | .expression e _ => [e]
  | _ => []

/-- The variables that a statement declares, other than those that statements in it do. -/
def Stmt.variables : Stmt → List Variable
  | .declare v => [v]
  | .forLoop (some (.declare v)) _ _ _ _ => [v]
  | _ => []

/-- The type is one of the vocabulary, or an array of such. -/
def Variable.HasKnownType (v : Variable) : Prop :=
  ∃ type ∈ typeSpellings, v.typeName = type ∨ v.typeName = type ++ arraySuffix

/-- The expressions have operators of the grammar, and the variables types of the vocabulary. -/
def Stmt.HasKnownParts (s : Stmt) : Prop :=
  (∀ e ∈ s.expressions, e.HasKnownOperators) ∧ ∀ v ∈ s.variables, v.HasKnownType

def ForInit.HasKnownParts : ForInit → Prop
  | declare v => (Stmt.declare v).HasKnownParts
  | expression e => e.HasKnownOperators

theorem Stmt.hasKnownParts_declare {v : Variable} : (Stmt.declare v).HasKnownParts ↔
    v.HasKnownType ∧ ∀ e ∈ v.init, e.HasKnownOperators := by
  simp [Stmt.HasKnownParts, Stmt.expressions, Stmt.variables, and_comm]

theorem Stmt.hasKnownParts_forLoop {init : Option ForInit} {condition update : Option Expr}
    {body : Stmt} {position : Position} :
    (Stmt.forLoop init condition update body position).HasKnownParts ↔
      (∀ i ∈ init, i.HasKnownParts) ∧ (∀ e ∈ condition, e.HasKnownOperators) ∧
        ∀ e ∈ update, e.HasKnownOperators := by
  simp only [Stmt.HasKnownParts, Stmt.expressions, List.forall_mem_append, Option.mem_toList]
  rcases init with _ | (v | e)
  · simp [Stmt.variables]
  · simp only [Stmt.variables, List.forall_mem_singleton, Option.map_some, Option.getD_some,
      ForInit.expressions, Option.mem_toList, Option.mem_some, forall_eq', ForInit.HasKnownParts,
      Stmt.hasKnownParts_declare]
    constructor
    · rintro ⟨⟨⟨hi, hc⟩, hu⟩, ht⟩
      exact ⟨⟨ht, hi⟩, hc, hu⟩
    · rintro ⟨⟨ht, hi⟩, hc, hu⟩
      exact ⟨⟨⟨hi, hc⟩, hu⟩, ht⟩
  · simp [Stmt.variables, ForInit.expressions, ForInit.HasKnownParts, and_assoc]

def Declaration.nodes : Declaration → List Stmt
  | function f => statementNodes f.body.statements
  | global v => [.declare v]
  | statement s => s.nodes

def Declaration.HasKnownHeader : Declaration → Prop
  | function f => f.returnType ∈ typeSpellings ∧ ∀ p ∈ f.parameters, p.typeName ∈ typeSpellings
  | _ => True

/-- What reading a program ensures of it. -/
def Declaration.HasKnownParts (d : Declaration) : Prop :=
  d.HasKnownHeader ∧ ∀ s ∈ d.nodes, s.HasKnownParts

end Parts

/-- All statements of a program, with those within others. -/
def Program.statements (program : Program) : List Stmt := List.flatMap Declaration.nodes program

section Soundness

/-- The name that leads the text of an expression. -/
def Expr.lead : Expr → Option String
  | suffixed _ operand _ => operand.lead
  | assign target _ _ => target.lead
  | call callee _ _ => callee.lead
  | index array _ _ => array.lead
  | name text _ => some (identifier text)
  | _ => none

/-- Whether an `else` right after the statement would belong to an `if` in it. -/
def Stmt.takesElse : Stmt → Bool
  | .ifElse _ _ none _ => true
  | .ifElse _ _ (some alternative) _ => alternative.takesElse
  | .whileLoop _ body _ => body.takesElse
  | .forLoop _ _ _ body _ => body.takesElse
  | _ => false

/-- Whether the branch of an `if` leaves it its `else`, and no reserved word leads an expression. -/
def Stmt.keepsElse : Stmt → Bool
  | .ifElse _ consequent (some _) _ => !consequent.takesElse
  | .expression e _ => reserved.all fun w => e.lead != some w
  | _ => true

theorem takesElse_outline (s : Stmt) : s.outline.takesElse = s.takesElse := by
  fun_induction Stmt.takesElse s with
  | case1 => simp [Stmt.outline, Outline.takesElse]
  | case2 _ _ _ _ ih => simp [Stmt.outline, Outline.takesElse, ih]
  | case3 _ _ _ ih => simp [Stmt.outline, Outline.takesElse, ih]
  | case4 _ _ _ _ _ ih => simp [Stmt.outline, Outline.takesElse, ih]
  | case5 s hif hifElse hwhile hfor =>
    cases s with
    | ifElse condition consequent alternative position =>
      cases alternative with
      | none => exact (hif _ _ _ rfl).elim
      | some alternative => exact (hifElse _ _ _ _ rfl).elim
    | whileLoop condition body position => exact (hwhile _ _ _ rfl).elim
    | forLoop init condition update body position => exact (hfor _ _ _ _ _ rfl).elim
    | switch subject cases fallback position =>
      cases fallback <;> simp [Stmt.outline, Outline.takesElse]
    | returns value position => cases value <;> simp [Stmt.outline, Outline.takesElse]
    | _ => simp [Stmt.outline, Outline.takesElse]

theorem head?_numberTokens_ne (value : Number) {w : String} (hw : w ∈ reserved) :
    (numberTokens value.text.toList).head? ≠ some (.word w) := by
  obtain ⟨cs, hcs, h | h⟩ := number_text value
  · rw [h]
    unfold numberTokens
    split
    · simp
    · rcases hcs with ⟨c, more, rfl, hc, -⟩ | rfl | rfl
      · simp [unsignedToken, startsWithDigit, hc]
      · intro hword
        have hword : C.Token.word "inf" = .word w := Option.some.inj hword
        cases hword
        exact absurd hw (by decide)
      · intro hword
        have hword : C.Token.word "NaN" = .word w := Option.some.inj hword
        cases hword
        exact absurd hw (by decide)
  · simp [h, numberTokens]

/-- A reserved word leads the tokens of an expression exactly if it is the name that leads it. -/
theorem head?_tokens {w : String} (hw : w ∈ reserved) {e : Expr} (h : e.HasKnownOperators) :
    e.tokens.head? = some (.word w) ↔ e.lead = some w := by
  cases e with
  | binary op left right _ => simp [Expr.tokens, Expr.lead]
  | prefixed op operand _ =>
    have hlead : ∀ position, (Expr.prefixed op operand position).lead = none := fun _ => rfl
    rw [Expr.tokens, hlead]
    -- A sign leads the tokens, and no sign is a word.
    split
    · obtain ⟨t, more, ht, hdash⟩ := head_glueMinus operand.tokens
      rw [ht]
      simp only [List.head?_cons, Option.some.injEq, reduceCtorEq, iff_false]
      rintro rfl
      cases hdash
    · simp
  | suffixed op operand _ =>
    obtain ⟨-, ho⟩ := Expr.hasKnownOperators_suffixed.mp h
    rw [Expr.tokens, Expr.lead, List.head?_append_of_ne_nil _ (Expr.tokens_ne_nil ho)]
    exact head?_tokens hw ho
  | assign target value _ =>
    obtain ⟨ht, -⟩ := Expr.hasKnownOperators_assign.mp h
    rw [Expr.tokens, Expr.lead, List.head?_append_of_ne_nil _ (Expr.tokens_ne_nil ht)]
    exact head?_tokens hw ht
  | call callee arguments _ =>
    obtain ⟨hc, -⟩ := Expr.hasKnownOperators_call.mp h
    rw [Expr.tokens, Expr.lead, List.head?_append_of_ne_nil _ (Expr.tokens_ne_nil hc)]
    exact head?_tokens hw hc
  | index array index _ =>
    obtain ⟨ha, -⟩ := Expr.hasKnownOperators_index.mp h
    rw [Expr.tokens, Expr.lead, List.head?_append_of_ne_nil _ (Expr.tokens_ne_nil ha)]
    exact head?_tokens hw ha
  | name text _ => simp [Expr.tokens, Expr.lead]
  | number value _ =>
    have hlead : ∀ position, (Expr.number value position).lead = none := fun _ => rfl
    rw [Expr.tokens, hlead]
    simp only [reduceCtorEq, iff_false]
    exact head?_numberTokens_ne value hw
  | string text _ => simp [Expr.tokens, Expr.lead]
  | char text _ => simp [Expr.tokens, Expr.lead]

theorem bounds_of_inExpression {t : C.Token} (h : Token.inExpression t = true) :
    t.bounds = false ∧ t ≠ .mark ":" := by
  constructor
  · rw [Bool.eq_false_iff]
    intro hb
    simp only [C.Token.bounds, List.contains_eq_mem, List.mem_cons, List.not_mem_nil, or_false,
      decide_eq_true_eq] at hb
    rcases hb with rfl | rfl | rfl <;> exact absurd h (by decide)
  · rintro rfl
    exact absurd h (by decide)

theorem isGroup_inParentheses {ts : List C.Token} (h : Balanced ts) : IsGroup (inParentheses ts) :=
  ⟨ts, rfl, h⟩

theorem isGroup_condition {e : Expr} (h : e.HasKnownOperators) : IsGroup (inParentheses e.tokens) :=
  isGroup_inParentheses (Expr.balanced h)

theorem isSimple_expression {e : Expr} (h : e.HasKnownOperators) :
    IsSimple e.tokens ↔ (reserved.all fun w => e.lead != some w) = true := by
  simp only [IsSimple, List.all_eq_true, bne_iff_ne]
  constructor
  · rintro ⟨-, hlead⟩ w hw he
    exact hlead w hw ((head?_tokens hw h).mpr he)
  · intro hlead
    refine ⟨fun t ht => (bounds_of_inExpression (Expr.inExpression h t ht)).1, fun w hw he => ?_⟩
    exact hlead w hw ((head?_tokens hw h).mp he)

theorem isSimple_cons {w : String} {ts : List C.Token} (hw : w ∉ reserved)
    (h : ∀ t ∈ ts, C.Token.bounds t = false) : IsSimple (.word w :: ts) := by
  refine ⟨?_, fun w' hw' he => ?_⟩
  · rw [List.forall_mem_cons]
    exact ⟨by simp [C.Token.bounds], h⟩
  · obtain rfl : w = w' := by simpa using he
    exact hw hw'

/-- A known type is spelled as one word, with or without brackets after the name. -/
theorem Variable.declarator_cases {v : Variable} (h : v.HasKnownType) :
    ∃ type ∈ typeSpellings,
      v.elementType? = none ∧ v.typeName = type ∧
        v.declarator = [.word type, .word (identifier v.name)] ∨
      v.elementType? = some type ∧
        v.declarator = [.word type, .word (identifier v.name), .mark "[", .mark "]"] := by
  have plain : ∀ type ∈ typeSpellings, arraySuffix.toList.isSuffixOf type.toList = false := by
    decide
  have array : ∀ type ∈ typeSpellings,
      arraySuffix.toList.isSuffixOf (type ++ arraySuffix).toList = true ∧
      String.ofList ((type ++ arraySuffix).toList.take
        ((type ++ arraySuffix).toList.length - arraySuffix.length)) = type := by decide
  obtain ⟨type, ht, htype | htype⟩ := h
  · have helement : v.elementType? = none := by
      simp only [Variable.elementType?, htype, plain type ht, Bool.false_eq_true, if_false]
    exact ⟨type, ht, .inl ⟨helement, htype, by simp [Variable.declarator, helement, htype]⟩⟩
  · have helement : v.elementType? = some type := by
      simp only [Variable.elementType?, htype, (array type ht).1, (array type ht).2, if_true]
    exact ⟨type, ht, .inr ⟨helement, by simp [Variable.declarator, helement]⟩⟩

/-- The type in front of the name of a variable is no reserved word. -/
theorem Variable.isSimple {v : Variable} (h : (Stmt.declare v).HasKnownParts) :
    IsSimple v.tokens := by
  obtain ⟨ht, hi⟩ := Stmt.hasKnownParts_declare.mp h
  have unreserved : ∀ type ∈ typeSpellings, type ∉ reserved := by decide
  have hinit : ∀ t ∈ (v.init.map fun init => C.Token.mark "=" :: init.tokens).getD [],
      t.bounds = false := by
    cases he : v.init with
    | none => simp
    | some e =>
      rw [Option.map_some, Option.getD_some, List.forall_mem_cons]
      exact ⟨by decide, fun t ht => (bounds_of_inExpression (Expr.inExpression (hi e he) t ht)).1⟩
  have hword : ∀ w, (C.Token.word w).bounds = false := fun w => by simp [C.Token.bounds]
  obtain ⟨type, htype, ⟨-, -, hd⟩ | ⟨-, hd⟩⟩ := Variable.declarator_cases ht
  · rw [Variable.tokens, hd, List.cons_append, List.cons_append, List.nil_append]
    refine isSimple_cons (unreserved type htype) ?_
    rw [List.forall_mem_cons]
    exact ⟨hword _, hinit⟩
  · rw [Variable.tokens, hd]
    simp only [List.cons_append, List.nil_append]
    refine isSimple_cons (unreserved type htype) ?_
    simp only [List.forall_mem_cons]
    exact ⟨hword _, by decide, by decide, hinit⟩

theorem itemsSound_append {a b : List Item} :
    itemsSound (a ++ b) ↔ itemsSound a ∧ itemsSound b := by
  induction a with
  | nil => simp [itemsSound]
  | cons item a ih => simp [itemsSound, ih, and_assoc]

theorem Variable.balanced {v : Variable} (h : (Stmt.declare v).HasKnownParts) :
    Balanced v.tokens := by
  obtain ⟨ht, hi⟩ := Stmt.hasKnownParts_declare.mp h
  have hinit : Balanced ((v.init.map fun init => C.Token.mark "=" :: init.tokens).getD []) := by
    cases he : v.init with
    | none => exact Balanced.nil
    | some e => exact (Expr.balanced (hi e he)).cons rfl
  obtain ⟨type, -, ⟨-, -, hd⟩ | ⟨-, hd⟩⟩ := Variable.declarator_cases ht
  · rw [Variable.tokens, hd]
    exact (hinit.cons rfl).cons rfl
  · rw [Variable.tokens, hd]
    exact (((hinit.cons rfl).cons rfl).cons rfl).cons rfl

theorem balanced_optional {e : Option Expr} (h : ∀ x ∈ e, x.HasKnownOperators) :
    Balanced (optionalTokens e) := by
  cases e with
  | none => exact Balanced.nil
  | some e => exact Expr.balanced (h e rfl)

theorem isGroup_for {init : Option ForInit} {condition update : Option Expr} {body : Stmt}
    {position : Position} (h : (Stmt.forLoop init condition update body position).HasKnownParts) :
    IsGroup (inParentheses ((init.map ForInit.tokens).getD [] ++ .mark ";" ::
      (optionalTokens condition ++ .mark ";" :: optionalTokens update))) := by
  obtain ⟨hi, hc, hu⟩ := Stmt.hasKnownParts_forLoop.mp h
  have hinit : Balanced ((init.map ForInit.tokens).getD []) := by
    match init with
    | none => exact Balanced.nil
    | some (.declare v) => exact Variable.balanced (hi (.declare v) rfl)
    | some (.expression e) => exact Expr.balanced (hi (.expression e) rfl)
  exact isGroup_inParentheses (hinit.append
    (((balanced_optional hc).append ((balanced_optional hu).cons rfl)).cons rfl))

theorem isLabel_case {value : Expr} (h : value.HasKnownOperators) :
    IsLabel (.word "case" :: value.tokens) := by
  refine ⟨?_, "case", by decide, rfl⟩
  rw [List.forall_mem_cons]
  exact ⟨by decide, fun t ht => bounds_of_inExpression (Expr.inExpression h t ht)⟩

mutual

/-- A statement is sound exactly if every `if` keeps its `else` and no reserved word leads an
expression. -/
theorem Stmt.sound_iff : ∀ {s : Stmt}, (∀ x ∈ s.nodes, x.HasKnownParts) →
    (s.outline.Sound ↔ ∀ x ∈ s.nodes, x.keepsElse = true)
  | .block ss _, h => by
    simp only [Stmt.nodes, List.forall_mem_cons] at h ⊢
    rw [Stmt.outline, Outline.Sound, statements_sound_iff h.2]
    simp [Stmt.keepsElse]
  | .declare v, h => by
    simp only [Stmt.nodes, List.forall_mem_singleton] at h ⊢
    have hs := Variable.isSimple h
    rw [Stmt.outline, Outline.Sound]
    simp [Stmt.keepsElse, hs]
  | .ifElse condition consequent none _, h => by
    simp only [Stmt.nodes, List.forall_mem_cons] at h ⊢
    have hg := isGroup_condition (h.1.1 condition List.mem_cons_self)
    rw [Stmt.outline, Outline.Sound, Stmt.sound_iff h.2]
    simp [Stmt.keepsElse, hg]
  | .ifElse condition consequent (some alternative) _, h => by
    simp only [Stmt.nodes, List.forall_mem_cons, List.forall_mem_append] at h ⊢
    have hg := isGroup_condition (h.1.1 condition List.mem_cons_self)
    rw [Stmt.outline, Outline.Sound, Stmt.sound_iff h.2.1, Stmt.sound_iff h.2.2, takesElse_outline]
    simp only [Stmt.keepsElse, hg, true_and, Bool.not_eq_true']
    constructor
    · rintro ⟨hc, htakes, ha⟩
      exact ⟨htakes, hc, ha⟩
    · rintro ⟨htakes, hc, ha⟩
      exact ⟨hc, htakes, ha⟩
  | .whileLoop condition body _, h => by
    simp only [Stmt.nodes, List.forall_mem_cons] at h ⊢
    have hg := isGroup_condition (h.1.1 condition List.mem_cons_self)
    rw [Stmt.outline, Outline.Sound, Stmt.sound_iff h.2]
    simp [Stmt.keepsElse, hg]
  | .forLoop init condition update body _, h => by
    simp only [Stmt.nodes, List.forall_mem_cons] at h ⊢
    rw [Stmt.outline, Outline.Sound, Stmt.sound_iff h.2]
    simp [Stmt.keepsElse, isGroup_for h.1]
  | .switch subject cases none _, h => by
    simp only [Stmt.nodes, List.forall_mem_cons] at h ⊢
    have hg := isGroup_condition (h.1.1 subject List.mem_cons_self)
    rw [Stmt.outline, Outline.Sound, Outline.Sound, clauses_sound_iff ?_ h.2]
    · simp [Stmt.keepsElse, hg]
    · exact fun c hc => h.1.1 c.value (List.mem_cons_of_mem _ (List.mem_map_of_mem hc))
  | .switch subject cases (some fallback) _, h => by
    simp only [Stmt.nodes, List.forall_mem_cons, List.forall_mem_append] at h ⊢
    have hg := isGroup_condition (h.1.1 subject List.mem_cons_self)
    have hl : IsLabel [.word "default"] := ⟨by decide, "default", by decide, rfl⟩
    rw [Stmt.outline, Outline.Sound, Outline.Sound, itemsSound_append, itemsSound, Item.Sound,
      clauses_sound_iff ?_ h.2.1, statements_sound_iff h.2.2]
    · simp [Stmt.keepsElse, hg, hl]
    · exact fun c hc => h.1.1 c.value (List.mem_cons_of_mem _ (List.mem_map_of_mem hc))
  | .returns none _, _ => by
    have hs : IsSimple [.word "return"] := isSimple_cons (by decide) (by decide)
    simp [Stmt.nodes, Stmt.outline, Outline.Sound, Stmt.keepsElse, hs]
  | .returns (some value) _, h => by
    simp only [Stmt.nodes, List.forall_mem_singleton] at h ⊢
    have hs : IsSimple (.word "return" :: value.tokens) := isSimple_cons (by decide) fun t ht =>
      (bounds_of_inExpression (Expr.inExpression (h.1 value List.mem_cons_self) t ht)).1
    simp [Stmt.outline, Outline.Sound, Stmt.keepsElse, hs]
  | .breaks _, _ => by
    have hs : IsSimple [.word "break"] := isSimple_cons (by decide) (by decide)
    simp [Stmt.nodes, Stmt.outline, Outline.Sound, Stmt.keepsElse, hs]
  | .continues _, _ => by
    have hs : IsSimple [.word "continue"] := isSimple_cons (by decide) (by decide)
    simp [Stmt.nodes, Stmt.outline, Outline.Sound, Stmt.keepsElse, hs]
  | .expression e _, h => by
    simp only [Stmt.nodes, List.forall_mem_singleton] at h ⊢
    rw [Stmt.outline, Outline.Sound, isSimple_expression (h.1 e List.mem_cons_self)]
    simp [Stmt.keepsElse]

theorem statements_sound_iff : ∀ {ss : List Stmt}, (∀ x ∈ statementNodes ss, x.HasKnownParts) →
    (itemsSound (statementItems ss) ↔ ∀ x ∈ statementNodes ss, x.keepsElse = true)
  | [], _ => by simp [statementItems, itemsSound, statementNodes]
  | s :: ss, h => by
    simp only [statementNodes, List.forall_mem_append] at h ⊢
    rw [statementItems, itemsSound, Item.Sound, Stmt.sound_iff h.1, statements_sound_iff h.2]

theorem clauses_sound_iff : ∀ {cs : List Clause}, (∀ c ∈ cs, c.value.HasKnownOperators) →
    (∀ x ∈ clauseNodes cs, x.HasKnownParts) →
    (itemsSound (clauseItems cs) ↔ ∀ x ∈ clauseNodes cs, x.keepsElse = true)
  | [], _, _ => by simp [clauseItems, itemsSound, clauseNodes]
  | .case value statements _ :: cs, hv, h => by
    simp only [clauseNodes, List.forall_mem_append] at h ⊢
    rw [List.forall_mem_cons] at hv
    have hl : IsLabel (.word "case" :: value.tokens) := isLabel_case hv.1
    rw [clauseItems, itemsSound, Item.Sound, itemsSound_append, statements_sound_iff h.1,
      clauses_sound_iff hv.2 h.2]
    simp [hl]

end

theorem bounds_parameterTokens : ∀ ps : List Parameter,
    ∀ t ∈ parameterTokens ps, C.Token.bounds t = false
  | [] => by simp [parameterTokens]
  | [p] => by simp [parameterTokens, Parameter.tokens, C.Token.bounds]
  | p :: p' :: ps => by
    simp only [parameterTokens, Parameter.tokens, List.cons_append, List.nil_append,
      List.forall_mem_cons]
    exact ⟨by simp [C.Token.bounds], by simp [C.Token.bounds], by decide,
      bounds_parameterTokens (p' :: ps)⟩

theorem isSimple_header {f : Function} (h : (Declaration.function f).HasKnownHeader) :
    IsSimple f.headerTokens := by
  have unreserved : ∀ type ∈ typeSpellings, type ∉ reserved := by decide
  refine isSimple_cons (unreserved _ h.1) ?_
  simp only [inParentheses, List.forall_mem_cons, List.forall_mem_append]
  refine ⟨by simp [C.Token.bounds], by decide, ?_, by decide⟩
  split
  · simp [C.Token.bounds]
  · exact bounds_parameterTokens f.parameters

theorem Declaration.sound_iff {d : Declaration} (h : d.HasKnownParts) :
    d.outline.Sound ↔ ∀ s ∈ d.nodes, s.keepsElse = true := by
  cases d with
  | function f =>
    have hne : f.headerTokens ≠ [] := by simp [Function.headerTokens]
    simp only [Declaration.outline, External.Sound, Declaration.nodes]
    rw [statements_sound_iff h.2]
    simp [hne, isSimple_header h.1]
  | global v =>
    have hsound := Stmt.sound_iff (s := .declare v)
      (by simpa [Stmt.nodes, Declaration.nodes] using h.2)
    simpa [Declaration.outline, External.Sound, Declaration.nodes, Stmt.outline, Stmt.nodes]
      using hsound
  | statement s => exact Stmt.sound_iff h.2

/-- A program is sound exactly if every `if` keeps its `else` and no reserved word leads an
expression. -/
theorem Program.sound_iff {program : Program} (h : ∀ d ∈ program, d.HasKnownParts) :
    (∀ x ∈ program.outline, x.Sound) ↔ ∀ s ∈ program.statements, s.keepsElse = true := by
  simp only [Program.outline, Program.statements, List.forall_mem_map, List.mem_flatMap,
    forall_exists_index, and_imp]
  constructor
  · intro sound s d hd hs
    exact (Declaration.sound_iff (h d hd)).mp (sound d hd) s hs
  · intro keeps d hd
    exact (Declaration.sound_iff (h d hd)).mpr fun s hs => keeps s d hd hs

end Soundness

end KanaScript
