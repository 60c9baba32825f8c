import KanaScript.Proofs.Text.Quoted
import KanaScript.Proofs.Tree.Labels

/-! The labels of a program.  Its listing is that of its labels, and no line of it is broken if no
operator, no name and no type is. -/

namespace KanaScript

open C (Unbroken)

section Labelled

mutual

def Expr.labelTree : Expr → LabelTree
  | .binary op left right _ => .node ⟨.binaryExpr, op⟩ [left.labelTree, right.labelTree]
  | .prefixed op operand _ => .node ⟨.unaryExpr, op ++ " (prefix=true)"⟩ [operand.labelTree]
  | .suffixed op operand _ => .node ⟨.unaryExpr, op ++ " (prefix=false)"⟩ [operand.labelTree]
  | .assign target value _ => .node ⟨.assignExpr, ""⟩ [target.labelTree, value.labelTree]
  | .call callee arguments _ => .node ⟨.callExpr, ""⟩ (callee.labelTree :: argumentForest arguments)
  | .index array index _ => .node ⟨.indexExpr, ""⟩ [array.labelTree, index.labelTree]
  | .name text _ => .node ⟨.identifier, text⟩ []
  | .number value _ => .node ⟨.numberLiteral, value.text⟩ []
  | .string text _ => .node ⟨.stringLiteral, Text.quote text⟩ []
  | .char text _ => .node ⟨.charLiteral, Text.quote text⟩ []

def argumentForest : List Expr → List LabelTree
  | [] => []
  | e :: es => e.labelTree :: argumentForest es

end

def optionalForest (e : Option Expr) : List LabelTree := (e.map Expr.labelTree).toList

def Variable.labelTree (v : Variable) : LabelTree :=
  .node ⟨.varDecl, v.typeName ++ (" " ++ v.name)⟩ (optionalForest v.init)

def ForInit.labelTree : ForInit → LabelTree
  | declare v => v.labelTree
  | expression e => e.labelTree

mutual

def Stmt.labelTree : Stmt → LabelTree
  | .block statements _ => .node ⟨.blockStmt, ""⟩ (statementForest statements)
  | .declare v => v.labelTree
  | .ifElse condition consequent none _ =>
    .node ⟨.ifStmt, ""⟩ [condition.labelTree, consequent.labelTree]
  | .ifElse condition consequent (some alternative) _ =>
    .node ⟨.ifStmt, ""⟩ [condition.labelTree, consequent.labelTree, alternative.labelTree]
  | .whileLoop condition body _ =>
    .node ⟨.whileStmt, ""⟩ [condition.labelTree, body.labelTree]
  | .forLoop init condition update body _ =>
    .node ⟨.forStmt, ""⟩ ((init.map ForInit.labelTree).toList ++ (optionalForest condition ++
      (optionalForest update ++ [body.labelTree])))
  | .switch subject cases none _ =>
    .node ⟨.switchStmt, ""⟩ (subject.labelTree :: clauseForest cases)
  | .switch subject cases (some fallback) _ =>
    .node ⟨.switchStmt, ""⟩ (subject.labelTree :: (clauseForest cases ++
      [.node ⟨.defaultClause, ""⟩ (statementForest fallback)]))
  | .returns value _ => .node ⟨.returnStmt, ""⟩ (optionalForest value)
  | .breaks _ => .node ⟨.breakStmt, ""⟩ []
  | .continues _ => .node ⟨.continueStmt, ""⟩ []
  | .expression e _ => .node ⟨.exprStmt, ""⟩ [e.labelTree]

def statementForest : List Stmt → List LabelTree
  | [] => []
  | s :: ss => s.labelTree :: statementForest ss

def clauseForest : List Clause → List LabelTree
  | [] => []
  | .case value statements _ :: others =>
    .node ⟨.caseClause, ""⟩ (value.labelTree :: statementForest statements) :: clauseForest others

end

/-- The label of a default clause, with those of its statements. -/
def fallbackForest (fallback : Option (List Stmt)) : List LabelTree :=
  (fallback.map fun ss => .node ⟨.defaultClause, ""⟩ (statementForest ss)).toList

theorem Stmt.labelTree_ifElse {condition : Expr} {consequent : Stmt} {alternative : Option Stmt}
    {position : Position} : (Stmt.ifElse condition consequent alternative position).labelTree =
      .node ⟨.ifStmt, ""⟩ (condition.labelTree :: consequent.labelTree ::
        (alternative.map Stmt.labelTree).toList) := by
  cases alternative <;> simp [Stmt.labelTree]

theorem Stmt.labelTree_switch {subject : Expr} {cases : List Clause}
    {fallback : Option (List Stmt)} {position : Position} :
    (Stmt.switch subject cases fallback position).labelTree =
      .node ⟨.switchStmt, ""⟩ (subject.labelTree :: (clauseForest cases ++
        fallbackForest fallback)) := by
  cases fallback <;> simp [Stmt.labelTree, fallbackForest]

def Parameter.labelTree (p : Parameter) : LabelTree :=
  .node ⟨.parameter, p.typeName ++ (" " ++ p.name)⟩ []

def Function.labelTree (f : Function) : LabelTree :=
  .node ⟨.functionDecl, f.returnType ++ (" " ++ f.name)⟩ (f.parameters.map Parameter.labelTree ++
    [.node ⟨.blockStmt, ""⟩ (statementForest f.body.statements)])

def Declaration.labelTree : Declaration → LabelTree
  | function f => f.labelTree
  | global v => v.labelTree
  | statement s => s.labelTree

end Labelled

section Lines

open LabelTree

attribute [local simp] Label.line Label.text Tag.text String.append_assoc

mutual

/-- The listing of an expression is that of its labels. -/
theorem Expr.listing_eq : ∀ (e : Expr) (depth : Nat), e.listing depth = e.labelTree.lines depth
  | .binary op left right _, depth => by
    simp [Expr.listing, Expr.labelTree, left.listing_eq, right.listing_eq]
  | .prefixed op operand _, depth => by
    simp [Expr.listing, Expr.labelTree, operand.listing_eq]
  | .suffixed op operand _, depth => by
    simp [Expr.listing, Expr.labelTree, operand.listing_eq]
  | .assign target value _, depth => by
    simp [Expr.listing, Expr.labelTree, target.listing_eq, value.listing_eq]
  | .call callee arguments _, depth => by
    simp [Expr.listing, Expr.labelTree, callee.listing_eq, listExpressions_eq arguments]
  | .index array index _, depth => by
    simp [Expr.listing, Expr.labelTree, array.listing_eq, index.listing_eq]
  | .name text _, depth => by simp [Expr.listing, Expr.labelTree]
  | .number value _, depth => by simp [Expr.listing, Expr.labelTree]
  | .string text _, depth => by simp [Expr.listing, Expr.labelTree]
  | .char text _, depth => by simp [Expr.listing, Expr.labelTree]

theorem listExpressions_eq : ∀ (es : List Expr) (depth : Nat),
    listExpressions depth es = forestLines depth (argumentForest es)
  | [], depth => by simp [listExpressions, argumentForest]
  | e :: es, depth => by
    simp [listExpressions, argumentForest, e.listing_eq, listExpressions_eq es]

end

theorem listOptional_eq (e : Option Expr) (depth : Nat) :
    listOptional depth e = forestLines depth (optionalForest e) := by
  cases e <;> simp [listOptional, optionalForest, Expr.listing_eq]

theorem Variable.listing_eq (v : Variable) (depth : Nat) :
    v.listing depth = v.labelTree.lines depth := by
  simp [Variable.listing, Variable.labelTree, listOptional_eq]

theorem ForInit.listing_eq (init : ForInit) (depth : Nat) :
    init.listing depth = init.labelTree.lines depth := by
  cases init with
  | declare v => exact v.listing_eq depth
  | expression e => exact e.listing_eq depth

mutual

/-- The listing of a statement is that of its labels. -/
theorem Stmt.listing_eq : ∀ (s : Stmt) (depth : Nat), s.listing depth = s.labelTree.lines depth
  | .block statements _, depth => by
    simp [Stmt.listing, Stmt.labelTree, listStatements_eq statements]
  | .declare v, depth => by simp [Stmt.listing, Stmt.labelTree, v.listing_eq]
  | .ifElse condition consequent none _, depth => by
    simp [Stmt.listing, Stmt.labelTree, condition.listing_eq, consequent.listing_eq]
  | .ifElse condition consequent (some alternative) _, depth => by
    simp [Stmt.listing, Stmt.labelTree, condition.listing_eq, consequent.listing_eq,
      alternative.listing_eq]
  | .whileLoop condition body _, depth => by
    simp [Stmt.listing, Stmt.labelTree, condition.listing_eq, body.listing_eq]
  | .forLoop init condition update body _, depth => by
    cases init <;>
      simp [Stmt.listing, Stmt.labelTree, ForInit.listing_eq, listOptional_eq, body.listing_eq]
  | .switch subject cases none _, depth => by
    simp [Stmt.listing, Stmt.labelTree, subject.listing_eq, listClauses_eq cases]
  | .switch subject cases (some fallback) _, depth => by
    simp [Stmt.listing, Stmt.labelTree, subject.listing_eq, listClauses_eq cases,
      listStatements_eq fallback]
  | .returns value _, depth => by simp [Stmt.listing, Stmt.labelTree, listOptional_eq]
  | .breaks _, depth => by simp [Stmt.listing, Stmt.labelTree]
  | .continues _, depth => by simp [Stmt.listing, Stmt.labelTree]
  | .expression e _, depth => by simp [Stmt.listing, Stmt.labelTree, e.listing_eq]

theorem listStatements_eq : ∀ (ss : List Stmt) (depth : Nat),
    listStatements depth ss = forestLines depth (statementForest ss)
  | [], depth => by simp [listStatements, statementForest]
  | s :: ss, depth => by
    simp [listStatements, statementForest, s.listing_eq, listStatements_eq ss]

theorem listClauses_eq : ∀ (cs : List Clause) (depth : Nat),
    listClauses depth cs = forestLines depth (clauseForest cs)
  | [], depth => by simp [listClauses, clauseForest]
  | .case value statements _ :: others, depth => by
    simp [listClauses, clauseForest, value.listing_eq, listStatements_eq statements,
      listClauses_eq others]

end

theorem Declaration.listing_eq (d : Declaration) (depth : Nat) :
    d.listing depth = d.labelTree.lines depth := by
  cases d with
  | function f =>
    have hparameters : forestLines (depth + 1) (f.parameters.map Parameter.labelTree) =
        f.parameters.map fun p =>
          listingLine (depth + 1) ("Parameter: " ++ p.typeName ++ " " ++ p.name) := by
      induction f.parameters with
      | nil => rfl
      | cons p ps ih => simp [Parameter.labelTree, ih]
    simp [Declaration.listing, Function.listing, Declaration.labelTree, Function.labelTree,
      hparameters, listStatements_eq]
  | global v => exact v.listing_eq depth
  | statement s => exact s.listing_eq depth

theorem Program.listing_eq (program : Program) : program.listing =
    listingLine 0 "Program" :: forestLines 1 (program.map Declaration.labelTree) := by
  rw [Program.listing]
  congr 1
  induction program with
  | nil => rfl
  | cons d ds ih => simp [ih, d.listing_eq]

end Lines

section Breaks

open LabelTree

/-- The operator or the name at the root of the expression is not broken. -/
def Expr.HasUnbrokenText : Expr → Prop
  | .binary op _ _ _ => Unbroken op
  | .prefixed op _ _ => Unbroken op
  | .suffixed op _ _ => Unbroken op
  | .name text _ => Unbroken text
  | _ => True

theorem unbroken_quote (text : String) : Unbroken (Text.quote text) := Text.isLine_quote text

theorem unbroken_empty : Unbroken "" := by decide

mutual

theorem Expr.isUnbroken : ∀ {e : Expr}, (∀ x ∈ e.nodes, x.HasUnbrokenText) →
    e.labelTree.IsUnbroken
  | .binary op left right _, h => by
    rw [Expr.nodes, List.forall_mem_cons, List.forall_mem_append] at h
    rw [Expr.labelTree]
    exact isUnbroken_node h.1 (by simp [left.isUnbroken h.2.1, right.isUnbroken h.2.2])
  | .prefixed op operand _, h => by
    rw [Expr.nodes, List.forall_mem_cons] at h
    rw [Expr.labelTree]
    exact isUnbroken_node (C.unbroken_append.mpr ⟨h.1, by decide⟩)
      (by simp [operand.isUnbroken h.2])
  | .suffixed op operand _, h => by
    rw [Expr.nodes, List.forall_mem_cons] at h
    rw [Expr.labelTree]
    exact isUnbroken_node (C.unbroken_append.mpr ⟨h.1, by decide⟩)
      (by simp [operand.isUnbroken h.2])
  | .assign target value _, h => by
    rw [Expr.nodes, List.forall_mem_cons, List.forall_mem_append] at h
    rw [Expr.labelTree]
    exact isUnbroken_node unbroken_empty
      (by simp [target.isUnbroken h.2.1, value.isUnbroken h.2.2])
  | .call callee arguments _, h => by
    rw [Expr.nodes, List.forall_mem_cons, List.forall_mem_append] at h
    rw [Expr.labelTree]
    exact isUnbroken_node unbroken_empty (List.forall_mem_cons.mpr
      ⟨callee.isUnbroken h.2.1, isUnbroken_argumentForest h.2.2⟩)
  | .index array place _, h => by
    rw [Expr.nodes, List.forall_mem_cons, List.forall_mem_append] at h
    rw [Expr.labelTree]
    exact isUnbroken_node unbroken_empty
      (by simp [array.isUnbroken h.2.1, place.isUnbroken h.2.2])
  | .name text _, h => by
    rw [Expr.labelTree]
    exact isUnbroken_node (h _ List.mem_cons_self) (List.forall_mem_nil _)
  | .number value _, _ => by
    rw [Expr.labelTree]
    exact isUnbroken_node (C.unbroken_number value) (List.forall_mem_nil _)
  | .string text _, _ => by
    rw [Expr.labelTree]
    exact isUnbroken_node (unbroken_quote text) (List.forall_mem_nil _)
  | .char text _, _ => by
    rw [Expr.labelTree]
    exact isUnbroken_node (unbroken_quote text) (List.forall_mem_nil _)

theorem isUnbroken_argumentForest : ∀ {es : List Expr},
    (∀ x ∈ argumentNodes es, x.HasUnbrokenText) → ∀ t ∈ argumentForest es, t.IsUnbroken
  | [], _ => by simp [argumentForest]
  | e :: es, h => by
    rw [argumentNodes, List.forall_mem_append] at h
    rw [argumentForest, List.forall_mem_cons]
    exact ⟨e.isUnbroken h.1, isUnbroken_argumentForest h.2⟩

end

/-- The texts of the statement that are in no other statement are not broken. -/
structure Stmt.HasUnbrokenTexts (s : Stmt) : Prop where
  expressions : ∀ e ∈ s.expressions, ∀ x ∈ e.nodes, x.HasUnbrokenText
  declared : ∀ v ∈ s.variables, Unbroken v.typeName ∧ Unbroken v.name

theorem isUnbroken_optionalForest {e : Option Expr}
    (h : ∀ f ∈ e, ∀ x ∈ f.nodes, x.HasUnbrokenText) : ∀ t ∈ optionalForest e, t.IsUnbroken := by
  cases e with
  | none => simp [optionalForest]
  | some e => simpa [optionalForest] using e.isUnbroken (h e rfl)

theorem unbroken_typedDetail {type name : String} (htype : Unbroken type) (hname : Unbroken name) :
    Unbroken (type ++ (" " ++ name)) := by
  rw [C.unbroken_append, C.unbroken_append]
  exact ⟨htype, by decide, hname⟩

theorem Variable.isUnbroken {v : Variable} (hlabel : Unbroken v.typeName ∧ Unbroken v.name)
    (hinit : ∀ e ∈ v.init, ∀ x ∈ e.nodes, x.HasUnbrokenText) : v.labelTree.IsUnbroken :=
  isUnbroken_node (unbroken_typedDetail hlabel.1 hlabel.2) (isUnbroken_optionalForest hinit)

theorem Stmt.HasUnbrokenTexts.isUnbroken_init {init : Option ForInit}
    {condition update : Option Expr} {body : Stmt} {position : Position}
    (h : (Stmt.forLoop init condition update body position).HasUnbrokenTexts) :
    ∀ t ∈ (init.map ForInit.labelTree).toList, t.IsUnbroken := by
  have hfirst : ∀ e ∈ (init.map ForInit.expressions).getD [], ∀ x ∈ e.nodes, x.HasUnbrokenText :=
    fun e he => h.expressions e (List.mem_append_left _ (List.mem_append_left _ he))
  match init with
  | none => simp
  | some (.declare v) =>
    have hinit : ∀ e ∈ v.init, ∀ x ∈ e.nodes, x.HasUnbrokenText :=
      fun e he => hfirst e (Option.mem_toList.mpr he)
    simpa [ForInit.labelTree] using Variable.isUnbroken (h.declared v List.mem_cons_self) hinit
  | some (.expression e) =>
    simpa [ForInit.labelTree] using e.isUnbroken (hfirst e List.mem_cons_self)

mutual

theorem Stmt.isUnbroken : ∀ {s : Stmt}, (∀ x ∈ s.nodes, x.HasUnbrokenTexts) →
    s.labelTree.IsUnbroken
  | .block ss _, h => by
    rw [Stmt.nodes, List.forall_mem_cons] at h
    rw [Stmt.labelTree]
    exact isUnbroken_node unbroken_empty (isUnbroken_statementForest h.2)
  | .declare v, h => by
    rw [Stmt.nodes, List.forall_mem_singleton] at h
    rw [Stmt.labelTree]
    exact Variable.isUnbroken (h.declared v List.mem_cons_self)
      fun e he => h.expressions e (Option.mem_toList.mpr he)
  | .ifElse c s none _, h => by
    rw [Stmt.nodes, List.forall_mem_cons] at h
    have hc := c.isUnbroken (h.1.expressions c List.mem_cons_self)
    rw [Stmt.labelTree]
    exact isUnbroken_node unbroken_empty (by simp [hc, s.isUnbroken h.2])
  | .ifElse c s (some a) _, h => by
    rw [Stmt.nodes, List.forall_mem_cons, List.forall_mem_append] at h
    have hc := c.isUnbroken (h.1.expressions c List.mem_cons_self)
    rw [Stmt.labelTree]
    exact isUnbroken_node unbroken_empty
      (by simp [hc, s.isUnbroken h.2.1, a.isUnbroken h.2.2])
  | .whileLoop c s _, h => by
    rw [Stmt.nodes, List.forall_mem_cons] at h
    have hc := c.isUnbroken (h.1.expressions c List.mem_cons_self)
    rw [Stmt.labelTree]
    exact isUnbroken_node unbroken_empty (by simp [hc, s.isUnbroken h.2])
  | .forLoop i c u s _, h => by
    rw [Stmt.nodes, List.forall_mem_cons] at h
    have hc := isUnbroken_optionalForest fun e he => h.1.expressions e
      (List.mem_append_left _ (List.mem_append_right _ (Option.mem_toList.mpr he)))
    have hu := isUnbroken_optionalForest fun e he => h.1.expressions e
      (List.mem_append_right _ (Option.mem_toList.mpr he))
    rw [Stmt.labelTree]
    refine isUnbroken_node unbroken_empty ?_
    simp only [List.forall_mem_append, List.forall_mem_singleton]
    exact ⟨h.1.isUnbroken_init, hc, hu, s.isUnbroken h.2⟩
  | .switch e cs none _, h => by
    rw [Stmt.nodes, List.forall_mem_cons] at h
    have he := e.isUnbroken (h.1.expressions e List.mem_cons_self)
    have hcs := isUnbroken_clauseForest (fun c hc => h.1.expressions _
      (List.mem_cons_of_mem _ (List.mem_map_of_mem hc))) h.2
    rw [Stmt.labelTree]
    exact isUnbroken_node unbroken_empty (List.forall_mem_cons.mpr ⟨he, hcs⟩)
  | .switch e cs (some ss) _, h => by
    rw [Stmt.nodes, List.forall_mem_cons, List.forall_mem_append] at h
    have he := e.isUnbroken (h.1.expressions e List.mem_cons_self)
    have hcs := isUnbroken_clauseForest (fun c hc => h.1.expressions _
      (List.mem_cons_of_mem _ (List.mem_map_of_mem hc))) h.2.1
    have hss := @isUnbroken_node ⟨.defaultClause, ""⟩ _ unbroken_empty
      (isUnbroken_statementForest h.2.2)
    rw [Stmt.labelTree]
    refine isUnbroken_node unbroken_empty ?_
    rw [List.forall_mem_cons, List.forall_mem_append, List.forall_mem_singleton]
    exact ⟨he, hcs, hss⟩
  | .returns value _, h => by
    rw [Stmt.nodes, List.forall_mem_singleton] at h
    rw [Stmt.labelTree]
    exact isUnbroken_node unbroken_empty (isUnbroken_optionalForest
      fun e he => h.expressions e (Option.mem_toList.mpr he))
  | .breaks _, _ => by
    rw [Stmt.labelTree]
    exact isUnbroken_node unbroken_empty (List.forall_mem_nil _)
  | .continues _, _ => by
    rw [Stmt.labelTree]
    exact isUnbroken_node unbroken_empty (List.forall_mem_nil _)
  | .expression e _, h => by
    rw [Stmt.nodes, List.forall_mem_singleton] at h
    rw [Stmt.labelTree]
    exact isUnbroken_node unbroken_empty
      (List.forall_mem_singleton.mpr (e.isUnbroken (h.expressions e List.mem_cons_self)))

theorem isUnbroken_statementForest : ∀ {ss : List Stmt},
    (∀ x ∈ statementNodes ss, x.HasUnbrokenTexts) → ∀ t ∈ statementForest ss, t.IsUnbroken
  | [], _ => by simp [statementForest]
  | s :: ss, h => by
    rw [statementNodes, List.forall_mem_append] at h
    rw [statementForest, List.forall_mem_cons]
    exact ⟨s.isUnbroken h.1, isUnbroken_statementForest h.2⟩

theorem isUnbroken_clauseForest : ∀ {cs : List Clause},
    (∀ c ∈ cs, ∀ x ∈ c.value.nodes, x.HasUnbrokenText) →
    (∀ x ∈ clauseNodes cs, x.HasUnbrokenTexts) → ∀ t ∈ clauseForest cs, t.IsUnbroken
  | [], _, _ => by simp [clauseForest]
  | .case e ss _ :: cs, hvalues, h => by
    rw [List.forall_mem_cons] at hvalues
    rw [clauseNodes, List.forall_mem_append] at h
    rw [clauseForest, List.forall_mem_cons]
    exact ⟨isUnbroken_node unbroken_empty (List.forall_mem_cons.mpr
      ⟨e.isUnbroken hvalues.1, isUnbroken_statementForest h.1⟩),
      isUnbroken_clauseForest hvalues.2 h.2⟩

end

/-- The texts of a declaration are not broken. -/
structure Declaration.HasUnbrokenTexts (d : Declaration) : Prop where
  header : ∀ f, d = .function f → (Unbroken f.returnType ∧ Unbroken f.name) ∧
    ∀ p ∈ f.parameters, Unbroken p.typeName ∧ Unbroken p.name
  statements : ∀ s ∈ d.nodes, s.HasUnbrokenTexts

theorem Declaration.isUnbroken {d : Declaration} (h : d.HasUnbrokenTexts) :
    d.labelTree.IsUnbroken := by
  cases d with
  | function f =>
    obtain ⟨⟨htype, hname⟩, hparameters⟩ := h.header f rfl
    refine isUnbroken_node (unbroken_typedDetail htype hname) ?_
    rw [List.forall_mem_append, List.forall_mem_map, List.forall_mem_singleton]
    constructor
    · intro p hp
      obtain ⟨htype, hname⟩ := hparameters p hp
      exact isUnbroken_node (unbroken_typedDetail htype hname) (List.forall_mem_nil _)
    · exact isUnbroken_node unbroken_empty (isUnbroken_statementForest h.statements)
  | global v => exact (Stmt.declare v).isUnbroken h.statements
  | statement s => exact s.isUnbroken h.statements

theorem Program.unbroken_listing {program : Program} (h : ∀ d ∈ program, d.HasUnbrokenTexts) :
    ∀ line ∈ program.listing, Unbroken line := by
  rw [Program.listing_eq, List.forall_mem_cons]
  refine ⟨by decide, unbroken_forestLines ?_ 1⟩
  rw [List.forall_mem_map]
  exact fun d hd => d.isUnbroken (h d hd)

theorem Program.lines_listingText {program : Program} (h : ∀ d ∈ program, d.HasUnbrokenTexts) :
    Text.lines program.listingText.toList = program.listing.map String.toList :=
  Text.lines_join (Program.unbroken_listing h)

end Breaks

end KanaScript
