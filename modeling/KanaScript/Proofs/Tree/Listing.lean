import KanaScript.Proofs.Grammar.Writing
import KanaScript.Proofs.Tree.Labelling
import Mathlib

/-! What a listing tells of a program: all but the places, if no number is a double, if types have
no blanks, and if each `for` has all its clauses or the condition alone. -/

namespace KanaScript

section Details

/-- The marks of operators before and after their operands end differently. -/
theorem unaryDetail_ne (op op' : String) : op ++ " (prefix=true)" ≠ op' ++ " (prefix=false)" := by
  intro h
  have hlist := congrArg String.toList h
  rw [String.toList_append, String.toList_append] at hlist
  have hends := List.suffix_or_suffix_of_suffix (List.suffix_append op.toList _)
    (hlist ▸ List.suffix_append op'.toList _)
  revert hends
  decide

theorem quote_injective {a b : String} (h : Text.quote a = Text.quote b) : a = b :=
  (@Text.quote_append_inj a b [] [] (by rw [h])).1

/-- A type without blanks is told from the name behind it. -/
theorem typedDetail_inj {type type' name name' : String} (htype : ' ' ∉ type.toList)
    (htype' : ' ' ∉ type'.toList) (h : type ++ (" " ++ name) = type' ++ (" " ++ name')) :
    type = type' ∧ name = name' := by
  have hlist := congrArg String.toList h
  simp only [String.toList_append] at hlist
  obtain ⟨hfirst, hrest⟩ := (Text.isRun_until htype _).unique (Text.isRun_until htype' _) hlist
  exact ⟨String.toList_inj.mp hfirst, String.toList_inj.mp (List.cons.inj hrest).2⟩

end Details

section Expressions

/-- No number of the expression is a double. -/
def Expr.IsDiscrete (e : Expr) : Prop := ∀ x ∈ e.nodes, ∀ y position, x ≠ .number (.real y) position

section

variable {op : String} {left right operand : Expr} {arguments : List Expr} {position : Position}

theorem Expr.isDiscrete_binary : (Expr.binary op left right position).IsDiscrete ↔
    left.IsDiscrete ∧ right.IsDiscrete := by
  simp [IsDiscrete, nodes, or_imp, forall_and]

theorem Expr.isDiscrete_prefixed : (Expr.prefixed op operand position).IsDiscrete ↔
    operand.IsDiscrete := by
  simp [IsDiscrete, nodes]

theorem Expr.isDiscrete_suffixed : (Expr.suffixed op operand position).IsDiscrete ↔
    operand.IsDiscrete := by
  simp [IsDiscrete, nodes]

theorem Expr.isDiscrete_assign : (Expr.assign left right position).IsDiscrete ↔
    left.IsDiscrete ∧ right.IsDiscrete := by
  simp [IsDiscrete, nodes, or_imp, forall_and]

theorem Expr.isDiscrete_call : (Expr.call operand arguments position).IsDiscrete ↔
    operand.IsDiscrete ∧ ∀ e ∈ arguments, e.IsDiscrete := by
  simp [IsDiscrete, nodes, or_imp, forall_and, ← forall_argumentNodes]

theorem Expr.isDiscrete_index : (Expr.index left right position).IsDiscrete ↔
    left.IsDiscrete ∧ right.IsDiscrete := by
  simp [IsDiscrete, nodes, or_imp, forall_and]

end

theorem Expr.not_isDiscrete_real {x : Double} {position : Position} :
    ¬(Expr.number (.real x) position).IsDiscrete :=
  fun h => h _ List.mem_cons_self x position rfl

attribute [local simp] Expr.labelTree

mutual

/-- The labels of an expression without doubles tell it. -/
theorem Expr.unplaced_eq_of_labelTree : ∀ {e f : Expr}, e.IsDiscrete → f.IsDiscrete →
    e.labelTree = f.labelTree → e.unplaced = f.unplaced
  | .binary .., f, he, hf, h => by
    cases f with
    | binary =>
      rw [Expr.isDiscrete_binary] at he hf
      obtain ⟨rfl, hleft, hright⟩ : _ = _ ∧ _ = _ ∧ _ = _ := by simpa using h
      simp only [Expr.unplaced, Expr.unplaced_eq_of_labelTree he.1 hf.1 hleft,
        Expr.unplaced_eq_of_labelTree he.2 hf.2 hright]
    | _ => simp at h
  | .prefixed .., f, he, hf, h => by
    cases f with
    | prefixed =>
      rw [Expr.isDiscrete_prefixed] at he hf
      obtain ⟨rfl, hoperand⟩ : _ = _ ∧ _ = _ := by simpa using h
      simp only [Expr.unplaced, Expr.unplaced_eq_of_labelTree he hf hoperand]
    | suffixed => simp [unaryDetail_ne] at h
    | _ => simp at h
  | .suffixed .., f, he, hf, h => by
    cases f with
    | suffixed =>
      rw [Expr.isDiscrete_suffixed] at he hf
      obtain ⟨rfl, hoperand⟩ : _ = _ ∧ _ = _ := by simpa using h
      simp only [Expr.unplaced, Expr.unplaced_eq_of_labelTree he hf hoperand]
    | prefixed => simp [(unaryDetail_ne _ _).symm] at h
    | _ => simp at h
  | .assign .., f, he, hf, h => by
    cases f with
    | assign =>
      rw [Expr.isDiscrete_assign] at he hf
      obtain ⟨htarget, hvalue⟩ : _ = _ ∧ _ = _ := by simpa using h
      simp only [Expr.unplaced, Expr.unplaced_eq_of_labelTree he.1 hf.1 htarget,
        Expr.unplaced_eq_of_labelTree he.2 hf.2 hvalue]
    | _ => simp at h
  | .call .., f, he, hf, h => by
    cases f with
    | call =>
      rw [Expr.isDiscrete_call] at he hf
      obtain ⟨hcallee, harguments⟩ : _ = _ ∧ _ = _ := by simpa using h
      simp only [Expr.unplaced, Expr.unplaced_eq_of_labelTree he.1 hf.1 hcallee,
        unplacedArguments_eq_of_forest he.2 hf.2 harguments]
    | _ => simp at h
  | .index .., f, he, hf, h => by
    cases f with
    | index =>
      rw [Expr.isDiscrete_index] at he hf
      obtain ⟨harray, hindex⟩ : _ = _ ∧ _ = _ := by simpa using h
      simp only [Expr.unplaced, Expr.unplaced_eq_of_labelTree he.1 hf.1 harray,
        Expr.unplaced_eq_of_labelTree he.2 hf.2 hindex]
    | _ => simp at h
  | .name .., f, _, _, h => by
    cases f with
    | name => simpa [Expr.unplaced] using h
    | _ => simp at h
  | .number value _, f, he, hf, h => by
    cases f with
    | number other =>
      cases value with
      | real => exact absurd he Expr.not_isDiscrete_real
      | int n =>
        cases other with
        | real => exact absurd hf Expr.not_isDiscrete_real
        | int m =>
          have htext : (Number.int n).text = (Number.int m).text := by simpa using h
          rw [Int.repr_injective htext, Expr.unplaced, Expr.unplaced]
    | _ => simp at h
  | .string .., f, _, _, h => by
    cases f with
    | string => simpa [Expr.unplaced] using quote_injective (by simpa using h)
    | _ => simp at h
  | .char .., f, _, _, h => by
    cases f with
    | char => simpa [Expr.unplaced] using quote_injective (by simpa using h)
    | _ => simp at h

theorem unplacedArguments_eq_of_forest : ∀ {es fs : List Expr}, (∀ e ∈ es, e.IsDiscrete) →
    (∀ f ∈ fs, f.IsDiscrete) → argumentForest es = argumentForest fs →
    unplacedArguments es = unplacedArguments fs
  | [], [], _, _, _ => rfl
  | [], _ :: _, _, _, h => by simp [argumentForest] at h
  | _ :: _, [], _, _, h => by simp [argumentForest] at h
  | e :: es, f :: fs, hes, hfs, h => by
    obtain ⟨he, hes⟩ := List.forall_mem_cons.mp hes
    obtain ⟨hf, hfs⟩ := List.forall_mem_cons.mp hfs
    simp only [argumentForest, List.cons.injEq] at h
    simp only [unplacedArguments, Expr.unplaced_eq_of_labelTree he hf h.1,
      unplacedArguments_eq_of_forest hes hfs h.2]

end

theorem unplaced_eq_of_optionalForest {e f : Option Expr} (he : ∀ x ∈ e, x.IsDiscrete)
    (hf : ∀ x ∈ f, x.IsDiscrete) (h : optionalForest e = optionalForest f) :
    e.map Expr.unplaced = f.map Expr.unplaced := by
  match e, f with
  | none, none => rfl
  | none, some f => simp [optionalForest] at h
  | some e, none => simp [optionalForest] at h
  | some e, some f =>
    have htree : e.labelTree = f.labelTree := by simpa [optionalForest] using h
    rw [Option.map_some, Option.map_some,
      Expr.unplaced_eq_of_labelTree (he e rfl) (hf f rfl) htree]

end Expressions

section Statements

/-- The head of a `for` has all three clauses, or the condition alone. -/
def Stmt.HasWholeHead : Stmt → Prop
  | .forLoop init condition update _ _ =>
    condition.isSome = true ∧ init.isSome = update.isSome
  | _ => True

/-- What the label of the statement and those below it leave out is its place. -/
structure Stmt.IsListable (s : Stmt) : Prop where
  discrete : ∀ e ∈ s.expressions, e.IsDiscrete
  types : ∀ v ∈ s.variables, ' ' ∉ v.typeName.toList
  head : s.HasWholeHead

theorem Variable.unplaced_eq_of_labelTree {v w : Variable} (hv : (Stmt.declare v).IsListable)
    (hw : (Stmt.declare w).IsListable) (h : v.labelTree = w.labelTree) :
    v.unplaced = w.unplaced := by
  simp only [Variable.labelTree, LabelTree.node.injEq, Label.mk.injEq, true_and] at h
  obtain ⟨htype, hname⟩ := typedDetail_inj (hv.types v List.mem_cons_self)
    (hw.types w List.mem_cons_self) h.1
  have hinit := unplaced_eq_of_optionalForest (by simpa [Stmt.expressions] using hv.discrete)
    (by simpa [Stmt.expressions] using hw.discrete) h.2
  rw [Variable.unplaced, Variable.unplaced, htype, hname, hinit]

def ForInit.IsListable : ForInit → Prop
  | declare v => (Stmt.declare v).IsListable
  | expression e => e.IsDiscrete

theorem ForInit.unplaced_eq_of_labelTree {i j : ForInit} (hi : i.IsListable) (hj : j.IsListable)
    (h : i.labelTree = j.labelTree) : i.unplaced = j.unplaced := by
  -- a variable has a tag that no expression has
  have hdiffer : ∀ (v : Variable) (e : Expr), v.labelTree ≠ e.labelTree := fun v e => by
    cases e <;> simp [Variable.labelTree, Expr.labelTree]
  cases i with
  | declare v =>
    cases j with
    | declare w =>
      rw [ForInit.unplaced, ForInit.unplaced, Variable.unplaced_eq_of_labelTree hi hj h]
    | expression f => exact absurd h (hdiffer v f)
  | expression e =>
    cases j with
    | declare w => exact absurd h.symm (hdiffer w e)
    | expression f =>
      rw [ForInit.unplaced, ForInit.unplaced, Expr.unplaced_eq_of_labelTree hi hj h]

section Parts

variable {init : Option ForInit} {condition update : Option Expr} {body : Stmt}
  {position : Position}

theorem Stmt.IsListable.listable_init
    (h : (Stmt.forLoop init condition update body position).IsListable) :
    ∀ i ∈ init, i.IsListable := by
  rintro (v | e) rfl
  · refine ⟨fun e he => h.discrete e ?_, fun w hw => h.types w hw, trivial⟩
    exact List.mem_append_left _ (List.mem_append_left _ he)
  · exact h.discrete e (List.mem_append_left _ (List.mem_append_left _ List.mem_cons_self))

theorem Stmt.IsListable.discrete_condition
    (h : (Stmt.forLoop init condition update body position).IsListable) :
    ∀ e ∈ condition, e.IsDiscrete := fun e he =>
  h.discrete e (List.mem_append_left _ (List.mem_append_right _ (Option.mem_toList.mpr he)))

theorem Stmt.IsListable.discrete_update
    (h : (Stmt.forLoop init condition update body position).IsListable) :
    ∀ e ∈ update, e.IsDiscrete := fun e he =>
  h.discrete e (List.mem_append_right _ (Option.mem_toList.mpr he))

theorem Stmt.IsListable.discrete_values {subject : Expr} {cases : List Clause}
    {fallback : Option (List Stmt)} (h : (Stmt.switch subject cases fallback position).IsListable) :
    ∀ c ∈ cases, c.value.IsDiscrete := fun _ hc =>
  h.discrete _ (List.mem_cons_of_mem _ (List.mem_map_of_mem hc))

end Parts

/-- The labels of a head with all clauses, or with the condition alone, tell the clauses. -/
theorem unplaced_eq_of_headForest {init init' : Option ForInit}
    {condition update condition' update' : Option Expr} {body body' : Stmt}
    {position position' : Position}
    (hs : (Stmt.forLoop init condition update body position).IsListable)
    (ht : (Stmt.forLoop init' condition' update' body' position').IsListable)
    (h : (init.map ForInit.labelTree).toList ++ (optionalForest condition ++
        (optionalForest update ++ [body.labelTree])) =
      (init'.map ForInit.labelTree).toList ++ (optionalForest condition' ++
        (optionalForest update' ++ [body'.labelTree]))) :
    init.map ForInit.unplaced = init'.map ForInit.unplaced ∧
      condition.map Expr.unplaced = condition'.map Expr.unplaced ∧
      update.map Expr.unplaced = update'.map Expr.unplaced ∧ body.labelTree = body'.labelTree := by
  obtain ⟨hcondition, hupdate⟩ := hs.head
  obtain ⟨hcondition', hupdate'⟩ := ht.head
  obtain ⟨c, rfl⟩ := Option.isSome_iff_exists.mp hcondition
  obtain ⟨c', rfl⟩ := Option.isSome_iff_exists.mp hcondition'
  have htest : c.labelTree = c'.labelTree → c.unplaced = c'.unplaced :=
    Expr.unplaced_eq_of_labelTree (hs.discrete_condition c rfl) (ht.discrete_condition c' rfl)
  match init, update, init', update' with
  | none, none, none, none =>
    obtain ⟨hc, hbody⟩ : _ = _ ∧ _ = _ := by simpa [optionalForest] using h
    exact ⟨rfl, congrArg some (htest hc), rfl, hbody⟩
  | some i, some u, some i', some u' =>
    obtain ⟨hi, hc, hu, hbody⟩ : _ = _ ∧ _ = _ ∧ _ = _ ∧ _ = _ := by
      simpa [optionalForest] using h
    have hinit := ForInit.unplaced_eq_of_labelTree (hs.listable_init i rfl)
      (ht.listable_init i' rfl) hi
    have hstep := Expr.unplaced_eq_of_labelTree (hs.discrete_update u rfl)
      (ht.discrete_update u' rfl) hu
    exact ⟨congrArg some hinit, congrArg some (htest hc), congrArg some hstep, hbody⟩
  | none, none, some _, some _ => simp [optionalForest] at h
  | some _, some _, none, none => simp [optionalForest] at h

/-- The forest goes on with no labelled clause. -/
def EndsClauses (ts : List LabelTree) : Prop :=
  ∀ t ∈ ts.head?, ∀ detail children, t ≠ .node ⟨.caseClause, detail⟩ children

theorem endsClauses_fallbackForest (fallback : Option (List Stmt)) :
    EndsClauses (fallbackForest fallback) := by
  cases fallback <;> simp [EndsClauses, fallbackForest]

theorem Stmt.unplaced_ifElse {condition : Expr} {consequent : Stmt} {alternative : Option Stmt}
    {position : Position} : (Stmt.ifElse condition consequent alternative position).unplaced =
      .ifElse condition.unplaced consequent.unplaced (alternative.map Stmt.unplaced) .start := by
  cases alternative <;> simp [Stmt.unplaced]

theorem Stmt.unplaced_switch {subject : Expr} {cases : List Clause} {fallback : Option (List Stmt)}
    {position : Position} : (Stmt.switch subject cases fallback position).unplaced =
      .switch subject.unplaced (unplacedClauses cases) (fallback.map unplacedStatements) .start := by
  cases fallback <;> simp [Stmt.unplaced]

attribute [local simp] Stmt.labelTree_ifElse Stmt.labelTree_switch Stmt.labelTree Variable.labelTree

mutual

/-- The labels of a statement tell it. -/
theorem Stmt.unplaced_eq_of_labelTree : ∀ {s t : Stmt}, (∀ x ∈ s.nodes, x.IsListable) →
    (∀ x ∈ t.nodes, x.IsListable) → s.labelTree = t.labelTree → s.unplaced = t.unplaced
  | .block ss _, t, hs, ht, h => by
    cases t with
    | block ts =>
      rw [Stmt.nodes, List.forall_mem_cons] at hs ht
      have hforest : statementForest ss = statementForest ts := by simpa using h
      rw [Stmt.unplaced, Stmt.unplaced, unplacedStatements_eq_of_forest hs.2 ht.2 hforest]
    | _ => simp at h
  | .declare v, t, hs, ht, h => by
    cases t with
    | declare w =>
      rw [Stmt.nodes, List.forall_mem_singleton] at hs ht
      have htree : v.labelTree = w.labelTree := h
      rw [Stmt.unplaced, Stmt.unplaced, Variable.unplaced_eq_of_labelTree hs ht htree]
    | _ => simp at h
  | .ifElse c _ _ _, t, hs, ht, h => by
    cases t with
    | ifElse c' =>
      rw [Stmt.nodes_ifElse, List.forall_mem_cons, List.forall_mem_append] at hs ht
      simp only [Stmt.labelTree_ifElse, LabelTree.node.injEq, true_and, List.cons.injEq] at h
      have hcondition := Expr.unplaced_eq_of_labelTree (hs.1.discrete c List.mem_cons_self)
        (ht.1.discrete c' List.mem_cons_self) h.1
      rw [Stmt.unplaced_ifElse, Stmt.unplaced_ifElse, hcondition,
        Stmt.unplaced_eq_of_labelTree hs.2.1 ht.2.1 h.2.1,
        unplaced_eq_of_alternativeForest hs.2.2 ht.2.2 h.2.2]
    | _ => simp at h
  | .whileLoop c s _, t, hs, ht, h => by
    cases t with
    | whileLoop c' s' =>
      rw [Stmt.nodes, List.forall_mem_cons] at hs ht
      obtain ⟨hc, hbody⟩ : _ = _ ∧ _ = _ := by simpa using h
      have hcondition := Expr.unplaced_eq_of_labelTree (hs.1.discrete c List.mem_cons_self)
        (ht.1.discrete c' List.mem_cons_self) hc
      rw [Stmt.unplaced, Stmt.unplaced, hcondition, Stmt.unplaced_eq_of_labelTree hs.2 ht.2 hbody]
    | _ => simp at h
  | .forLoop _ _ _ s _, t, hs, ht, h => by
    cases t with
    | forLoop _ _ _ s' =>
      rw [Stmt.nodes, List.forall_mem_cons] at hs ht
      simp only [Stmt.labelTree, LabelTree.node.injEq, true_and] at h
      obtain ⟨hinit, hcondition, hupdate, hbody⟩ := unplaced_eq_of_headForest hs.1 ht.1 h
      rw [Stmt.unplaced, Stmt.unplaced, hinit, hcondition, hupdate,
        Stmt.unplaced_eq_of_labelTree hs.2 ht.2 hbody]
    | _ => simp at h
  | .switch e _ _ _, t, hs, ht, h => by
    cases t with
    | switch f =>
      rw [Stmt.nodes_switch, List.forall_mem_cons, List.forall_mem_append] at hs ht
      simp only [Stmt.labelTree_switch, LabelTree.node.injEq, true_and, List.cons.injEq] at h
      obtain ⟨hcases, hfallback⟩ := unplacedClauses_eq_of_forest hs.1.discrete_values hs.2.1
        ht.1.discrete_values ht.2.1 (endsClauses_fallbackForest _) (endsClauses_fallbackForest _)
        h.2
      have hsubject := Expr.unplaced_eq_of_labelTree (hs.1.discrete e List.mem_cons_self)
        (ht.1.discrete f List.mem_cons_self) h.1
      rw [Stmt.unplaced_switch, Stmt.unplaced_switch, hsubject, hcases,
        unplaced_eq_of_fallbackForest hs.2.2 ht.2.2 hfallback]
    | _ => simp at h
  | .returns .., t, hs, ht, h => by
    cases t with
    | returns =>
      rw [Stmt.nodes, List.forall_mem_singleton] at hs ht
      have hvalue := unplaced_eq_of_optionalForest (by simpa [Stmt.expressions] using hs.discrete)
        (by simpa [Stmt.expressions] using ht.discrete) (by simpa using h)
      rw [Stmt.unplaced, Stmt.unplaced, hvalue]
    | _ => simp at h
  | .breaks .., t, _, _, h => by
    cases t with
    | breaks => rw [Stmt.unplaced, Stmt.unplaced]
    | _ => simp at h
  | .continues .., t, _, _, h => by
    cases t with
    | continues => rw [Stmt.unplaced, Stmt.unplaced]
    | _ => simp at h
  | .expression e _, t, hs, ht, h => by
    cases t with
    | expression f =>
      rw [Stmt.nodes, List.forall_mem_singleton] at hs ht
      have he := Expr.unplaced_eq_of_labelTree (hs.discrete e List.mem_cons_self)
        (ht.discrete f List.mem_cons_self) (by simpa using h)
      rw [Stmt.unplaced, Stmt.unplaced, he]
    | _ => simp at h
termination_by structural s => s

theorem unplaced_eq_of_alternativeForest : ∀ {a b : Option Stmt},
    (∀ x ∈ (a.map Stmt.nodes).getD [], x.IsListable) →
    (∀ x ∈ (b.map Stmt.nodes).getD [], x.IsListable) →
    (a.map Stmt.labelTree).toList = (b.map Stmt.labelTree).toList →
    a.map Stmt.unplaced = b.map Stmt.unplaced
  | none, none, _, _, _ => rfl
  | none, some _, _, _, h => by simp at h
  | some _, none, _, _, h => by simp at h
  | some s, some t, hs, ht, h => by
    have htree : s.labelTree = t.labelTree := by simpa using h
    rw [Option.map_some, Option.map_some, Stmt.unplaced_eq_of_labelTree hs ht htree]
termination_by structural a => a

theorem unplaced_eq_of_fallbackForest : ∀ {a b : Option (List Stmt)},
    (∀ x ∈ (a.map statementNodes).getD [], x.IsListable) →
    (∀ x ∈ (b.map statementNodes).getD [], x.IsListable) →
    fallbackForest a = fallbackForest b → a.map unplacedStatements = b.map unplacedStatements
  | none, none, _, _, _ => rfl
  | none, some _, _, _, h => by simp [fallbackForest] at h
  | some _, none, _, _, h => by simp [fallbackForest] at h
  | some ss, some ts, hs, ht, h => by
    have hforest : statementForest ss = statementForest ts := by simpa [fallbackForest] using h
    rw [Option.map_some, Option.map_some, unplacedStatements_eq_of_forest hs ht hforest]
termination_by structural a => a

theorem unplacedStatements_eq_of_forest : ∀ {ss ts : List Stmt},
    (∀ x ∈ statementNodes ss, x.IsListable) → (∀ x ∈ statementNodes ts, x.IsListable) →
    statementForest ss = statementForest ts → unplacedStatements ss = unplacedStatements ts
  | [], [], _, _, _ => rfl
  | [], _ :: _, _, _, h => by simp [statementForest] at h
  | _ :: _, [], _, _, h => by simp [statementForest] at h
  | s :: ss, t :: ts, hs, ht, h => by
    rw [statementNodes, List.forall_mem_append] at hs ht
    simp only [statementForest, List.cons.injEq] at h
    rw [unplacedStatements, unplacedStatements, Stmt.unplaced_eq_of_labelTree hs.1 ht.1 h.1,
      unplacedStatements_eq_of_forest hs.2 ht.2 h.2]
termination_by structural ss => ss

theorem unplacedClauses_eq_of_forest : ∀ {cs ds : List Clause} {rest more : List LabelTree},
    (∀ c ∈ cs, c.value.IsDiscrete) → (∀ x ∈ clauseNodes cs, x.IsListable) →
    (∀ d ∈ ds, d.value.IsDiscrete) → (∀ x ∈ clauseNodes ds, x.IsListable) →
    EndsClauses rest → EndsClauses more → clauseForest cs ++ rest = clauseForest ds ++ more →
    unplacedClauses cs = unplacedClauses ds ∧ rest = more
  | [], [], _, _, _, _, _, _, _, _, h => ⟨rfl, h⟩
  | [], .case _ _ _ :: _, _, _, _, _, _, _, hrest, _, h => by
    simp only [clauseForest, List.nil_append, List.cons_append] at h
    rw [h] at hrest
    exact absurd rfl (hrest _ rfl _ _)
  | .case _ _ _ :: _, [], _, _, _, _, _, _, _, hmore, h => by
    simp only [clauseForest, List.nil_append, List.cons_append] at h
    rw [← h] at hmore
    exact absurd rfl (hmore _ rfl _ _)
  | .case e ss _ :: cs, .case f ts _ :: ds, rest, more, hvalues, hcs, hvalues', hds, hrest, hmore,
      h => by
    obtain ⟨he, hvalues⟩ := List.forall_mem_cons.mp hvalues
    obtain ⟨hf, hvalues'⟩ := List.forall_mem_cons.mp hvalues'
    rw [clauseNodes, List.forall_mem_append] at hcs hds
    simp only [clauseForest, List.cons_append, List.cons.injEq, LabelTree.node.injEq,
      true_and] at h
    obtain ⟨hothers, hmore⟩ := unplacedClauses_eq_of_forest hvalues hcs.2 hvalues' hds.2 hrest
      hmore h.2
    refine ⟨?_, hmore⟩
    rw [unplacedClauses, unplacedClauses, @Expr.unplaced_eq_of_labelTree e f he hf h.1.1,
      unplacedStatements_eq_of_forest hcs.1 hds.1 h.1.2, hothers]
termination_by structural cs => cs

end

end Statements

section Programs

theorem Parameter.unplaced_eq_of_labelTree : ∀ {ps qs : List Parameter},
    (∀ p ∈ ps, ' ' ∉ p.typeName.toList) → (∀ q ∈ qs, ' ' ∉ q.typeName.toList) →
    ps.map Parameter.labelTree = qs.map Parameter.labelTree →
    ps.map Parameter.unplaced = qs.map Parameter.unplaced
  | [], [], _, _, _ => rfl
  | p :: ps, q :: qs, hps, hqs, h => by
    obtain ⟨hp, hps⟩ := List.forall_mem_cons.mp hps
    obtain ⟨hq, hqs⟩ := List.forall_mem_cons.mp hqs
    simp only [List.map_cons, List.cons.injEq, Parameter.labelTree, LabelTree.node.injEq,
      Label.mk.injEq, true_and, and_true] at h
    obtain ⟨htype, hname⟩ := typedDetail_inj hp hq h.1
    rw [List.map_cons, List.map_cons, Parameter.unplaced_eq_of_labelTree hps hqs h.2,
      Parameter.unplaced, Parameter.unplaced, htype, hname]

/-- The labels of the declaration leave out its place alone: its statements are so, the types in the
head of a function have no blanks, and no variable is declared as a statement. -/
structure Declaration.IsListable (d : Declaration) : Prop where
  header : ∀ f, d = .function f → ' ' ∉ f.returnType.toList ∧
    ∀ p ∈ f.parameters, ' ' ∉ p.typeName.toList
  statements : ∀ s ∈ d.nodes, s.IsListable
  global : d.isLocal = false

theorem Function.unplaced_eq_of_labelTree {f g : Function}
    (hf : (Declaration.function f).IsListable) (hg : (Declaration.function g).IsListable)
    (h : f.labelTree = g.labelTree) : f.unplaced = g.unplaced := by
  obtain ⟨htypes, hparameters⟩ := hf.header f rfl
  obtain ⟨htypes', hparameters'⟩ := hg.header g rfl
  simp only [Function.labelTree, LabelTree.node.injEq, Label.mk.injEq, true_and] at h
  obtain ⟨htype, hname⟩ := typedDetail_inj htypes htypes' h.1
  obtain ⟨hforest, hbody⟩ := List.append_inj' h.2 rfl
  simp only [List.cons.injEq, LabelTree.node.injEq, true_and, and_true] at hbody
  rw [Function.unplaced, Function.unplaced, htype, hname,
    Parameter.unplaced_eq_of_labelTree hparameters hparameters' hforest,
    unplacedStatements_eq_of_forest hf.statements hg.statements hbody]

theorem Declaration.unplaced_eq_of_labelTree {d d' : Declaration} (hd : d.IsListable)
    (hd' : d'.IsListable) (h : d.labelTree = d'.labelTree) : d.unplaced = d'.unplaced := by
  have hfunction : ∀ (f : Function) (s : Stmt), f.labelTree ≠ s.labelTree := fun f s => by
    cases s <;> simp [Function.labelTree, Stmt.labelTree_ifElse, Stmt.labelTree_switch,
      Stmt.labelTree, Variable.labelTree]
  have hlocal : ∀ (v : Variable) (s : Stmt), (Declaration.statement s).isLocal = false →
      v.labelTree ≠ s.labelTree := fun v s hs => by
    cases s with
    | declare w => cases hs
    | _ => simp [Stmt.labelTree_ifElse, Stmt.labelTree_switch, Stmt.labelTree, Variable.labelTree]
  cases d with
  | function f =>
    cases d' with
    | function g =>
      rw [Declaration.unplaced, Declaration.unplaced, Function.unplaced_eq_of_labelTree hd hd' h]
    | global w => exact absurd h (hfunction f (.declare w))
    | statement t => exact absurd h (hfunction f t)
  | global v =>
    cases d' with
    | function g => exact absurd h.symm (hfunction g (.declare v))
    | global w =>
      rw [Declaration.unplaced, Declaration.unplaced, Variable.unplaced_eq_of_labelTree
        (hd.statements _ List.mem_cons_self) (hd'.statements _ List.mem_cons_self) h]
    | statement t => exact absurd h (hlocal v t hd'.global)
  | statement s =>
    cases d' with
    | function g => exact absurd h.symm (hfunction g s)
    | global w => exact absurd h.symm (hlocal w s hd.global)
    | statement t =>
      rw [Declaration.unplaced, Declaration.unplaced,
        Stmt.unplaced_eq_of_labelTree hd.statements hd'.statements h]

theorem Program.unplaced_eq_of_labelTree : ∀ {p q : Program}, (∀ d ∈ p, d.IsListable) →
    (∀ d ∈ q, d.IsListable) →
    p.map Declaration.labelTree = q.map Declaration.labelTree → p.unplaced = q.unplaced
  | [], [], _, _, _ => rfl
  | d :: p, d' :: q, hp, hq, h => by
    obtain ⟨hd, hp⟩ := List.forall_mem_cons.mp hp
    obtain ⟨hd', hq⟩ := List.forall_mem_cons.mp hq
    obtain ⟨hfirst, hothers⟩ := List.cons.inj h
    exact congrArg₂ List.cons (Declaration.unplaced_eq_of_labelTree hd hd' hfirst)
      (Program.unplaced_eq_of_labelTree hp hq hothers)

/-- The lines of a listing tell the program. -/
theorem Program.unplaced_eq_of_listing {p q : Program} (hp : ∀ d ∈ p, d.IsListable)
    (hq : ∀ d ∈ q, d.IsListable) (h : p.listing = q.listing) : p.unplaced = q.unplaced := by
  rw [Program.listing_eq, Program.listing_eq] at h
  have hinjective : Function.Injective fun row : Nat × Label => row.2.line row.1 := by
    rintro ⟨depth, label⟩ ⟨depth', label'⟩ hline
    obtain ⟨rfl, rfl⟩ := Label.line_injective hline
    rfl
  have hrows := List.map_injective_iff.mpr hinjective (List.cons.inj h).2
  have hforest := @LabelTree.forestRows_append_inj (p.map Declaration.labelTree)
    (q.map Declaration.labelTree) 1 [] [] nofun nofun (by simpa using hrows)
  exact Program.unplaced_eq_of_labelTree hp hq hforest.1

/-- The text of a listing tells the program. -/
theorem Program.unplaced_eq_of_listingText {p q : Program} (hp : ∀ d ∈ p, d.IsListable)
    (hq : ∀ d ∈ q, d.IsListable) (hp' : ∀ d ∈ p, d.HasUnbrokenTexts)
    (hq' : ∀ d ∈ q, d.HasUnbrokenTexts) (h : p.listingText = q.listingText) :
    p.unplaced = q.unplaced := by
  have hlines := Program.lines_listingText hp'
  rw [h, Program.lines_listingText hq'] at hlines
  have hinjective : Function.Injective String.toList := fun _ _ => String.toList_inj.mp
  exact Program.unplaced_eq_of_listing hp hq (List.map_injective_iff.mpr hinjective hlines).symm

end Programs

end KanaScript
