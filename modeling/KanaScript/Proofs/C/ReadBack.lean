import KanaScript.Proofs.C.ExpressionTree

/-! C reads the text of an expression as the expression it was made from, exactly if no operator is
applied to an operand that would have to stand in parentheses.  Only binary expressions get them. -/

namespace KanaScript

open C
open Grammar (Tier)

def Expr.isAssignment : Expr → Bool
  | .assign _ _ _ => true
  | _ => false

def Expr.isPrefixed : Expr → Bool
  | .prefixed _ _ _ => true
  | _ => false

/-- Whether the expression is a negation or a decrement in front of its operand. -/
def Expr.isDashed : Expr → Bool
  | .prefixed op _ _ => op == "-" || op == "--"
  | _ => false

/-- Whether the expression, if it is a number, has no sign. -/
def Expr.isUnsigned : Expr → Bool
  | .number value _ => value.text.toList.head? != some '-'
  | _ => true

/-- Whether no operand of the outermost operator needs parentheses that it does not get: none is an
assignment, what a call, an index or an operator follows has no operator in front, and two minus
signs do not meet. -/
def Expr.keepsOperands : Expr → Bool
  | .binary _ left right _ => !left.isAssignment && !right.isAssignment
  | .prefixed op operand _ => !operand.isAssignment && !(op == "-" && operand.isDashed)
  | .suffixed _ operand _ => !operand.isAssignment && !operand.isPrefixed
  | .assign target _ _ => !target.isAssignment
  | .call callee _ _ => !callee.isAssignment && !callee.isPrefixed
  | .index array _ _ => !array.isAssignment && !array.isPrefixed
  | _ => true

/-- Nothing within the expression needs parentheses that it does not get. -/
def Expr.KeepsGroups (e : Expr) : Prop :=
  ∀ x ∈ e.nodes, x.isUnsigned = true ∧ x.keepsOperands = true

theorem has_binary (levels : List (List String)) (e : Expr) :
    Tier.has (.binary levels) e.tree = !e.isAssignment := by
  cases e <;> simp [Expr.tree, Expr.isAssignment, Tier.has]

theorem has_prefixed (e : Expr) : Tier.has .prefixed e.tree = !e.isAssignment := by
  cases e <;> simp [Expr.tree, Expr.isAssignment, Tier.has]

theorem has_suffixed (e : Expr) :
    Tier.has .suffixed e.tree = (!e.isAssignment && !e.isPrefixed) := by
  cases e <;> simp [Expr.tree, Expr.isAssignment, Expr.isPrefixed, Tier.has]

section Kept

/-- A minus sign stays a token of its own in front of what is neither negated nor decremented. -/
theorem glueMinus_of_derives {ts : List C.Token} {operand : Expr}
    (h : C.Derives .prefixed ts operand.tree) (hd : operand.isDashed = false) :
    glueMinus ts = .mark "-" :: ts := by
  obtain ⟨t, more, rfl, hminus, htwo⟩ : ∃ t more, ts = t :: more ∧ t ≠ .mark "-" ∧
      t ≠ .mark "--" := by
    generalize htree : operand.tree = tree at h
    cases h with
    | @before ts op tree sign whole =>
      refine ⟨_, _, rfl, ?_⟩
      cases operand <;> simp_all [Expr.tree, Expr.isDashed]
    | unprefixed whole =>
      obtain ⟨t, more, rfl, ht⟩ := whole.head_of_suffixed (.inl rfl)
      exact ⟨t, more, rfl, ht "-" (by decide), ht "--" (by decide)⟩
  simp [glueMinus, hminus, htwo]

theorem derives_number {value : Number} {position : Position}
    (h : (Expr.number value position).isUnsigned = true) :
    C.Derives .suffixed (numberTokens value.text.toList) (.leaf value.text) := by
  have hn : numberTokens value.text.toList = [unsignedToken value.text.toList] := by
    unfold numberTokens
    split
    · rename_i cs hcs
      simp [Expr.isUnsigned, hcs] at h
    · rfl
  rw [hn]
  unfold unsignedToken
  split
  · rw [String.ofList_toList]
    exact .unsuffixed .number
  · rw [String.ofList_toList]
    exact .unsuffixed .word

theorem derives_format {print : Bool} {e : Expr} (h : C.Derives .assignment e.tokens e.tree) :
    C.Derives .assignment
      (((formatCode? print e).map fun code => [C.Token.literal code]).getD e.tokens)
      (((formatCode? print e).map C.Tree.leaf).getD e.tree) := by
  cases formatCode? print e with
  | none => exact h
  | some code => exact (C.Derives.unsuffixed .literal).assignment_of_suffixed

mutual

/-- What keeps its groups is read as what it is, at every tier that has it. -/
theorem Expr.derives : ∀ {e : Expr}, e.HasKnownOperators → e.KeepsGroups → ∀ tier : Tier,
    tier ≠ .primary → Tier.has tier e.tree = true → C.Derives tier e.tokens e.tree
  | .binary op left right _, known, kept, tier, primary, _ => by
    obtain ⟨hop, kl, kr⟩ := Expr.hasKnownOperators_binary.mp known
    simp only [Expr.KeepsGroups, Expr.nodes, List.forall_mem_cons, List.forall_mem_append] at kept
    obtain ⟨⟨-, hk⟩, gl, gr⟩ := kept
    simp only [Expr.keepsOperands, Bool.and_eq_true] at hk
    have hl := Expr.derives kl gl .prefixed nofun (by rw [has_prefixed]; exact hk.1)
    have hr := Expr.derives kr gr .prefixed nofun (by rw [has_prefixed]; exact hk.2)
    have h := (derives_operate hop hl hr).unassigned.group.unsuffixed
    rw [Expr.tokens, Expr.tree]
    exact C.Derives.at_tier (by simpa using h) primary
  | .prefixed op operand _, known, kept, tier, primary, has => by
    obtain ⟨hop, ko⟩ := Expr.hasKnownOperators_prefixed.mp known
    simp only [Expr.KeepsGroups, Expr.nodes, List.forall_mem_cons] at kept
    obtain ⟨⟨-, hk⟩, go⟩ := kept
    simp only [Expr.keepsOperands, Bool.and_eq_true] at hk
    have ho := Expr.derives ko go .prefixed nofun (by rw [has_prefixed]; exact hk.1)
    have htokens : (Expr.prefixed op operand ‹_›).tokens = .mark op :: operand.tokens := by
      rw [Expr.tokens]
      split
      · subst op
        exact glueMinus_of_derives ho (by simpa using hk.2)
      · rfl
    have h := ho.before hop
    rw [htokens]
    rw [Expr.tree] at has ⊢
    cases tier with
    | assignment => exact h.assignment_of_prefixed
    | binary levels => exact h.binary_of_prefixed levels
    | prefixed => exact h
    | _ => cases has
  | .suffixed op operand _, known, kept, tier, primary, _ => by
    obtain ⟨hop, ko⟩ := Expr.hasKnownOperators_suffixed.mp known
    simp only [Expr.KeepsGroups, Expr.nodes, List.forall_mem_cons] at kept
    obtain ⟨⟨-, hk⟩, go⟩ := kept
    have h := Expr.derives ko go .suffixed nofun (by rw [has_suffixed]; exact hk)
    rw [Expr.tokens, Expr.tree]
    exact C.Derives.at_tier (h.after hop) primary
  | .assign target value _, known, kept, tier, primary, has => by
    obtain ⟨kt, kv⟩ := Expr.hasKnownOperators_assign.mp known
    simp only [Expr.KeepsGroups, Expr.nodes, List.forall_mem_cons, List.forall_mem_append] at kept
    obtain ⟨⟨-, hk⟩, gt, gv⟩ := kept
    have ht := Expr.derives kt gt .prefixed nofun (by rw [has_prefixed]; exact hk)
    have hv := Expr.derives kv gv .assignment nofun rfl
    rw [Expr.tokens, Expr.tree]
    rw [Expr.tree] at has
    cases tier with
    | assignment => exact ht.assign hv
    | _ => cases has
  | .call callee arguments _, known, kept, tier, primary, _ => by
    obtain ⟨kc, ka⟩ := Expr.hasKnownOperators_call.mp known
    simp only [Expr.KeepsGroups, Expr.nodes, List.forall_mem_cons, List.forall_mem_append,
      forall_argumentNodes] at kept
    obtain ⟨⟨-, hk⟩, gc, ga⟩ := kept
    have hc := Expr.derives kc gc .suffixed nofun (by rw [has_suffixed]; exact hk)
    rw [Expr.tokens, Expr.tree]
    exact C.Derives.at_tier (hc.call (derives_arguments ka ga)) primary
  | .index array place _, known, kept, tier, primary, _ => by
    obtain ⟨ka, kp⟩ := Expr.hasKnownOperators_index.mp known
    simp only [Expr.KeepsGroups, Expr.nodes, List.forall_mem_cons, List.forall_mem_append] at kept
    obtain ⟨⟨-, hk⟩, ga, gp⟩ := kept
    have ha := Expr.derives ka ga .suffixed nofun (by rw [has_suffixed]; exact hk)
    have hp := Expr.derives kp gp .assignment nofun rfl
    rw [Expr.tokens, Expr.tree]
    exact C.Derives.at_tier (ha.index hp) primary
  | .name text _, _, _, tier, primary, _ => by
    rw [Expr.tokens, Expr.tree]
    exact C.Derives.at_tier (C.Derives.unsuffixed .word) primary
  | .number value _, _, kept, tier, primary, _ => by
    obtain ⟨hu, -⟩ := kept _ (by rw [Expr.nodes]; exact List.mem_singleton_self _)
    rw [Expr.tokens, Expr.tree]
    exact C.Derives.at_tier (derives_number hu) primary
  | .string text _, _, _, tier, primary, _ => by
    rw [Expr.tokens, Expr.tree]
    exact C.Derives.at_tier (C.Derives.unsuffixed .literal) primary
  | .char text _, _, _, tier, primary, _ => by
    rw [Expr.tokens, Expr.tree]
    exact C.Derives.at_tier (C.Derives.unsuffixed .literal) primary

theorem derives_arguments : ∀ {print : Bool} {es : List Expr}, (∀ e ∈ es, e.HasKnownOperators) →
    (∀ e ∈ es, e.KeepsGroups) → DerivesList (argumentTokens print es) (argumentTrees print es)
  | _, [], _, _ => by
    rw [argumentTokens, argumentTrees]
    exact .none
  | _, [e], known, kept => by
    have he := Expr.derives (known e List.mem_cons_self) (kept e List.mem_cons_self) .assignment
      nofun rfl
    rw [argumentTokens, argumentTrees, argumentTrees]
    exact .last (derives_format he)
  | _, e :: e' :: es, known, kept => by
    rw [List.forall_mem_cons] at known kept
    have he := Expr.derives known.1 kept.1 .assignment nofun rfl
    have hes : DerivesList (argumentTokens false (e' :: es)) (argumentTrees false (e' :: es)) :=
      derives_arguments known.2 kept.2
    rw [argumentTokens, argumentTrees]
    rw [argumentTrees] at hes ⊢
    exact .more (derives_format he) hes

end

end Kept

section Lost

/-! What is read as it is keeps its groups.  A derivation of the tokens as the tree of the
expression can only end with the rule for the outermost operator, and it cuts the tokens where the
text was put together: parentheses match, and the weight before the operator is that of the first
operand. -/

theorem glueMinus_eq_cons {ts a : List C.Token} (h : glueMinus ts = .mark "-" :: a) :
    ts = a ∧ ∀ t ∈ ts.head?, C.Token.isDash t = false := by
  cases ts with
  | nil => simpa [glueMinus] using h
  | cons t ts =>
    unfold glueMinus at h
    split at h
    · exact absurd (List.cons.inj h).1 (by decide)
    · split at h
      · exact absurd (List.cons.inj h).1 (by decide)
      · refine ⟨(List.cons.inj h).2, fun u hu => ?_⟩
        obtain rfl : t = u := by simpa using hu
        simp_all [C.Token.isDash]

theorem isDashed_of_head {e : Expr} (h : ∀ t ∈ e.tokens.head?, C.Token.isDash t = false) :
    e.isDashed = false := by
  rw [Bool.eq_false_iff]
  intro hd
  have hdash : ∃ t ∈ e.tokens.head?, C.Token.isDash t = true := by
    unfold Expr.isDashed at hd
    split at hd
    · rename_i op operand position
      rw [Expr.tokens]
      split
      · obtain ⟨t, more, ht, hdash⟩ := head_glueMinus operand.tokens
        exact ⟨t, by rw [ht]; rfl, hdash⟩
      · exact ⟨.mark op, rfl, by simpa [C.Token.isDash] using hd⟩
    · cases hd
  obtain ⟨t, ht, hdash⟩ := hdash
  rw [h t ht] at hdash
  cases hdash

/-- A number with a sign would have to be one token. -/
theorem isUnsigned_of_derives {value : Number} {position : Position} {tier : Tier}
    (proper : Proper tier)
    (h : C.Derives tier (numberTokens value.text.toList) (.leaf value.text)) :
    (Expr.number value position).isUnsigned = true := by
  simp only [Expr.isUnsigned, bne_iff_ne]
  intro hminus
  obtain ⟨cs, hcs⟩ : ∃ cs, value.text.toList = '-' :: cs := by
    cases hcs : value.text.toList with
    | nil => simp [hcs] at hminus
    | cons c cs => exact ⟨cs, by simpa [hcs] using hminus⟩
  rw [hcs, numberTokens] at h
  rcases h.direct_or_grouped proper with ⟨-, token, ht, -, -⟩ | ⟨inner, hi, -⟩
  · cases ht
  · exact absurd (List.cons.inj hi).1 (by decide)

theorem keepsGroups_format {print : Bool} {e : Expr}
    (h : C.Derives .assignment e.tokens e.tree → e.KeepsGroups)
    (hd : C.Derives .assignment
      (((formatCode? print e).map fun code => [C.Token.literal code]).getD e.tokens)
      (((formatCode? print e).map C.Tree.leaf).getD e.tree)) : e.KeepsGroups := by
  unfold formatCode? at hd
  split at hd
  · simp [Expr.KeepsGroups, Expr.nodes, Expr.isUnsigned, Expr.keepsOperands]
  · exact h hd

theorem Expr.keepsGroups_iff_of_nodes {e : Expr} {below : List Expr} (h : e.nodes = e :: below) :
    e.KeepsGroups ↔ (e.isUnsigned = true ∧ e.keepsOperands = true) ∧
      ∀ x ∈ below, x.isUnsigned = true ∧ x.keepsOperands = true := by
  rw [Expr.KeepsGroups, h, List.forall_mem_cons]

/-- Wherever C reads the tree of the expression from its tokens, the tier has that tree, and the
expression keeps its groups. -/
def Expr.KeepsWhereRead (e : Expr) : Prop :=
  ∀ tier, C.Derives tier e.tokens e.tree → Proper tier →
    Tier.has tier e.tree = true ∧ e.KeepsGroups

namespace Expr.KeepsWhereRead

variable {op : String} {left right operand : Expr} {position : Position}

theorem binary (known : (Expr.binary op left right position).HasKnownOperators)
    (hleft : left.KeepsWhereRead) (hright : right.KeepsWhereRead) :
    (Expr.binary op left right position).KeepsWhereRead := by
  intro tier h proper
  obtain ⟨hop, kl, kr⟩ := Expr.hasKnownOperators_binary.mp known
  have hpos : 0 < op.length := by
    have pos : ∀ ops ∈ levels, ∀ op ∈ ops, 0 < op.length := by decide
    obtain ⟨ops, hops, hmem⟩ := hop
    exact pos ops hops op hmem
  rw [Expr.tokens, Expr.tree] at h
  obtain ⟨l, l', hl, hreadl, hr, hreadr⟩ := h.of_binary proper (isSign_of_level hop)
    hpos (Expr.balanced kl) (Expr.tokens_ne_nil kl) (Expr.balanced kr) (Expr.weight_tokens kl)
  obtain ⟨hasl, gl⟩ := hleft _ hreadl hl
  obtain ⟨hasr, gr⟩ := hright _ hreadr hr
  rw [has_binary] at hasl hasr
  refine ⟨by rw [Expr.tree]; cases tier <;> rfl, (keepsGroups_iff_of_nodes rfl).mpr ⟨⟨rfl, ?_⟩, ?_⟩⟩
  · simp [Expr.keepsOperands, hasl, hasr]
  · exact List.forall_mem_append.mpr ⟨gl, gr⟩

/-- An operator in front is not read as a parenthesis. -/
theorem head_prefixed (hop : op ∈ Grammar.prefixOperators) :
    (Expr.prefixed op operand position).tokens.head? ≠ some (.mark "(") := by
  rw [Expr.tokens]
  split
  · obtain ⟨t, more, ht, hdash⟩ := head_glueMinus operand.tokens
    rw [ht]
    rintro ht
    obtain rfl := Option.some.inj ht
    exact absurd hdash (by decide)
  · rintro ht
    obtain rfl : op = "(" := by simpa using ht
    exact absurd hop (by decide)

/-- A minus sign that is read as one has not met another. -/
theorem tokens_prefixed {ts : List C.Token}
    (h : (Expr.prefixed op operand position).tokens = .mark op :: ts) :
    operand.tokens = ts ∧ (op = "-" → operand.isDashed = false) := by
  rw [Expr.tokens] at h
  split at h
  · subst op
    obtain ⟨htokens, hdash⟩ := glueMinus_eq_cons h
    exact ⟨htokens, fun _ => isDashed_of_head hdash⟩
  · exact ⟨(List.cons.inj h).2, fun hminus => absurd hminus ‹_›⟩

theorem prefixed (known : (Expr.prefixed op operand position).HasKnownOperators)
    (hoperand : operand.KeepsWhereRead) :
    (Expr.prefixed op operand position).KeepsWhereRead := by
  intro tier h proper
  obtain ⟨hop, ko⟩ := Expr.hasKnownOperators_prefixed.mp known
  rw [Expr.tree] at h ⊢
  obtain ⟨has, a, ha, ho⟩ := h.of_prefixed proper (head_prefixed hop)
  obtain ⟨rfl, hdash⟩ := tokens_prefixed ha
  obtain ⟨haso, go⟩ := hoperand _ ho trivial
  rw [has_prefixed] at haso
  refine ⟨has, (keepsGroups_iff_of_nodes rfl).mpr ⟨⟨rfl, ?_⟩, go⟩⟩
  simp only [Expr.keepsOperands, haso, Bool.true_and, Bool.not_eq_true', Bool.and_eq_false_imp,
    beq_iff_eq]
  exact hdash

theorem suffixed (known : (Expr.suffixed op operand position).HasKnownOperators)
    (hoperand : operand.KeepsWhereRead) :
    (Expr.suffixed op operand position).KeepsWhereRead := by
  intro tier h proper
  obtain ⟨hop, ko⟩ := Expr.hasKnownOperators_suffixed.mp known
  rw [Expr.tokens, Expr.tree] at h
  obtain ⟨has, go⟩ := hoperand _ (h.of_suffixed proper (isSign_of_mem_suffixes hop)) trivial
  rw [has_suffixed] at has
  exact ⟨by rw [Expr.tree]; cases tier <;> rfl, (keepsGroups_iff_of_nodes rfl).mpr ⟨⟨rfl, has⟩, go⟩⟩

theorem assign (known : (Expr.assign left right position).HasKnownOperators)
    (hleft : left.KeepsWhereRead) (hright : right.KeepsWhereRead) :
    (Expr.assign left right position).KeepsWhereRead := by
  intro tier h proper
  obtain ⟨kt, kv⟩ := Expr.hasKnownOperators_assign.mp known
  rw [Expr.tokens, Expr.tree] at h
  obtain ⟨has, ht, hv⟩ := h.of_assign proper (Expr.balanced kt) (Expr.tokens_ne_nil kt)
    (Expr.weight_tokens kt)
  obtain ⟨hast, gt⟩ := hleft _ ht trivial
  obtain ⟨-, gv⟩ := hright _ hv trivial
  rw [has_prefixed] at hast
  exact ⟨by rw [Expr.tree]; exact has,
    (keepsGroups_iff_of_nodes rfl).mpr ⟨⟨rfl, hast⟩, List.forall_mem_append.mpr ⟨gt, gv⟩⟩⟩

theorem call {arguments : List Expr}
    (known : (Expr.call operand arguments position).HasKnownOperators)
    (hoperand : operand.KeepsWhereRead)
    (harguments : ∀ {print}, DerivesList (argumentTokens print arguments)
      (argumentTrees print arguments) → ∀ e ∈ arguments, e.KeepsGroups) :
    (Expr.call operand arguments position).KeepsWhereRead := by
  intro tier h proper
  obtain ⟨kc, ka⟩ := Expr.hasKnownOperators_call.mp known
  rw [Expr.tokens, Expr.tree] at h
  obtain ⟨hc, ha⟩ := h.of_call proper (Expr.balanced kc) (Expr.tokens_ne_nil kc)
    (balanced_arguments ka)
  obtain ⟨has, gc⟩ := hoperand _ hc trivial
  rw [has_suffixed] at has
  refine ⟨by rw [Expr.tree]; cases tier <;> rfl, (keepsGroups_iff_of_nodes rfl).mpr ⟨⟨rfl, has⟩, ?_⟩⟩
  exact List.forall_mem_append.mpr ⟨gc, forall_argumentNodes.mpr (harguments ha)⟩

theorem index (known : (Expr.index left right position).HasKnownOperators)
    (hleft : left.KeepsWhereRead) (hright : right.KeepsWhereRead) :
    (Expr.index left right position).KeepsWhereRead := by
  intro tier h proper
  obtain ⟨ka, kp⟩ := Expr.hasKnownOperators_index.mp known
  rw [Expr.tokens, Expr.tree] at h
  obtain ⟨ha, hp⟩ := h.of_index proper (Expr.balanced ka) (Expr.tokens_ne_nil ka)
    (Expr.weight_tokens ka)
  obtain ⟨has, ga⟩ := hleft _ ha trivial
  obtain ⟨-, gp⟩ := hright _ hp trivial
  rw [has_suffixed] at has
  exact ⟨by rw [Expr.tree]; cases tier <;> rfl,
    (keepsGroups_iff_of_nodes rfl).mpr ⟨⟨rfl, has⟩, List.forall_mem_append.mpr ⟨ga, gp⟩⟩⟩

theorem number {value : Number} : (Expr.number value position).KeepsWhereRead := by
  intro tier h proper
  rw [Expr.tokens, Expr.tree] at h
  exact ⟨by rw [Expr.tree]; cases tier <;> rfl, (keepsGroups_iff_of_nodes rfl).mpr
    ⟨⟨isUnsigned_of_derives proper h, rfl⟩, List.forall_mem_nil _⟩⟩

/-- An expression without parts, if it is no number, always keeps its groups. -/
theorem leaf {e : Expr} {text : String} (tree : e.tree = .leaf text) (nodes : e.nodes = [e])
    (unsigned : e.isUnsigned = true) (operands : e.keepsOperands = true) : e.KeepsWhereRead := by
  intro tier _ _
  exact ⟨by rw [tree]; cases tier <;> rfl, (keepsGroups_iff_of_nodes nodes).mpr
    ⟨⟨unsigned, operands⟩, List.forall_mem_nil _⟩⟩

end Expr.KeepsWhereRead

mutual

theorem Expr.keepsGroups : ∀ {e : Expr}, e.HasKnownOperators → e.KeepsWhereRead
  | .binary _ _ _ _, known => by
    obtain ⟨-, kl, kr⟩ := Expr.hasKnownOperators_binary.mp known
    exact .binary known (Expr.keepsGroups kl) (Expr.keepsGroups kr)
  | .prefixed _ _ _, known =>
    .prefixed known (Expr.keepsGroups (Expr.hasKnownOperators_prefixed.mp known).2)
  | .suffixed _ _ _, known =>
    .suffixed known (Expr.keepsGroups (Expr.hasKnownOperators_suffixed.mp known).2)
  | .assign _ _ _, known => by
    obtain ⟨kt, kv⟩ := Expr.hasKnownOperators_assign.mp known
    exact .assign known (Expr.keepsGroups kt) (Expr.keepsGroups kv)
  | .call _ _ _, known => by
    obtain ⟨kc, ka⟩ := Expr.hasKnownOperators_call.mp known
    exact .call known (Expr.keepsGroups kc) (keepsGroups_arguments ka)
  | .index _ _ _, known => by
    obtain ⟨ka, kp⟩ := Expr.hasKnownOperators_index.mp known
    exact .index known (Expr.keepsGroups ka) (Expr.keepsGroups kp)
  | .name _ _, _ => .leaf rfl rfl rfl rfl
  | .number _ _, _ => .number
  | .string _ _, _ => .leaf rfl rfl rfl rfl
  | .char _ _, _ => .leaf rfl rfl rfl rfl

theorem keepsGroups_arguments : ∀ {print : Bool} {es : List Expr},
    (∀ e ∈ es, e.HasKnownOperators) →
    DerivesList (argumentTokens print es) (argumentTrees print es) → ∀ e ∈ es, e.KeepsGroups
  | _, [], _, _ => List.forall_mem_nil _
  | _, [e], known, h => by
    have he := known e List.mem_cons_self
    rw [argumentTokens, argumentTrees, argumentTrees] at h
    rw [List.forall_mem_singleton]
    exact keepsGroups_format (fun h => (Expr.keepsGroups he _ h trivial).2) h.of_singleton
  | _, e :: e' :: es, known, h => by
    rw [List.forall_mem_cons] at known ⊢
    rw [argumentTokens, argumentTrees] at h
    have htrees : ∃ tree' trees, argumentTrees false (e' :: es) = tree' :: trees := by
      rw [argumentTrees]
      exact ⟨_, _, rfl⟩
    obtain ⟨tree', trees, htrees⟩ := htrees
    rw [htrees] at h
    obtain ⟨hfirst, hothers⟩ := h.of_cons (weight_format (Expr.weight_tokens known.1))
    rw [← htrees] at hothers
    exact ⟨keepsGroups_format (fun h => (Expr.keepsGroups known.1 _ h trivial).2) hfirst,
      keepsGroups_arguments known.2 hothers⟩

end

end Lost

theorem Expr.tokens?_code {e : Expr} (h : e.HasKnownOperators) :
    tokens? true e.code.toList = some e.tokens := by
  have spelled := Expr.spelled h
  have hcuts : Cuts e.code.toList e.tokens [] := spelled.cuts (by simp [Ends])
  have hnil : tokens? false [] = some [] := by rw [tokens?]
  rw [spelled.opens.leads.tokens?_eq, ← List.append_nil e.code.toList, hcuts, hnil]
  simp

/-- C reads an emitted expression as what it was made from and as nothing else: if its operators are
those of the grammar, no number has a sign and no operand needs parentheses that it does not get. -/
theorem Expr.reads_code_iff (e : Expr) (operators : ∀ x ∈ e.nodes, x.hasKnownOperator = true)
    (unsigned : ∀ x ∈ e.nodes, x.isUnsigned = true)
    (grouped : ∀ x ∈ e.nodes, x.keepsOperands = true) (tree : C.Tree) :
    C.Reads e.code tree ↔ tree = e.tree := by
  have kept : e.KeepsGroups := fun x hx => ⟨unsigned x hx, grouped x hx⟩
  exact reads_iff (Expr.tokens?_code operators) (Expr.derives operators kept .assignment nofun rfl)

theorem reads_code_decremented_call :
    C.Reads "a[i++] = (-x - --printf(\"\\\"--\\n\", 1))"
      (.assign (.index (.leaf "a") (.suffixed "++" (.leaf "i")))
        (.binary "-" (.prefixed "-" (.leaf "x"))
          (.prefixed "--" (.call (.leaf "printf") [.leaf "\"\\\"--\\n\"", .leaf "1"])))) :=
  (Expr.reads_code_iff
    (.assign (.index (.name "a" .start) (.suffixed "++" (.name "i" .start) .start) .start)
      (.binary "-" (.prefixed "-" (.name "x" .start) .start)
        (.prefixed "--" (.call (.name "printf" .start)
          [.string "\"--" .start, .number (.int 1) .start] .start) .start) .start) .start)
    (by decide) (by decide) (by decide) _).mpr rfl

/-- A parsed expression is emitted as a text that C reads as that expression and as no other,
exactly if no number in it has a sign and no operand in it needs parentheses that it does not get.
-/
theorem Expr.reads_parsed_iff_keepsOperands {ts rest : List Token} {e : Expr}
    (parsed : (Grammar.expression ts).Yields e rest) :
    (∀ tree, C.Reads e.code tree ↔ tree = e.tree) ↔
      ∀ x ∈ e.nodes, x.isUnsigned = true ∧ x.keepsOperands = true := by
  obtain ⟨used, -, derived, -⟩ := Grammar.yields_expression_iff.mp parsed
  have known : e.HasKnownOperators := derived.hasKnownOperators trivial
  have hts := Expr.tokens?_code known
  constructor
  · intro reads
    obtain ⟨us, hus, hd⟩ := (reads e.tree).mpr rfl
    obtain rfl : e.tokens = us := by simpa [hts] using hus
    exact (Expr.keepsGroups known _ hd trivial).2
  · intro kept tree
    exact reads_iff hts (Expr.derives known kept .assignment nofun rfl)

/-- The assignment in `(a = b) + c` loses its parentheses. -/
theorem not_reads_assigned_operand :
    (Grammar.expression [⟨.openParen, .none, .start⟩, ⟨.identifier, .text "a", .start⟩,
      ⟨.operator, .text "=", .start⟩, ⟨.identifier, .text "b", .start⟩,
      ⟨.closeParen, .none, .start⟩, ⟨.operator, .text "+", .start⟩,
      ⟨.identifier, .text "c", .start⟩]).Yields
      (.binary "+" (.assign (.name "a" .start) (.name "b" .start) .start) (.name "c" .start) .start)
      [] ∧
    ¬∀ tree, C.Reads "(a = b + c)" tree ↔
      tree = .binary "+" (.assign (.leaf "a") (.leaf "b")) (.leaf "c") := by
  have name : ∀ text, Grammar.Derives .prefixed [⟨.identifier, .text text, .start⟩]
      (.name text .start) := fun text => .unprefixed (.unsuffixed (.name (.inl rfl)))
  have assigned := ((name "a").binary_of_prefixed _).assign (t := ⟨.operator, .text "=", .start⟩)
    (by decide) (((name "b").binary_of_prefixed _).unassigned)
  have group := (Grammar.Derives.group (t := ⟨.openParen, .none, .start⟩)
    (u := ⟨.closeParen, .none, .start⟩) rfl assigned rfl).unsuffixed.unprefixed
  have sum : Grammar.Derives (.binary [["+", "-"], ["*", "/", "%"]]) _ _ :=
    (group.binary_of_prefixed _).operate (t := ⟨.operator, .text "+", .start⟩) (by decide)
      ((name "c").binary_of_prefixed _)
  have parsed := (@Grammar.yields_expression_iff _ [] _).mpr ⟨_, (List.append_nil _).symm,
    sum.tighter.tighter.tighter.tighter.unassigned, by simp [Grammar.Stops]⟩
  refine ⟨parsed, fun reads => ?_⟩
  have kept := (Expr.reads_parsed_iff_keepsOperands parsed).mp reads
  exact absurd (kept _ (by rw [Expr.nodes]; exact List.mem_cons_self)).2 (by decide)

end KanaScript
