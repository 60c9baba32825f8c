import KanaScript.Proofs.C.Reader
import Mathlib.Algebra.Ring.Nat

/-! What the tokens of a derivation tell of its tree: the rule that was used last, unless it was a
group; that the parentheses match; and how much text there is besides the parentheses. -/

namespace KanaScript.C

open Grammar (Tier)

section Looser

/-! A tighter tier is part of every looser one. -/

variable {ts : List Token} {tree : Tree}

theorem Derives.binary_of_prefixed (h : Derives .prefixed ts tree) :
    ∀ levels : List (List String), Derives (.binary levels) ts tree
  | [] => h.operand
  | _ :: levels => (h.binary_of_prefixed levels).tighter

theorem Derives.assignment_of_prefixed (h : Derives .prefixed ts tree) :
    Derives .assignment ts tree :=
  (h.binary_of_prefixed levels).unassigned

theorem Derives.assignment_of_suffixed (h : Derives .suffixed ts tree) :
    Derives .assignment ts tree :=
  h.unprefixed.assignment_of_prefixed

theorem Derives.at_tier {tier : Tier} (h : Derives .suffixed ts tree) (ht : tier ≠ .primary) :
    Derives tier ts tree := by
  cases tier with
  | assignment => exact h.assignment_of_suffixed
  | binary levels => exact h.unprefixed.binary_of_prefixed levels
  | prefixed => exact h.unprefixed
  | suffixed => exact h
  | primary => exact absurd rfl ht

/-- An operand without operators in front of it does not start with one. -/
theorem Derives.head_of_suffixed : ∀ {tier : Tier} {ts : List Token} {tree : Tree},
    Derives tier ts tree → tier = .suffixed ∨ tier = .primary →
    ∃ t more, ts = t :: more ∧ ∀ op, isSign op = true → t ≠ .mark op
  | _, _, _, .call function _, _ => by
    obtain ⟨t, more, rfl, ht⟩ := function.head_of_suffixed (.inl rfl)
    exact ⟨t, _, rfl, ht⟩
  | _, _, _, .index indexed _, _ => by
    obtain ⟨t, more, rfl, ht⟩ := indexed.head_of_suffixed (.inl rfl)
    exact ⟨t, _, rfl, ht⟩
  | _, _, _, .after whole _, _ => by
    obtain ⟨t, more, rfl, ht⟩ := whole.head_of_suffixed (.inl rfl)
    exact ⟨t, _, rfl, ht⟩
  | _, _, _, .unsuffixed whole, _ => whole.head_of_suffixed (.inr rfl)
  | _, _, _, .word, _ => ⟨_, _, rfl, nofun⟩
  | _, _, _, .number, _ => ⟨_, _, rfl, nofun⟩
  | _, _, _, .literal, _ => ⟨_, _, rfl, nofun⟩
  | _, _, _, .group _, _ => ⟨_, _, rfl, by rintro op hop h; cases h; exact absurd hop (by decide)⟩

/-- Each operator stands between operands of some level. -/
theorem derives_operate {a b : List Token} {op : String} {left right : Tree} :
    ∀ {levels : List (List String)}, (∃ ops ∈ levels, op ∈ ops) → Derives .prefixed a left →
      Derives .prefixed b right →
      Derives (.binary levels) (a ++ .mark op :: b) (.binary op left right)
  | ops :: tighter, h, ha, hb => by
    by_cases hop : op ∈ ops
    · exact (ha.binary_of_prefixed _).operate hop (hb.binary_of_prefixed tighter)
    · have htighter : ∃ ops ∈ tighter, op ∈ ops := by
        obtain ⟨ops', hmem, hop'⟩ := h
        rcases List.mem_cons.mp hmem with rfl | hmem
        · exact absurd hop' hop
        · exact ⟨ops', hmem, hop'⟩
      exact (derives_operate htighter ha hb).tighter

end Looser

section Inversion

/-- The tokens derive the tree by the rule for its outermost operator. -/
def Direct (ts : List Token) : Tree → Prop
  | .binary op left right => ∃ a b levels levels', ts = a ++ .mark op :: b ∧
    Proper (.binary levels) ∧ Derives (.binary levels) a left ∧
    Proper (.binary levels') ∧ Derives (.binary levels') b right
  | .prefixed op operand => ∃ a, ts = .mark op :: a ∧ Derives .prefixed a operand
  | .suffixed op operand => ∃ a, ts = a ++ [.mark op] ∧ Derives .suffixed a operand
  | .assign target value =>
    ∃ a b, ts = a ++ .mark "=" :: b ∧ Derives .prefixed a target ∧ Derives .assignment b value
  | .call callee arguments => ∃ a b, ts = a ++ .mark "(" :: (b ++ [.mark ")"]) ∧
    Derives .suffixed a callee ∧ DerivesList b arguments
  | .index array index => ∃ a b, ts = a ++ .mark "[" :: (b ++ [.mark "]"]) ∧
    Derives .suffixed a array ∧ Derives .assignment b index
  | .leaf text => ∃ token, ts = [token] ∧ token.text = text ∧ ∀ m, token ≠ .mark m

def Grouped (ts : List Token) (tree : Tree) : Prop :=
  ∃ inner, ts = .mark "(" :: (inner ++ [.mark ")"]) ∧ Derives .assignment inner tree

/-- Whether the tier has assignments, and whether it has operators in front of an operand. -/
def Tier.has : Tier → Tree → Bool
  | .assignment, _ => true
  | _, .assign _ _ => false
  | .suffixed, .prefixed _ _ => false
  | .primary, .prefixed _ _ => false
  | _, _ => true

/-- A derivation ends with the rule for the outermost operator, at a tier that has it, or with a
group. -/
theorem Derives.direct_or_grouped : ∀ {tier : Tier} {ts : List Token} {tree : Tree},
    Derives tier ts tree → Proper tier →
    (Tier.has tier tree = true ∧ Direct ts tree) ∨ Grouped ts tree
  | _, _, _, .group inner, _ => .inr ⟨_, rfl, inner⟩
  | _, _, _, .assign left right, _ => .inl ⟨rfl, _, _, rfl, left, right⟩
  | _, _, _, .unassigned whole, _ =>
    (whole.direct_or_grouped List.suffix_rfl).imp_left fun h => ⟨rfl, h.2⟩
  | _, _, _, .operate first _ second, proper =>
    .inl ⟨rfl, _, _, _, _, rfl, proper, first, (List.suffix_cons _ _).trans proper, second⟩
  | _, _, tree, .tighter whole, proper =>
    (whole.direct_or_grouped ((List.suffix_cons _ _).trans proper)).imp_left fun h => by
      cases tree <;> exact h
  | _, _, tree, .operand whole, _ => (whole.direct_or_grouped trivial).imp_left fun h => by
    cases tree <;> exact h
  | _, _, _, .before _ whole, _ => .inl ⟨rfl, _, rfl, whole⟩
  | _, _, tree, .unprefixed whole, _ => (whole.direct_or_grouped trivial).imp_left fun h => by
    cases tree with
    | prefixed op operand => exact ⟨rfl, h.2⟩
    | _ => exact h
  | _, _, _, .call function list, _ => .inl ⟨rfl, _, _, rfl, function, list⟩
  | _, _, _, .index indexed inner, _ => .inl ⟨rfl, _, _, rfl, indexed, inner⟩
  | _, _, _, .after whole _, _ => .inl ⟨rfl, _, rfl, whole⟩
  | _, _, tree, .unsuffixed whole, _ => (whole.direct_or_grouped trivial).imp_left fun h => by
    cases tree <;> exact h
  | _, _, _, .word, _ => .inl ⟨rfl, _, rfl, rfl, by simp⟩
  | _, _, _, .number, _ => .inl ⟨rfl, _, rfl, rfl, by simp⟩
  | _, _, _, .literal, _ => .inl ⟨rfl, _, rfl, rfl, by simp⟩

end Inversion

section Balance

/-- How many parentheses are open after the tokens. -/
def depth (ts : List Token) : Int := ts.count (.mark "(") - ts.count (.mark ")")

theorem depth_append (a b : List Token) : depth (a ++ b) = depth a + depth b := by
  simp only [depth, List.count_append]
  omega

/-- Whether the token is no parenthesis. -/
def Token.isPlain (token : Token) : Bool := token != .mark "(" && token != .mark ")"

theorem depth_cons_plain {token : Token} (h : token.isPlain = true) (ts : List Token) :
    depth (token :: ts) = depth ts := by
  simp only [Token.isPlain, Bool.and_eq_true, bne_iff_ne] at h
  simp [depth, h.1, h.2]

theorem isPlain_of_isSign {op : String} (h : isSign op = true) :
    (Token.mark op).isPlain = true := by
  simp_all [isSign, Token.isPlain]

/-- Every parenthesis is closed, and none is closed that was not opened. -/
structure Balanced (ts : List Token) : Prop where
  total : depth ts = 0
  nonneg : ∀ {a b : List Token}, ts = a ++ b → 0 ≤ depth a

theorem Balanced.nil : Balanced [] := by
  refine ⟨rfl, fun {a b} h => ?_⟩
  obtain ⟨rfl, -⟩ := List.append_eq_nil_iff.mp h.symm
  decide

theorem Balanced.append {x y : List Token} (hx : Balanced x) (hy : Balanced y) :
    Balanced (x ++ y) := by
  refine ⟨by rw [depth_append, hx.total, hy.total]; rfl, fun {a b} h => ?_⟩
  rcases List.append_eq_append_iff.mp h with ⟨c, rfl, hc⟩ | ⟨c, hc, -⟩
  · rw [depth_append, hx.total]
    have := hy.nonneg hc
    omega
  · exact hx.nonneg hc

theorem Balanced.cons {token : Token} {ts : List Token} (ht : token.isPlain = true)
    (h : Balanced ts) : Balanced (token :: ts) := by
  refine ⟨by rw [depth_cons_plain ht, h.total], fun {a b} hab => ?_⟩
  cases a with
  | nil => decide
  | cons first a =>
    obtain ⟨rfl, hts⟩ := List.cons.inj hab
    rw [depth_cons_plain ht]
    exact h.nonneg hts

theorem Balanced.of_cons {token : Token} {ts : List Token} (ht : token.isPlain = true)
    (h : Balanced (token :: ts)) : Balanced ts := by
  refine ⟨by rw [← depth_cons_plain ht, h.total], fun {a b} hab => ?_⟩
  have := h.nonneg (a := token :: a) (b := b) (by rw [hab, List.cons_append])
  rwa [depth_cons_plain ht] at this

@[simp]
theorem depth_open (ts : List Token) : depth (.mark "(" :: ts) = depth ts + 1 := by
  simp only [depth, List.count_cons]
  simp
  omega

theorem Balanced.group {ts : List Token} (h : Balanced ts) :
    Balanced (.mark "(" :: (ts ++ [.mark ")"])) := by
  refine ⟨by rw [depth_open, depth_append, h.total]; rfl, fun {a b} hab => ?_⟩
  cases a with
  | nil => decide
  | cons first a =>
    obtain ⟨rfl, hts⟩ := List.cons.inj hab
    rw [depth_open]
    rcases List.append_eq_append_iff.mp hts with ⟨c, rfl, hc⟩ | ⟨c, hc, -⟩
    · rw [depth_append, h.total]
      rcases List.cons_eq_append_iff.mp hc with ⟨rfl, -⟩ | ⟨d, rfl, hd⟩
      · decide
      · obtain ⟨rfl, -⟩ := List.append_eq_nil_iff.mp hd.symm
        decide
    · have := h.nonneg hc
      omega

/-- A part that closes what it opens is not the start of a group. -/
theorem append_ne_group {a b inner : List Token} (ha : depth a = 0) (hna : a ≠ []) (hnb : b ≠ [])
    (hi : Balanced inner) : a ++ b ≠ .mark "(" :: (inner ++ [.mark ")"]) := by
  intro h
  cases a with
  | nil => exact hna rfl
  | cons first a =>
    obtain ⟨rfl, hinner⟩ := List.cons.inj h
    rw [depth_open] at ha
    rcases List.append_eq_append_iff.mp hinner with ⟨c, hc, -⟩ | ⟨c, rfl, hc⟩
    · have := hi.nonneg hc
      omega
    · -- The part would reach past `inner`, so that nothing is left after it.
      rcases List.cons_eq_append_iff.mp hc with ⟨rfl, -⟩ | ⟨d, rfl, hd⟩
      · rw [List.append_nil, hi.total] at ha
        exact absurd ha (by decide)
      · exact hnb (List.append_eq_nil_iff.mp hd.symm).2

/-- Lists that agree are cut at one place if neither first part can reach past the other. -/
theorem eq_of_append_eq {a b a' b' : List Token} (h : a ++ b = a' ++ b')
    (ha : ∀ c, a' = a ++ c → b = c ++ b' → c = []) (ha' : ∀ c, a = a' ++ c → b' = c ++ b → c = []) :
    a = a' ∧ b = b' := by
  rcases List.append_eq_append_iff.mp h with ⟨c, hc, hb⟩ | ⟨c, hc, hb⟩
  · obtain rfl := ha c hc hb
    exact ⟨by simpa using hc.symm, by simpa using hb⟩
  · obtain rfl := ha' c hc hb
    exact ⟨by simpa using hc, by simpa using hb.symm⟩

/-- The callee of a call is set off by the parentheses of the arguments. -/
theorem call_split {f a f' a' : List Token} (hf : depth f = 0) (hf' : depth f' = 0)
    (ha : Balanced a) (ha' : Balanced a')
    (h : f ++ .mark "(" :: (a ++ [.mark ")"]) = f' ++ .mark "(" :: (a' ++ [.mark ")"])) :
    f = f' ∧ a = a' := by
  -- If one callee reached into the other's arguments, those would close one too many there.
  have key : ∀ {f a f' a' : List Token}, depth f = 0 → depth f' = 0 → Balanced a →
      ∀ c, f' = f ++ c → .mark "(" :: (a ++ [.mark ")"]) = c ++ .mark "(" :: (a' ++ [.mark ")"]) →
      c = [] := by
    intro f a f' a' hf hf' ha c hc h
    cases c with
    | nil => rfl
    | cons first c =>
      obtain ⟨rfl, h⟩ := List.cons.inj h
      rw [hc, depth_append, hf, depth_open] at hf'
      have h : a ++ [.mark ")"] = (c ++ .mark "(" :: a') ++ [.mark ")"] := by simpa using h
      have := ha.nonneg (List.append_cancel_right h)
      omega
  obtain ⟨hcallee, hgroup⟩ := eq_of_append_eq h (key hf hf' ha) (key hf' hf ha')
  exact ⟨hcallee, List.append_cancel_right (List.cons.inj hgroup).2⟩

theorem Derives.ne_nil : ∀ {tier : Tier} {ts : List Token} {tree : Tree}, Derives tier ts tree →
    ts ≠ []
  | _, _, _, .assign _ _ => by simp
  | _, _, _, .unassigned whole => whole.ne_nil
  | _, _, _, .operate _ _ _ => by simp
  | _, _, _, .tighter whole => whole.ne_nil
  | _, _, _, .operand whole => whole.ne_nil
  | _, _, _, .before _ _ => by simp
  | _, _, _, .unprefixed whole => whole.ne_nil
  | _, _, _, .call _ _ => by simp
  | _, _, _, .index _ _ => by simp
  | _, _, _, .after _ _ => by simp
  | _, _, _, .unsuffixed whole => whole.ne_nil
  | _, _, _, .word => by simp
  | _, _, _, .number => by simp
  | _, _, _, .literal => by simp
  | _, _, _, .group _ => by simp

mutual

theorem Derives.balanced : ∀ {tier : Tier} {ts : List Token} {tree : Tree}, Derives tier ts tree →
    Proper tier → Balanced ts
  | _, _, _, .assign left right, _ =>
    (left.balanced trivial).append ((right.balanced trivial).cons rfl)
  | _, _, _, .unassigned whole, _ => whole.balanced List.suffix_rfl
  | _, _, _, .operate first sign second, proper =>
    (first.balanced proper).append
      ((second.balanced ((List.suffix_cons _ _).trans proper)).cons
        (isPlain_of_isSign (isSign_of_proper proper sign)))
  | _, _, _, .tighter whole, proper => whole.balanced ((List.suffix_cons _ _).trans proper)
  | _, _, _, .operand whole, _ => whole.balanced trivial
  | _, _, _, .before sign whole, _ =>
    (whole.balanced trivial).cons (isPlain_of_isSign (isSign_of_mem_prefixes sign))
  | _, _, _, .unprefixed whole, _ => whole.balanced trivial
  | _, _, _, .call function list, _ => (function.balanced trivial).append list.balanced.group
  | _, _, _, .index indexed inner, _ =>
    (indexed.balanced trivial).append
      (((inner.balanced trivial).append (Balanced.nil.cons rfl)).cons rfl)
  | _, _, _, .after whole sign, _ =>
    (whole.balanced trivial).append
      (Balanced.nil.cons (isPlain_of_isSign (isSign_of_mem_suffixes sign)))
  | _, _, _, .unsuffixed whole, _ => whole.balanced trivial
  | _, _, _, .word, _ => Balanced.nil.cons rfl
  | _, _, _, .number, _ => Balanced.nil.cons rfl
  | _, _, _, .literal, _ => Balanced.nil.cons rfl
  | _, _, _, .group inner, _ => (inner.balanced trivial).group

theorem DerivesList.balanced : ∀ {ts : List Token} {trees : List Tree}, DerivesList ts trees →
    Balanced ts
  | _, _, .none => Balanced.nil
  | _, _, .last only => only.balanced trivial
  | _, _, .more first others => (first.balanced trivial).append (others.balanced.cons rfl)

end

end Balance

section Weight

/-- How much a token weighs.  Parentheses weigh nothing. -/
def Token.weight (token : Token) : Nat := if token.isPlain then token.text.length else 0

def weight (ts : List Token) : Nat := (ts.map Token.weight).sum

@[simp]
theorem weight_nil : weight [] = 0 := rfl

@[simp]
theorem weight_cons (token : Token) (ts : List Token) :
    weight (token :: ts) = token.weight + weight ts := by
  simp [weight]

@[simp]
theorem weight_append (a b : List Token) : weight (a ++ b) = weight a + weight b := by
  simp [weight]

@[simp]
theorem weight_openParen : (Token.mark "(").weight = 0 := by decide

@[simp]
theorem weight_closeParen : (Token.mark ")").weight = 0 := by decide

@[simp]
theorem weight_openBracket : (Token.mark "[").weight = 1 := by decide

@[simp]
theorem weight_closeBracket : (Token.mark "]").weight = 1 := by decide

@[simp]
theorem weight_comma : (Token.mark ",").weight = 1 := by decide

@[simp]
theorem weight_equals : (Token.mark "=").weight = 1 := by decide

theorem weight_sign {op : String} (h : isSign op = true) : (Token.mark op).weight = op.length := by
  rw [Token.weight, if_pos (isPlain_of_isSign h), Token.text]

mutual

/-- How much a tree weighs when it is written without parentheses. -/
def Tree.weight : Tree → Nat
  | .binary op left right => left.weight + op.length + right.weight
  | .prefixed op operand => op.length + operand.weight
  | .suffixed op operand => operand.weight + op.length
  | .assign target value => target.weight + 1 + value.weight
  | .call callee arguments => callee.weight + listWeight arguments
  | .index array place => array.weight + place.weight + 2
  | .leaf text => text.length

def listWeight : List Tree → Nat
  | [] => 0
  | [tree] => tree.weight
  | tree :: tree' :: trees => tree.weight + 1 + listWeight (tree' :: trees)

end

mutual

theorem Derives.weight_eq : ∀ {tier : Tier} {ts : List Token} {tree : Tree}, Derives tier ts tree →
    Proper tier → weight ts = tree.weight
  | _, _, _, .assign left right, _ => by
    simp only [weight_append, weight_cons, left.weight_eq trivial, right.weight_eq trivial,
      Tree.weight, weight_equals]
    omega
  | _, _, _, .unassigned whole, _ => whole.weight_eq List.suffix_rfl
  | _, _, _, .operate first sign second, proper => by
    have hs := weight_sign (isSign_of_proper proper sign)
    have tighter := (List.suffix_cons _ _).trans proper
    simp only [weight_append, weight_cons, first.weight_eq proper, second.weight_eq tighter,
      Tree.weight, hs]
    omega
  | _, _, _, .tighter whole, proper => whole.weight_eq ((List.suffix_cons _ _).trans proper)
  | _, _, _, .operand whole, _ => whole.weight_eq trivial
  | _, _, _, .before sign whole, _ => by
    simp [whole.weight_eq trivial, Tree.weight, weight_sign (isSign_of_mem_prefixes sign)]
  | _, _, _, .unprefixed whole, _ => whole.weight_eq trivial
  | _, _, _, .call function list, _ => by
    simp [function.weight_eq trivial, list.weight_eq, Tree.weight]
  | _, _, _, .index indexed inner, _ => by
    simp only [weight_append, weight_cons, weight_nil, indexed.weight_eq trivial,
      inner.weight_eq trivial, Tree.weight, weight_openBracket, weight_closeBracket]
    omega
  | _, _, _, .after whole sign, _ => by
    simp [whole.weight_eq trivial, Tree.weight, weight_sign (isSign_of_mem_suffixes sign)]
  | _, _, _, .unsuffixed whole, _ => whole.weight_eq trivial
  | _, _, _, .word, _ => by simp [Tree.weight, Token.weight, Token.isPlain, Token.text]
  | _, _, _, .number, _ => by simp [Tree.weight, Token.weight, Token.isPlain, Token.text]
  | _, _, _, .literal, _ => by simp [Tree.weight, Token.weight, Token.isPlain, Token.text]
  | _, _, _, .group inner, _ => by
    simp [inner.weight_eq trivial]

theorem DerivesList.weight_eq : ∀ {ts : List Token} {trees : List Tree}, DerivesList ts trees →
    weight ts = listWeight trees
  | _, _, .none => by simp [listWeight]
  | _, _, .last only => by simp [listWeight, only.weight_eq trivial]
  | _, _, .more first others => by
    simp only [listWeight, weight_append, weight_cons, first.weight_eq trivial, others.weight_eq,
      weight_comma]
    omega

end

/-- Where the weight before a token is known, so is the token's place. -/
theorem weight_split {a b a' b' : List Token} {token : Token} (ht : 0 < token.weight)
    (h : a ++ token :: b = a' ++ token :: b') (hw : weight a = weight a') : a = a' ∧ b = b' := by
  -- The part between two places would hold the token and yet weigh nothing.
  have key : ∀ {a b a' b' : List Token}, weight a = weight a' → ∀ c, a' = a ++ c →
      token :: b = c ++ token :: b' → c = [] := by
    intro a b a' b' hw c hc h
    cases c with
    | nil => rfl
    | cons first c =>
      obtain ⟨rfl, -⟩ := List.cons.inj h
      rw [hc, weight_append, weight_cons] at hw
      omega
  obtain ⟨ha, hb⟩ := eq_of_append_eq h (key hw) (key hw.symm)
  exact ⟨ha, (List.cons.inj hb).2⟩

end Weight

section Cutting

/-! A derivation cuts tokens where they were put together: `a` and `b` below match in their
parentheses and have the weights of the operands, but need not derive them. -/

variable {tier : Tier} {a b : List Token}

theorem Derives.of_binary {op : String} {left right : Tree} (proper : Proper tier)
    (hop : isSign op = true) (hpos : 0 < op.length) (ha : Balanced a) (hne : a ≠ [])
    (hb : Balanced b) (hw : weight a = left.weight)
    (h : Derives tier (.mark "(" :: (a ++ .mark op :: (b ++ [.mark ")"])))
      (.binary op left right)) :
    ∃ levels levels', Proper (.binary levels) ∧ Derives (.binary levels) a left ∧
      Proper (.binary levels') ∧ Derives (.binary levels') b right := by
  have hinner : Balanced (a ++ .mark op :: b) := ha.append (hb.cons (isPlain_of_isSign hop))
  have htokens : a ++ .mark op :: (b ++ [.mark ")"]) = (a ++ .mark op :: b) ++ [.mark ")"] := by
    simp
  rw [htokens] at h
  rcases h.direct_or_grouped proper with ⟨-, c, d, l, l', hcd, hl, hc, -, -⟩ | ⟨inner, hi, hd⟩
  · exact absurd hcd.symm (append_ne_group (hc.balanced hl).total hc.ne_nil (by simp) hinner)
  · obtain rfl := List.append_cancel_right (List.cons.inj hi).2
    rcases hd.direct_or_grouped trivial with ⟨-, c, d, l, l', hcd, hl, hc, hr, hd⟩ | ⟨inner, hi, hg⟩
    · have hweight : 0 < (Token.mark op).weight := by rwa [weight_sign hop]
      obtain ⟨rfl, rfl⟩ := weight_split hweight hcd (hw.trans (hc.weight_eq hl).symm)
      exact ⟨l, l', hl, hc, hr, hd⟩
    · exact absurd hi (append_ne_group ha.total hne (by simp) (hg.balanced trivial))

theorem Derives.of_prefixed {ts : List Token} {op : String} {operand : Tree} (proper : Proper tier)
    (hhead : ts.head? ≠ some (.mark "(")) (h : Derives tier ts (.prefixed op operand)) :
    Tier.has tier (.prefixed op operand) = true ∧
      ∃ a, ts = .mark op :: a ∧ Derives .prefixed a operand := by
  rcases h.direct_or_grouped proper with h | ⟨inner, rfl, -⟩
  · exact h
  · exact absurd rfl hhead

theorem Derives.of_suffixed {op : String} {operand : Tree} (proper : Proper tier)
    (hop : isSign op = true) (h : Derives tier (a ++ [.mark op]) (.suffixed op operand)) :
    Derives .suffixed a operand := by
  rcases h.direct_or_grouped proper with ⟨-, c, hc, hd⟩ | ⟨inner, hi, -⟩
  · exact List.append_cancel_right hc ▸ hd
  · have hlast := congrArg List.getLast? hi
    rw [← List.cons_append, List.getLast?_concat, List.getLast?_concat] at hlast
    obtain rfl : op = ")" := by simpa using hlast
    exact absurd hop (by decide)

theorem Derives.of_assign {target value : Tree} (proper : Proper tier) (ha : Balanced a)
    (hne : a ≠ []) (hw : weight a = target.weight)
    (h : Derives tier (a ++ .mark "=" :: b) (.assign target value)) :
    Tier.has tier (.assign target value) = true ∧ Derives .prefixed a target ∧
      Derives .assignment b value := by
  rcases h.direct_or_grouped proper with ⟨has, c, d, hcd, hc, hd⟩ | ⟨inner, hi, hg⟩
  · obtain ⟨rfl, rfl⟩ := weight_split (by decide) hcd (hw.trans (hc.weight_eq trivial).symm)
    exact ⟨has, hc, hd⟩
  · exact absurd hi (append_ne_group ha.total hne (by simp) (hg.balanced trivial))

theorem Derives.of_call {callee : Tree} {arguments : List Tree} (proper : Proper tier)
    (ha : Balanced a) (hne : a ≠ []) (hb : Balanced b)
    (h : Derives tier (a ++ .mark "(" :: (b ++ [.mark ")"])) (.call callee arguments)) :
    Derives .suffixed a callee ∧ DerivesList b arguments := by
  rcases h.direct_or_grouped proper with ⟨-, c, d, hcd, hc, hd⟩ | ⟨inner, hi, hg⟩
  · obtain ⟨rfl, rfl⟩ := call_split ha.total (hc.balanced trivial).total hb hd.balanced hcd
    exact ⟨hc, hd⟩
  · exact absurd hi (append_ne_group ha.total hne (by simp) (hg.balanced trivial))

theorem Derives.of_index {array place : Tree} (proper : Proper tier) (ha : Balanced a)
    (hne : a ≠ []) (hw : weight a = array.weight)
    (h : Derives tier (a ++ .mark "[" :: (b ++ [.mark "]"])) (.index array place)) :
    Derives .suffixed a array ∧ Derives .assignment b place := by
  rcases h.direct_or_grouped proper with ⟨-, c, d, hcd, hc, hd⟩ | ⟨inner, hi, hg⟩
  · obtain ⟨rfl, hbd⟩ := weight_split (by decide) hcd (hw.trans (hc.weight_eq trivial).symm)
    exact ⟨hc, List.append_cancel_right hbd ▸ hd⟩
  · exact absurd hi (append_ne_group ha.total hne (by simp) (hg.balanced trivial))

theorem DerivesList.of_singleton {ts : List Token} {tree : Tree} (h : DerivesList ts [tree]) :
    Derives .assignment ts tree := by
  cases h with
  | last only => exact only

theorem DerivesList.of_cons {tree tree' : Tree} {trees : List Tree} (hw : weight a = tree.weight)
    (h : DerivesList (a ++ .mark "," :: b) (tree :: tree' :: trees)) :
    Derives .assignment a tree ∧ DerivesList b (tree' :: trees) := by
  generalize hts : a ++ .mark "," :: b = ts at h
  cases h with
  | more first others =>
    obtain ⟨rfl, rfl⟩ := weight_split (by decide) hts (hw.trans (first.weight_eq trivial).symm)
    exact ⟨first, others⟩

end Cutting

end KanaScript.C
