import KanaScript.Proofs.C.Lexer
import KanaScript.Proofs.Grammar.Expression

/-! How C reads an expression: the grammar of its operators over the tokens of a text, and that a
text has at most one reading.  A tree keeps its leaves as they are spelled. -/

namespace KanaScript.C

open Grammar (Tier)

/-- An expression as C reads it, without its parentheses. -/
inductive Tree
  | binary (op : String) (left right : Tree)
  | prefixed (op : String) (operand : Tree)
  | suffixed (op : String) (operand : Tree)
  | assign (target value : Tree)
  | call (callee : Tree) (arguments : List Tree)
  | index (array index : Tree)
  /-- A name, a number or a literal. -/
  | leaf (text : String)

/-- The operators between two operands, a tighter level after a looser one.  All of them associate
to the left. -/
def levels : List (List String) :=
  [["||"], ["&&"], ["==", "!="], ["<", ">", "<=", ">="], ["+", "-"], ["*", "/", "%"]]

def prefixes : List String := ["!", "-", "++", "--"]

def suffixes : List String := ["++", "--"]

mutual

/-- The tokens derive the tree at the tier.  What stands before `=` is an operand with the operators
in front of it, and what follows may be assigned to in turn. -/
inductive Derives : Tier → List Token → Tree → Prop
  | assign {a b : List Token} {target value : Tree} (left : Derives .prefixed a target)
      (right : Derives .assignment b value) :
      Derives .assignment (a ++ .mark "=" :: b) (.assign target value)
  | unassigned {ts : List Token} {tree : Tree} (whole : Derives (.binary levels) ts tree) :
      Derives .assignment ts tree
  | operate {a b : List Token} {op : String} {left right : Tree} {ops : List String}
      {tighter : List (List String)} (first : Derives (.binary (ops :: tighter)) a left)
      (sign : op ∈ ops) (second : Derives (.binary tighter) b right) :
      Derives (.binary (ops :: tighter)) (a ++ .mark op :: b) (.binary op left right)
  | tighter {ts : List Token} {tree : Tree} {ops : List String} {tighter : List (List String)}
      (whole : Derives (.binary tighter) ts tree) : Derives (.binary (ops :: tighter)) ts tree
  | operand {ts : List Token} {tree : Tree} (whole : Derives .prefixed ts tree) :
      Derives (.binary []) ts tree
  | before {ts : List Token} {op : String} {tree : Tree} (sign : op ∈ prefixes)
      (whole : Derives .prefixed ts tree) : Derives .prefixed (.mark op :: ts) (.prefixed op tree)
  | unprefixed {ts : List Token} {tree : Tree} (whole : Derives .suffixed ts tree) :
      Derives .prefixed ts tree
  | call {a b : List Token} {callee : Tree} {trees : List Tree}
      (function : Derives .suffixed a callee) (list : DerivesList b trees) :
      Derives .suffixed (a ++ .mark "(" :: (b ++ [.mark ")"])) (.call callee trees)
  | index {a b : List Token} {array index : Tree} (indexed : Derives .suffixed a array)
      (inner : Derives .assignment b index) :
      Derives .suffixed (a ++ .mark "[" :: (b ++ [.mark "]"])) (.index array index)
  | after {ts : List Token} {op : String} {tree : Tree} (whole : Derives .suffixed ts tree)
      (sign : op ∈ suffixes) : Derives .suffixed (ts ++ [.mark op]) (.suffixed op tree)
  | unsuffixed {ts : List Token} {tree : Tree} (whole : Derives .primary ts tree) :
      Derives .suffixed ts tree
  | word {text : String} : Derives .primary [.word text] (.leaf text)
  | number {text : String} : Derives .primary [.number text] (.leaf text)
  | literal {text : String} : Derives .primary [.literal text] (.leaf text)
  | group {ts : List Token} {tree : Tree} (inner : Derives .assignment ts tree) :
      Derives .primary (.mark "(" :: (ts ++ [.mark ")"])) tree

inductive DerivesList : List Token → List Tree → Prop
  | none : DerivesList [] []
  | last {ts : List Token} {tree : Tree} (only : Derives .assignment ts tree) :
      DerivesList ts [tree]
  | more {a b : List Token} {tree tree' : Tree} {trees : List Tree}
      (first : Derives .assignment a tree) (others : DerivesList b (tree' :: trees)) :
      DerivesList (a ++ .mark "," :: b) (tree :: tree' :: trees)

end

/-- C reads the text as the tree. -/
def Reads (text : String) (tree : Tree) : Prop :=
  ∃ ts, tokens? true text.toList = some ts ∧ Derives .assignment ts tree

section Unambiguity

/-! The rules have the shape of the script's own, so a text that had two readings would give the
script two trees for one list of tokens. -/

/-- The script's token for a token of C.  All leaves become names. -/
def Token.script : Token → KanaScript.Token
  | mark text =>
    match text with
    | "(" => ⟨.openParen, .none, .start⟩
    | ")" => ⟨.closeParen, .none, .start⟩
    | "[" => ⟨.openBracket, .none, .start⟩
    | "]" => ⟨.closeBracket, .none, .start⟩
    | "," => ⟨.comma, .none, .start⟩
    | op => ⟨.operator, .text op, .start⟩
  | token => ⟨.identifier, .text token.text, .start⟩

def Tree.script : Tree → Expr
  | binary op left right => .binary op left.script right.script .start
  | prefixed op operand => .prefixed op operand.script .start
  | suffixed op operand => .suffixed op operand.script .start
  | assign target value => .assign target.script value.script .start
  | call callee arguments => .call callee.script (arguments.map Tree.script) .start
  | index array place => .index array.script place.script .start
  | leaf text => .name text .start

@[simp]
theorem Tree.position_script (tree : Tree) : tree.script.position = .start := by
  cases tree <;> simp [Tree.script, Expr.position]

mutual

theorem Tree.script_injective : ∀ {a b : Tree}, a.script = b.script → a = b
  | .binary _ _ _, b, h => by
    cases b <;> simp only [Tree.script, Expr.binary.injEq, reduceCtorEq] at h
    obtain ⟨rfl, hl, hr, -⟩ := h
    rw [Tree.script_injective hl, Tree.script_injective hr]
  | .prefixed _ _, b, h => by
    cases b <;> simp only [Tree.script, Expr.prefixed.injEq, reduceCtorEq] at h
    obtain ⟨rfl, ho, -⟩ := h
    rw [Tree.script_injective ho]
  | .suffixed _ _, b, h => by
    cases b <;> simp only [Tree.script, Expr.suffixed.injEq, reduceCtorEq] at h
    obtain ⟨rfl, ho, -⟩ := h
    rw [Tree.script_injective ho]
  | .assign _ _, b, h => by
    cases b <;> simp only [Tree.script, Expr.assign.injEq, reduceCtorEq] at h
    obtain ⟨ht, hv, -⟩ := h
    rw [Tree.script_injective ht, Tree.script_injective hv]
  | .call _ _, b, h => by
    cases b <;> simp only [Tree.script, Expr.call.injEq, reduceCtorEq] at h
    obtain ⟨hc, ha, -⟩ := h
    rw [Tree.script_injective hc, script_injective_list ha]
  | .index _ _, b, h => by
    cases b <;> simp only [Tree.script, Expr.index.injEq, reduceCtorEq] at h
    obtain ⟨ha, hi, -⟩ := h
    rw [Tree.script_injective ha, Tree.script_injective hi]
  | .leaf _, b, h => by
    cases b <;> simp only [Tree.script, Expr.name.injEq, reduceCtorEq] at h
    rw [h.1]

theorem script_injective_list : ∀ {as bs : List Tree}, as.map Tree.script = bs.map Tree.script →
    as = bs
  | [], bs, h => by simpa using h.symm
  | a :: as, bs, h => by
    cases bs with
    | nil => simp at h
    | cons b bs =>
      simp only [List.map_cons, List.cons.injEq] at h
      rw [Tree.script_injective h.1, script_injective_list h.2]

end

/-- What stands for an operator is no bracket and no comma. -/
def isSign (op : String) : Bool := !(["(", ")", "[", "]", ","].contains op)

theorem script_mark {op : String} (h : isSign op = true) :
    (Token.mark op).script = ⟨.operator, .text op, .start⟩ := by
  unfold Token.script
  split <;> simp_all [isSign]

@[simp]
theorem text_mk (kind : TokenKind) (text : String) (position : Position) :
    KanaScript.Token.text ⟨kind, .text text, position⟩ = text := rfl

theorem isOperator_script {op : String} {ops : List String} (h : op ∈ ops) :
    Grammar.isOperator ops ⟨.operator, .text op, .start⟩ = true := by
  simpa [Grammar.isOperator] using h

theorem derives_name {text : String} :
    Grammar.Derives .primary [⟨.identifier, .text text, .start⟩] (Tree.leaf text).script := by
  simpa [Tree.script] using Grammar.Derives.name (t := ⟨.identifier, .text text, .start⟩) (.inl rfl)

/-- The levels of a tier are those of C. -/
def Proper (tier : Tier) : Prop := tier.Within levels

theorem isSign_of_proper {op : String} {ops : List String} {tighter : List (List String)}
    (h : Proper (.binary (ops :: tighter))) (hop : op ∈ ops) : isSign op = true := by
  have signs : ∀ ops ∈ levels, ∀ op ∈ ops, isSign op = true := by decide
  exact signs ops (h.subset List.mem_cons_self) op hop

theorem isSign_of_mem_prefixes {op : String} (h : op ∈ prefixes) : isSign op = true :=
  (by decide : ∀ op ∈ prefixes, isSign op = true) op h

theorem isSign_of_mem_suffixes {op : String} (h : op ∈ suffixes) : isSign op = true :=
  (by decide : ∀ op ∈ suffixes, isSign op = true) op h

mutual

theorem Derives.script : ∀ {tier : Tier} {ts : List Token} {tree : Tree}, Derives tier ts tree →
    Proper tier → Grammar.Derives tier (ts.map Token.script) tree.script
  | _, _, _, .assign left right, _ => by
    have h := ((left.script trivial).binary_of_prefixed Grammar.binaryLevels).assign
      (t := (Token.mark "=").script) (by decide) (right.script trivial)
    simpa [Tree.script] using h
  | _, _, _, .unassigned whole, _ => (whole.script List.suffix_rfl).unassigned
  | _, _, _, .operate first sign second, proper => by
    have tighter := (List.suffix_cons _ _).trans proper
    have h := (first.script proper).operate (isOperator_script sign) (second.script tighter)
    rw [List.map_append, List.map_cons, script_mark (isSign_of_proper proper sign)]
    simpa [Tree.script] using h
  | _, _, _, .tighter whole, proper =>
    (whole.script ((List.suffix_cons _ _).trans proper)).tighter
  | _, _, _, .operand whole, _ => (whole.script trivial).operand
  | _, _, _, .before sign whole, _ => by
    rw [List.map_cons, script_mark (isSign_of_mem_prefixes sign)]
    simpa [Tree.script] using Grammar.Derives.before (isOperator_script sign) (whole.script trivial)
  | _, _, _, .unprefixed whole, _ => (whole.script trivial).unprefixed
  | _, _, _, .call function list, _ => by
    have h := (function.script trivial).call (t := (Token.mark "(").script)
      (u := (Token.mark ")").script) rfl list.script rfl
    simpa [Tree.script] using h
  | _, _, _, .index indexed inner, _ => by
    have h := (indexed.script trivial).index (t := (Token.mark "[").script)
      (u := (Token.mark "]").script) rfl (inner.script trivial) rfl
    simpa [Tree.script] using h
  | _, _, _, .after whole sign, _ => by
    have h := (whole.script trivial).after (isOperator_script sign)
    rw [List.map_append, List.map_singleton, script_mark (isSign_of_mem_suffixes sign)]
    simpa [Tree.script] using h
  | _, _, _, .unsuffixed whole, _ => (whole.script trivial).unsuffixed
  | _, _, _, .word, _ => derives_name
  | _, _, _, .number, _ => derives_name
  | _, _, _, .literal, _ => derives_name
  | _, _, _, .group inner, _ => by
    have h := Grammar.Derives.group (t := (Token.mark "(").script)
      (u := (Token.mark ")").script) rfl (inner.script trivial) rfl
    simpa using h

theorem DerivesList.script : ∀ {ts : List Token} {trees : List Tree}, DerivesList ts trees →
    Grammar.DerivesList (ts.map Token.script) (trees.map Tree.script)
  | _, _, .none => .none
  | _, _, .last only => .last (only.script trivial)
  | _, _, .more first others => by
    have h := Grammar.DerivesList.more (t := (Token.mark ",").script) (first.script trivial) rfl
      others.script
    simpa using h

end

/-- Tokens derive at most one tree. -/
theorem Derives.unique {ts : List Token} {a b : Tree} (ha : Derives .assignment ts a)
    (hb : Derives .assignment ts b) : a = b := by
  have yields : ∀ {tree : Tree}, Derives .assignment ts tree →
      (Grammar.expression (ts.map Token.script)).Yields tree.script [] := by
    intro tree h
    exact Grammar.yields_expression_iff.mpr
      ⟨ts.map Token.script, (List.append_nil _).symm, h.script trivial, by simp [Grammar.Stops]⟩
  exact Tree.script_injective ((yields ha).unique (yields hb)).1

/-- A text whose tokens derive a tree is read as that tree and as no other. -/
theorem reads_iff {text : String} {ts : List Token} {tree other : Tree}
    (ht : tokens? true text.toList = some ts) (hd : Derives .assignment ts tree) :
    Reads text other ↔ other = tree := by
  constructor
  · rintro ⟨us, hu, ho⟩
    obtain rfl : ts = us := by simpa [ht] using hu
    exact ho.unique hd
  · rintro rfl
    exact ⟨ts, ht, hd⟩

end Unambiguity

end KanaScript.C
