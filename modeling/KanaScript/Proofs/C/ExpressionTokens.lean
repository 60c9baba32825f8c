import KanaScript.C.Expression
import KanaScript.Proofs.C.Spelling
import KanaScript.Proofs.Grammar.Derivation

/-! The tokens that the text of an expression is cut into.  Pieces that stand next to each other
stay apart, but for minus signs: one in front of another makes a decrement. -/

namespace KanaScript

namespace C

/-- The tokens after a minus sign is put in front of `ts` with no blank between. -/
def glueMinus : List Token → List Token
  | [] => [.mark "-"]
  | t :: ts =>
    if t = .mark "-" then .mark "--" :: ts
    else if t = .mark "--" then .mark "--" :: glueMinus ts
    else .mark "-" :: t :: ts

/-- The tokens of a number.  Its sign is one of its own. -/
def numberTokens : List Char → List Token
  | '-' :: cs => [.mark "-", unsignedToken cs]
  | cs => [unsignedToken cs]

end C

open C

mutual

def Expr.tokens : Expr → List C.Token
  | .binary op left right _ =>
    .mark "(" :: (left.tokens ++ .mark op :: (right.tokens ++ [.mark ")"]))
  | .prefixed op operand _ =>
    if op = "-" then glueMinus operand.tokens else .mark op :: operand.tokens
  | .suffixed op operand _ => operand.tokens ++ [.mark op]
  | .assign target value _ => target.tokens ++ .mark "=" :: value.tokens
  | .call callee arguments _ =>
    callee.tokens ++ .mark "(" :: (argumentTokens (isPrint callee) arguments ++ [.mark ")"])
  | .index array index _ => array.tokens ++ .mark "[" :: (index.tokens ++ [.mark "]"])
  | .name text _ => [.word (identifier text)]
  | .number value _ => numberTokens value.text.toList
  | .string text _ => [.literal (stringLiteral text)]
  | .char text _ => [.literal (charLiteral text)]

/-- The tokens of arguments, the first of which is a format if `print` says so. -/
def argumentTokens (print : Bool) : List Expr → List C.Token
  | [] => []
  | [e] => ((formatCode? print e).map fun code => [.literal code]).getD e.tokens
  | e :: e' :: es =>
    ((formatCode? print e).map fun code => [.literal code]).getD e.tokens ++
      .mark "," :: argumentTokens false (e' :: es)

/-- An expression and all expressions within it. -/
def Expr.nodes : Expr → List Expr
  | .binary op left right position =>
    .binary op left right position :: (left.nodes ++ right.nodes)
  | .prefixed op operand position => .prefixed op operand position :: operand.nodes
  | .suffixed op operand position => .suffixed op operand position :: operand.nodes
  | .assign target value position =>
    .assign target value position :: (target.nodes ++ value.nodes)
  | .call callee arguments position =>
    .call callee arguments position :: (callee.nodes ++ argumentNodes arguments)
  | .index array index position => .index array index position :: (array.nodes ++ index.nodes)
  | .name text position => [.name text position]
  | .number value position => [.number value position]
  | .string text position => [.string text position]
  | .char text position => [.char text position]

def argumentNodes : List Expr → List Expr
  | [] => []
  | e :: es => e.nodes ++ argumentNodes es

end

/-- Whether the outermost operator, if there is one, is one of the grammar. -/
def Expr.hasKnownOperator : Expr → Bool
  | .binary op _ _ _ => Grammar.binaryLevels.any fun ops => ops.contains op
  | .prefixed op _ _ => Grammar.prefixOperators.contains op
  | .suffixed op _ _ => Grammar.suffixOperators.contains op
  | _ => true

namespace C

section Minus

/-- Whether the text of an expression may start with `c`, minus signs apart. -/
def opensOperand (c : Char) : Bool :=
  Text.startsName c || c.isDigit || ['(', '"', '\'', '!', '+'].contains c

/-- The text starts as that of an expression does, perhaps with minus signs in front. -/
inductive Opens : List Char → Prop
  | plain {c : Char} {cs : List Char} (h : opensOperand c = true) : Opens (c :: cs)
  | minus {cs : List Char} (h : Opens cs) : Opens ('-' :: cs)

theorem Opens.append {a : List Char} (h : Opens a) (b : List Char) : Opens (a ++ b) := by
  induction h with
  | plain h => exact .plain h
  | minus _ ih => exact .minus ih

theorem Opens.exists_cons {cs : List Char} (h : Opens cs) :
    ∃ c more, cs = c :: more ∧ (opensOperand c || c == '-') = true := by
  cases h with
  | plain h => exact ⟨_, _, rfl, by simp [h]⟩
  | minus _ => exact ⟨_, _, rfl, by decide⟩

theorem cuts_minus_operand {c : Char} (h : opensOperand c = true) (cs : List Char) :
    Cuts "-".toList [.mark "-"] (c :: cs) := by
  refine cuts_minus ?_
  simp only [List.mem_cons, List.not_mem_nil, or_false, not_or]
  exact ⟨ne_of_class h (by decide), ne_of_class h (by decide), ne_of_class h (by decide)⟩

/-- A token starts with the character at which it was cut. -/
theorem head?_first? {c : Char} {cs : List Char} {token : Token} (h : first? c cs = some token) :
    token.text.toList.head? = some c := by
  unfold first? at h
  split at h
  · obtain rfl := Option.some.inj h
    simp [Token.text]
  split at h
  · obtain rfl := Option.some.inj h
    simp [Token.text]
  split at h
  · obtain ⟨tail, -, rfl⟩ := Option.map_eq_some_iff.mp h
    simp [Token.text]
  · obtain ⟨m, hm, rfl⟩ := Option.map_eq_some_iff.mp h
    have nonempty : ∀ m ∈ marks, m.toList ≠ [] := by decide
    have hne := nonempty m (List.mem_of_find?_eq_some hm)
    have hp := List.find?_some hm
    rw [List.isPrefixOf_iff_prefix] at hp
    obtain ⟨rest, hrest⟩ := hp
    show m.toList.head? = some c
    cases hl : m.toList with
    | nil => exact absurd hl hne
    | cons d ds =>
      rw [hl] at hrest
      simpa using (List.cons.inj hrest).1

/-- What starts as an operand is not cut into a minus sign first. -/
theorem glueMinus_of_plain {c : Char} {cs : List Char} {ts : List Token}
    (hc : opensOperand c = true) (h : tokens? false (c :: cs) = some ts) :
    glueMinus ts = .mark "-" :: ts := by
  have hs := isSpace_eq_false hc (by decide)
  have hcomment : comment (c :: cs) = [] := comment_eq_nil (ne_of_class hc (by decide))
  rw [tokens?] at h
  simp only [hs, hcomment, Bool.false_eq_true, if_false, Bool.false_and, ne_eq, not_true_eq_false]
    at h
  split at h
  · rename_i token ht
    obtain ⟨others, -, rfl⟩ := Option.map_eq_some_iff.mp h
    have hne : ∀ m, m.toList.head? = some '-' → token ≠ .mark m := by
      rintro m hm rfl
      have hm := (head?_first? ht).symm.trans hm
      exact ne_of_class hc (by decide) (Option.some.inj hm)
    simp [glueMinus, hne "-" rfl, hne "--" rfl]
  · cases h

/-- A minus sign in front of an expression makes a token with those that follow it. -/
theorem tokens?_minus : ∀ {cs : List Char}, Opens cs →
    tokens? false ('-' :: cs) = (tokens? false cs).map glueMinus
  | _, @Opens.plain c cs h => by
    have hcut : tokens? false ('-' :: c :: cs) = _ := cuts_minus_operand h cs
    rw [hcut]
    cases hts : tokens? false (c :: cs) with
    | none => rfl
    | some ts => simp [glueMinus_of_plain h hts]
  | _, .minus (@Opens.plain c cs h) => by
    have hcut : tokens? false ('-' :: c :: cs) = _ := cuts_minus_operand h cs
    have htwo : tokens? false ('-' :: '-' :: c :: cs) = _ := cuts_doubled (m := "--") (by decide) _
    rw [hcut, htwo, Option.map_map]
    rfl
  | _, .minus (@Opens.minus cs h) => by
    have htwo : tokens? false ('-' :: '-' :: cs) = _ := cuts_doubled (m := "--") (by decide) _
    have hthree : tokens? false ('-' :: '-' :: '-' :: cs) = _ :=
      cuts_doubled (m := "--") (by decide) _
    rw [htwo, hthree, tokens?_minus h, Option.map_map, Option.map_map]
    rfl

theorem Opens.leads {cs : List Char} (h : Opens cs) : Leads cs := by
  obtain ⟨c, more, rfl, hc⟩ := h.exists_cons
  have hs : isSpace c = false := by
    simp only [Bool.or_eq_true, beq_iff_eq] at hc
    rcases hc with hc | rfl
    · exact isSpace_eq_false hc (by decide)
    · decide
  refine ⟨c, more, rfl, hs, ?_, ?_⟩
  · rintro rfl
    exact absurd hc (by decide)
  · rintro rfl
    exact absurd hc (by decide)

/-- Whether the token is made of minus signs. -/
def Token.isDash (token : Token) : Bool := token == .mark "-" || token == .mark "--"

theorem mem_glueMinus {token : Token} (ht : token.isDash = false) :
    ∀ {ts : List Token}, token ∈ ts → token ∈ glueMinus ts
  | t :: ts, h => by
    simp only [Token.isDash, Bool.or_eq_false_iff, beq_eq_false_iff_ne] at ht
    unfold glueMinus
    split
    · subst t
      exact List.mem_cons_of_mem _ ((List.mem_cons.mp h).resolve_left ht.1)
    · split
      · subst t
        exact List.mem_cons_of_mem _
          (mem_glueMinus (by simp [Token.isDash, ht]) ((List.mem_cons.mp h).resolve_left ht.2))
      · exact List.mem_cons_of_mem _ h

theorem glueMinus_append : ∀ {ts : List Token}, (∃ t ∈ ts, Token.isDash t = false) →
    ∀ us : List Token, glueMinus (ts ++ us) = glueMinus ts ++ us
  | t :: ts, h, us => by
    rw [List.cons_append]
    simp only [glueMinus]
    split
    · rfl
    · split
      · subst t
        have h : ∃ t ∈ ts, Token.isDash t = false := by
          obtain ⟨t, ht, hd⟩ := h
          rcases List.mem_cons.mp ht with rfl | ht
          · exact absurd hd (by decide)
          · exact ⟨t, ht, hd⟩
        rw [glueMinus_append h us, List.cons_append]
      · rfl

theorem head_glueMinus (ts : List Token) :
    ∃ t more, glueMinus ts = t :: more ∧ Token.isDash t = true := by
  cases ts with
  | nil => exact ⟨_, _, rfl, rfl⟩
  | cons t ts =>
    unfold glueMinus
    split
    · exact ⟨_, _, rfl, rfl⟩
    · split
      · exact ⟨_, _, rfl, rfl⟩
      · exact ⟨_, _, rfl, rfl⟩

end Minus

section Spelled

/-- The text is that of an expression with the tokens `ts`. -/
structure Spelled (text : List Char) (ts : List Token) : Prop where
  cuts : ∀ {rest : List Char}, Ends rest → Cuts text ts rest
  opens : Opens text
  /-- Without it, a minus sign in front could reach the tokens that follow. -/
  solid : ∃ t ∈ ts, Token.isDash t = false

variable {a b : List Char} {xs ys : List Token}

theorem ends_cons {c : Char} (h : Text.continuesName c = false ∧ c ≠ '.') (rest : List Char) :
    Ends (c :: rest) := by
  intro d hd
  obtain rfl : c = d := by simpa using hd
  exact h

theorem Spelled.binary {op : String} (left : Spelled a xs) (right : Spelled b ys)
    (h : ∃ ops ∈ Grammar.binaryLevels, op ∈ ops) :
    Spelled ("(".toList ++ (a ++ (" ".toList ++ (op.toList ++ (" ".toList ++ (b ++ ")".toList))))))
      (.mark "(" :: (xs ++ .mark op :: (ys ++ [.mark ")"]))) := by
  have hop : op ∈ ["=", "||", "&&", "==", "!=", "<", ">", "<=", ">=", "+", "-", "*", "/", "%"] := by
    have known : ∀ ops ∈ Grammar.binaryLevels, ∀ op ∈ ops,
        op ∈ ["=", "||", "&&", "==", "!=", "<", ">", "<=", ">=", "+", "-", "*", "/", "%"] := by
      decide
    obtain ⟨ops, hops, hop⟩ := h
    exact known ops hops op hop
  refine ⟨fun {rest} _ => ?_, .plain (by decide), .mark "(", List.mem_cons_self, by decide⟩
  refine (cuts_bracket (m := "(") (by decide) _).append
    ((left.cuts (ends_cons (by decide) _)).append (cuts_space.append ?_))
  refine (cuts_spaced hop _).append (cuts_space.append ((right.cuts ?_).append
    (cuts_bracket (m := ")") (by decide) _)))
  exact ends_cons (by decide) _

theorem Spelled.minus (operand : Spelled a xs) : Spelled ('-' :: a) (glueMinus xs) := by
  obtain ⟨t, ht, hd⟩ := operand.solid
  refine ⟨fun {rest} hr => ?_, operand.opens.minus, t, mem_glueMinus hd ht, hd⟩
  have hcut : tokens? false (a ++ rest) = _ := operand.cuts hr
  rw [Cuts, List.cons_append, tokens?_minus (operand.opens.append rest), hcut, Option.map_map]
  congr 1
  funext others
  exact glueMinus_append operand.solid others

theorem Spelled.prefixed {op : String} (operand : Spelled a xs) (h : op ∈ ["!", "++", "--"]) :
    Spelled (op.toList ++ a) (.mark op :: xs) := by
  obtain ⟨t, ht, hd⟩ := operand.solid
  have hopens : Opens (op.toList ++ a) := by
    simp only [List.mem_cons, List.not_mem_nil, or_false] at h
    rcases h with rfl | rfl | rfl
    · exact .plain (by decide)
    · exact .plain (by decide)
    · exact operand.opens.minus.minus
  have hcuts : ∀ rest, Cuts op.toList [.mark op] (a ++ rest) := by
    intro rest
    rcases List.mem_cons.mp h with rfl | h
    · obtain ⟨c, more, hc, hopen⟩ := (operand.opens.append rest).exists_cons
      rw [hc]
      refine cuts_not ?_
      rintro rfl
      exact absurd hopen (by decide)
    · exact cuts_doubled h _
  exact ⟨fun hr => (hcuts _).append (operand.cuts hr), hopens, t, List.mem_cons_of_mem _ ht, hd⟩

theorem Spelled.suffixed {op : String} (operand : Spelled a xs) (h : op ∈ Grammar.suffixOperators) :
    Spelled (a ++ op.toList) (xs ++ [.mark op]) := by
  obtain ⟨t, ht, hd⟩ := operand.solid
  refine ⟨fun {rest} _ => ?_, operand.opens.append _, t, List.mem_append_left _ ht, hd⟩
  refine (operand.cuts ?_).append (cuts_doubled h rest)
  simp only [Grammar.suffixOperators, List.mem_cons, List.not_mem_nil, or_false] at h
  rcases h with rfl | rfl <;> exact ends_cons (by decide) _

theorem Spelled.assign (target : Spelled a xs) (value : Spelled b ys) :
    Spelled (a ++ (" ".toList ++ ("=".toList ++ (" ".toList ++ b)))) (xs ++ .mark "=" :: ys) := by
  obtain ⟨t, ht, hd⟩ := target.solid
  refine ⟨fun {rest} hr => ?_, target.opens.append _, t, List.mem_append_left _ ht, hd⟩
  refine (target.cuts (ends_cons (by decide) _)).append (cuts_space.append ?_)
  exact (cuts_spaced (m := "=") (by decide) _).append (cuts_space.append (value.cuts hr))

theorem Spelled.call {list : List Char} {zs : List Token} (callee : Spelled a xs)
    (arguments : ∀ rest, Cuts list zs (')' :: rest)) :
    Spelled (a ++ ("(".toList ++ (list ++ ")".toList)))
      (xs ++ .mark "(" :: (zs ++ [.mark ")"])) := by
  obtain ⟨t, ht, hd⟩ := callee.solid
  refine ⟨fun {rest} _ => ?_, callee.opens.append _, t, List.mem_append_left _ ht, hd⟩
  refine (callee.cuts (ends_cons (by decide) _)).append ?_
  exact (cuts_bracket (m := "(") (by decide) _).append
    ((arguments _).append (cuts_bracket (m := ")") (by decide) _))

theorem Spelled.index (array : Spelled a xs) (place : Spelled b ys) :
    Spelled (a ++ ("[".toList ++ (b ++ "]".toList))) (xs ++ .mark "[" :: (ys ++ [.mark "]"])) := by
  obtain ⟨t, ht, hd⟩ := array.solid
  refine ⟨fun {rest} _ => ?_, array.opens.append _, t, List.mem_append_left _ ht, hd⟩
  refine (array.cuts (ends_cons (by decide) _)).append ?_
  exact (cuts_bracket (m := "[") (by decide) _).append
    ((place.cuts (ends_cons (by decide) _)).append (cuts_bracket (m := "]") (by decide) _))

theorem spelled_leaf {token : Token} (hc : ∀ {rest : List Char}, Ends rest → Cuts a [token] rest)
    (ho : Opens a) (ht : ∀ m, token ≠ .mark m) : Spelled a [token] :=
  ⟨hc, ho, token, List.mem_singleton_self token, by simp [Token.isDash, ht]⟩

theorem spelled_identifier (name : String) :
    Spelled (identifier name).toList [.word (identifier name)] := by
  have h := isIdentifier_identifier name
  have ho : Opens (identifier name).toList := by
    cases hcs : (identifier name).toList with
    | nil => simp [hcs, Text.isIdentifier] at h
    | cons c cs =>
      simp only [hcs, Text.isIdentifier, Bool.and_eq_true] at h
      exact .plain (by simp [opensOperand, h.1])
  exact spelled_leaf (fun hr => by simpa using cuts_word h hr) ho (by simp)

theorem spelled_unsigned {cs : List Char} (h : Unsigned cs) : Spelled cs [unsignedToken cs] := by
  have ho : Opens cs := by
    rcases h with ⟨c, more, rfl, hc, -⟩ | rfl | rfl
    · exact .plain (by simp [opensOperand, hc])
    · exact .plain (by decide)
    · exact .plain (by decide)
  refine spelled_leaf (cuts_unsigned h) ho fun m => ?_
  unfold unsignedToken
  split <;> simp

theorem spelled_number (value : Number) :
    Spelled value.text.toList (numberTokens value.text.toList) := by
  obtain ⟨cs, hcs, h | h⟩ := number_text value
  · have hn : numberTokens cs = [unsignedToken cs] := by
      unfold numberTokens
      split
      · rename_i more
        rcases hcs with ⟨c, more', hc, hd, -⟩ | hc | hc
        · obtain ⟨rfl, -⟩ := List.cons.inj hc
          exact absurd hd (by decide)
        · exact absurd hc (by simp)
        · exact absurd hc (by simp)
      · rfl
    rw [h, hn]
    exact spelled_unsigned hcs
  · have hg : glueMinus [unsignedToken cs] = [.mark "-", unsignedToken cs] := by
      unfold unsignedToken
      split <;> rfl
    rw [h, numberTokens, ← hg]
    exact (spelled_unsigned hcs).minus

theorem spelled_stringLiteral (text : String) :
    Spelled (stringLiteral text).toList [.literal (stringLiteral text)] :=
  spelled_leaf (fun _ => cuts_stringLiteral text _) (by
    rw [stringLiteral, String.toList_append, String.toList_append]
    exact .plain (by decide)) nofun

theorem spelled_charLiteral (text : String) :
    Spelled (charLiteral text).toList [.literal (charLiteral text)] :=
  spelled_leaf (fun _ => cuts_charLiteral text _) (by
    rw [charLiteral, String.toList_append, String.toList_append]
    exact .plain (by decide)) nofun

end Spelled

end C

/-- A format is cut into one literal, and any other argument as the expression it is. -/
theorem cuts_format {print : Bool} {e : Expr} {rest : List Char}
    (h : Cuts e.code.toList e.tokens rest) :
    Cuts ((formatCode? print e).getD e.code).toList
      (((formatCode? print e).map fun code => [Token.literal code]).getD e.tokens) rest := by
  cases hf : formatCode? print e with
  | none => exact h
  | some code =>
    obtain ⟨text, rfl⟩ : ∃ text, code = stringLiteral text := by
      unfold formatCode? at hf
      split at hf
      · split at hf
        · exact ⟨_, (Option.some.inj hf).symm⟩
        · cases hf
      · cases hf
    exact cuts_stringLiteral text rest

/-- All operators of an expression are those of the grammar. -/
def Expr.HasKnownOperators (e : Expr) : Prop := ∀ x ∈ e.nodes, x.hasKnownOperator = true

section KnownOperators

theorem forall_argumentNodes {p : Expr → Prop} : ∀ {es : List Expr},
    (∀ x ∈ argumentNodes es, p x) ↔ ∀ e ∈ es, ∀ x ∈ e.nodes, p x
  | [] => by simp [argumentNodes]
  | e :: es => by
    rw [argumentNodes, List.forall_mem_append, List.forall_mem_cons, forall_argumentNodes]

variable {op : String} {left right operand : Expr} {position : Position}

/-- An expression has known operators if its own is known and so are those of the expressions that
are listed below it. -/
theorem Expr.hasKnownOperators_of_nodes {e : Expr} {below : List Expr} (h : e.nodes = e :: below) :
    e.HasKnownOperators ↔
      e.hasKnownOperator = true ∧ ∀ x ∈ below, x.hasKnownOperator = true := by
  rw [HasKnownOperators, h, List.forall_mem_cons]

theorem Expr.hasKnownOperators_binary : (Expr.binary op left right position).HasKnownOperators ↔
    (∃ ops ∈ Grammar.binaryLevels, op ∈ ops) ∧ left.HasKnownOperators ∧
      right.HasKnownOperators := by
  refine (hasKnownOperators_of_nodes rfl).trans (and_congr ?_ List.forall_mem_append)
  show (Grammar.binaryLevels.any fun ops => ops.contains op) = true ↔ _
  simp only [List.any_eq_true, List.contains_iff_mem]

theorem Expr.hasKnownOperators_prefixed : (Expr.prefixed op operand position).HasKnownOperators ↔
    op ∈ Grammar.prefixOperators ∧ operand.HasKnownOperators :=
  (hasKnownOperators_of_nodes rfl).trans (and_congr_left' List.contains_iff_mem)

theorem Expr.hasKnownOperators_suffixed : (Expr.suffixed op operand position).HasKnownOperators ↔
    op ∈ Grammar.suffixOperators ∧ operand.HasKnownOperators :=
  (hasKnownOperators_of_nodes rfl).trans (and_congr_left' List.contains_iff_mem)

theorem Expr.hasKnownOperators_assign : (Expr.assign left right position).HasKnownOperators ↔
    left.HasKnownOperators ∧ right.HasKnownOperators :=
  (hasKnownOperators_of_nodes rfl).trans ((and_iff_right rfl).trans List.forall_mem_append)

theorem Expr.hasKnownOperators_call {arguments : List Expr} :
    (Expr.call operand arguments position).HasKnownOperators ↔
      operand.HasKnownOperators ∧ ∀ e ∈ arguments, e.HasKnownOperators := by
  refine (hasKnownOperators_of_nodes rfl).trans ((and_iff_right rfl).trans ?_)
  rw [List.forall_mem_append, forall_argumentNodes]
  exact Iff.rfl

theorem Expr.hasKnownOperators_index : (Expr.index left right position).HasKnownOperators ↔
    left.HasKnownOperators ∧ right.HasKnownOperators :=
  (hasKnownOperators_of_nodes rfl).trans ((and_iff_right rfl).trans List.forall_mem_append)

end KnownOperators

mutual

/-- What the grammar derives has its operators. -/
theorem Grammar.Derives.hasKnownOperators : ∀ {tier : Grammar.Tier} {ts : List Token} {e : Expr},
    Grammar.Derives tier ts e → tier.Within Grammar.binaryLevels → e.HasKnownOperators
  | _, _, _, .assign left _ right, _ =>
    Expr.hasKnownOperators_assign.mpr
      ⟨left.hasKnownOperators List.suffix_rfl, right.hasKnownOperators trivial⟩
  | _, _, _, .unassigned whole, _ => whole.hasKnownOperators List.suffix_rfl
  | _, _, _, .operate first sign second, within => by
    have tighter := (List.suffix_cons _ _).trans within
    have hop := (Grammar.isOperator_iff.mp sign).2
    exact Expr.hasKnownOperators_binary.mpr ⟨⟨_, within.subset List.mem_cons_self, hop⟩,
      first.hasKnownOperators within, second.hasKnownOperators tighter⟩
  | _, _, _, .tighter whole, within =>
    whole.hasKnownOperators ((List.suffix_cons _ _).trans within)
  | _, _, _, .operand whole, _ => whole.hasKnownOperators trivial
  | _, _, _, .before sign whole, _ =>
    Expr.hasKnownOperators_prefixed.mpr
      ⟨(Grammar.isOperator_iff.mp sign).2, whole.hasKnownOperators trivial⟩
  | _, _, _, .unprefixed whole, _ => whole.hasKnownOperators trivial
  | _, _, _, .call function _ list _, _ =>
    Expr.hasKnownOperators_call.mpr ⟨function.hasKnownOperators trivial, list.hasKnownOperators⟩
  | _, _, _, .index indexed _ inner _, _ =>
    Expr.hasKnownOperators_index.mpr
      ⟨indexed.hasKnownOperators trivial, inner.hasKnownOperators trivial⟩
  | _, _, _, .after whole sign, _ =>
    Expr.hasKnownOperators_suffixed.mpr
      ⟨(Grammar.isOperator_iff.mp sign).2, whole.hasKnownOperators trivial⟩
  | _, _, _, .unsuffixed whole, _ => whole.hasKnownOperators trivial
  | _, _, _, .number _ _, _ => by simp [Expr.HasKnownOperators, Expr.nodes, Expr.hasKnownOperator]
  | _, _, _, .string _, _ => by simp [Expr.HasKnownOperators, Expr.nodes, Expr.hasKnownOperator]
  | _, _, _, .char _, _ => by simp [Expr.HasKnownOperators, Expr.nodes, Expr.hasKnownOperator]
  | _, _, _, .name _, _ => by simp [Expr.HasKnownOperators, Expr.nodes, Expr.hasKnownOperator]
  | _, _, _, .group _ inner _, _ => inner.hasKnownOperators trivial

theorem Grammar.DerivesList.hasKnownOperators : ∀ {ts : List Token} {es : List Expr},
    Grammar.DerivesList ts es → ∀ e ∈ es, e.HasKnownOperators
  | _, _, .none => List.forall_mem_nil _
  | _, _, .last only => List.forall_mem_singleton.mpr (only.hasKnownOperators trivial)
  | _, _, .more first _ others =>
    List.forall_mem_cons.mpr ⟨first.hasKnownOperators trivial, others.hasKnownOperators⟩

end

mutual

/-- The text of an expression is cut into its tokens. -/
theorem Expr.spelled : ∀ {e : Expr}, e.HasKnownOperators → Spelled e.code.toList e.tokens
  | .binary op left right _, h => by
    obtain ⟨hop, hl, hr⟩ := Expr.hasKnownOperators_binary.mp h
    simpa [Expr.code, Expr.tokens] using (Expr.spelled hl).binary (Expr.spelled hr) hop
  | .prefixed op operand _, h => by
    obtain ⟨hop, ho⟩ := Expr.hasKnownOperators_prefixed.mp h
    rw [Expr.code, Expr.tokens, String.toList_append]
    split
    · subst op
      exact (Expr.spelled ho).minus
    · refine (Expr.spelled ho).prefixed ?_
      simp only [Grammar.prefixOperators, List.mem_cons, List.not_mem_nil, or_false] at hop ⊢
      grind
  | .suffixed op operand _, h => by
    obtain ⟨hop, ho⟩ := Expr.hasKnownOperators_suffixed.mp h
    rw [Expr.code, Expr.tokens, String.toList_append]
    exact (Expr.spelled ho).suffixed hop
  | .assign target value _, h => by
    obtain ⟨ht, hv⟩ := Expr.hasKnownOperators_assign.mp h
    simpa [Expr.code, Expr.tokens] using (Expr.spelled ht).assign (Expr.spelled hv)
  | .call callee arguments _, h => by
    obtain ⟨hc, ha⟩ := Expr.hasKnownOperators_call.mp h
    simpa [Expr.code, Expr.tokens] using (Expr.spelled hc).call (cuts_arguments ha)
  | .index array place _, h => by
    obtain ⟨ha, hp⟩ := Expr.hasKnownOperators_index.mp h
    simpa [Expr.code, Expr.tokens] using (Expr.spelled ha).index (Expr.spelled hp)
  | .name text _, _ => spelled_identifier text
  | .number value _, _ => spelled_number value
  | .string text _, _ => spelled_stringLiteral text
  | .char text _, _ => spelled_charLiteral text

theorem cuts_arguments {print : Bool} : ∀ {es : List Expr}, (∀ e ∈ es, e.HasKnownOperators) →
    ∀ rest : List Char,
    Cuts (", ".intercalate (argumentCodes print es)).toList (argumentTokens print es) (')' :: rest)
  | [], _, _ => Cuts.nil
  | [e], h, rest => by
    have he := h e List.mem_cons_self
    rw [argumentCodes, argumentCodes, argumentTokens, String.intercalate_singleton]
    exact cuts_format ((Expr.spelled he).cuts (ends_cons (by decide) rest))
  | e :: e' :: es, h, rest => by
    obtain ⟨he, hes⟩ := List.forall_mem_cons.mp h
    have hne : argumentCodes false (e' :: es) ≠ [] := by simp [argumentCodes]
    rw [argumentCodes, argumentTokens, String.intercalate_cons_of_ne_nil hne, String.toList_append,
      String.toList_append, List.append_assoc]
    refine (cuts_format ((Expr.spelled he).cuts (ends_cons (by decide) _))).append ?_
    exact (cuts_bracket (m := ",") (by decide) _).append
      (cuts_space.append (cuts_arguments hes rest))

end

theorem Expr.tokens_ne_nil {e : Expr} (h : e.HasKnownOperators) : e.tokens ≠ [] := by
  obtain ⟨t, ht, -⟩ := (Expr.spelled h).solid
  exact List.ne_nil_of_mem ht

end KanaScript
