import KanaScript.Proofs.C.ProgramReadBack

/-! Brackets in the text of an expression.  Outside the literals, each binary node and each call is
written with one pair of parentheses and each indexing with one pair of square brackets; there are
no others, and none is closed before it is opened. -/

namespace KanaScript

namespace C

section Scan

/-- Whether a text is in code or inside a literal, right after a backslash if `escaped`. -/
inductive Mode
  | code
  | literal (quote : Char) (escaped : Bool)

def isQuote (c : Char) : Bool := c == '"' || c == '\''

/-- The mode after a character. -/
def Mode.step : Mode → Char → Mode
  | code, c => if isQuote c then literal c false else code
  | literal quote true, _ => literal quote false
  | literal quote false, c => if c = quote then code else literal quote (c == '\\')

/-- The mode after a text. -/
def Mode.after (mode : Mode) (text : List Char) : Mode := text.foldl step mode

/-- The characters outside the literals of a text, which have their quotes. -/
def outside : Mode → List Char → List Char
  | _, [] => []
  | .code, c :: cs => if isQuote c then outside (.literal c false) cs else c :: outside .code cs
  | .literal quote escaped, c :: cs => outside ((Mode.literal quote escaped).step c) cs

theorem Mode.after_append (mode : Mode) (a b : List Char) :
    mode.after (a ++ b) = (mode.after a).after b := List.foldl_append

theorem Mode.step_code {c : Char} (h : isQuote c = false) : code.step c = code := by
  simp [step, h]

theorem outside_cons {c : Char} (h : isQuote c = false) (text : List Char) :
    outside .code (c :: text) = c :: outside .code text := by
  simp [outside, h]

theorem outside_append (mode : Mode) (a b : List Char) :
    outside mode (a ++ b) = outside mode a ++ outside (mode.after a) b := by
  induction a generalizing mode with
  | nil => cases mode <;> rfl
  | cons c a ih =>
    show _ = _ ++ outside ((mode.step c).after a) b
    cases mode with
    | code =>
      by_cases hc : isQuote c = true
      · simp [outside, Mode.step, hc, ih]
      · simp [outside, Mode.step, hc, ih]
    | literal quote escaped => exact ih _

/-- What stands outside the literals of a beginning stands there in the whole text. -/
theorem outside_isPrefix {front text : List Char} (h : front <+: text) (mode : Mode) :
    outside mode front <+: outside mode text := by
  obtain ⟨rest, rfl⟩ := h
  rw [outside_append]
  exact List.prefix_append _ _

theorem outside_of_unquoted {text : List Char} (h : ∀ c ∈ text, isQuote c = false) :
    Mode.code.after text = .code ∧ outside .code text = text := by
  induction text with
  | nil => exact ⟨rfl, rfl⟩
  | cons c text ih =>
    rw [List.forall_mem_cons] at h
    obtain ⟨hafter, houtside⟩ := ih h.2
    constructor
    · show (Mode.code.step c).after text = .code
      rw [Mode.step_code h.1, hafter]
    · rw [outside_cons h.1, houtside]

/-- The closing quote ends a literal, and no part of it is outside. -/
theorem outside_pieces {quote : Char} (hq : quote ≠ '\\') {pieces : List (List Char)}
    (h : ∀ piece ∈ pieces, Piece quote piece) :
    (Mode.literal quote false).after (pieces.flatten ++ [quote]) = .code ∧
      outside (.literal quote false) (pieces.flatten ++ [quote]) = [] := by
  induction pieces with
  | nil => simp [Mode.after, Mode.step, outside]
  | cons piece pieces ih =>
    rw [List.forall_mem_cons] at h
    -- a piece leaves the literal open, with no backslash that waits for a character
    have hpiece : (Mode.literal quote false).after piece = .literal quote false ∧
        outside (.literal quote false) piece = [] := by
      cases h.1 with
      | plain hc hn hb => simp [Mode.after, Mode.step, outside, hc, beq_false_of_ne hb]
      | escaped hn => simp [Mode.after, Mode.step, outside, hq.symm]
    rw [List.flatten_cons, List.append_assoc, Mode.after_append, outside_append, hpiece.1, hpiece.2]
    exact ih h.2

end Scan

section Matching

/-- The two kinds of brackets in expressions. -/
inductive Brackets
  | round
  | square
deriving DecidableEq

namespace Brackets

def opening : Brackets → Char
  | round => '('
  | square => '['

def closing : Brackets → Char
  | round => ')'
  | square => ']'

theorem not_isQuote (brackets : Brackets) :
    isQuote brackets.opening = false ∧ isQuote brackets.closing = false := by
  cases brackets <;> exact ⟨rfl, rfl⟩

theorem opening_ne_closing (brackets other : Brackets) : brackets.opening ≠ other.closing := by
  cases brackets <;> cases other <;> decide

theorem ne_of_ne {brackets other : Brackets} (h : brackets ≠ other) :
    brackets.opening ≠ other.opening ∧ brackets.closing ≠ other.closing := by
  revert h
  cases brackets <;> cases other <;> decide

end Brackets

/-- Outside its literals, which all end, the text has `n` of the opening brackets and as many of the
closing ones, and no beginning of it closes more than it opens. -/
structure Matched (brackets : Brackets) (n : Nat) (text : List Char) : Prop where
  ends : Mode.code.after text = .code
  opened : (outside .code text).count brackets.opening = n
  closed : (outside .code text).count brackets.closing = n
  nested : ∀ front, front <+: text →
    (outside .code front).count brackets.closing ≤ (outside .code front).count brackets.opening

variable {brackets : Brackets} {m n : Nat} {a b text : List Char}

theorem matched_of_not_mem (ends : Mode.code.after text = .code)
    (hopening : brackets.opening ∉ outside .code text)
    (hclosing : brackets.closing ∉ outside .code text) : Matched brackets 0 text where
  ends := ends
  opened := List.count_eq_zero.mpr hopening
  closed := List.count_eq_zero.mpr hclosing
  nested front hfront := by
    have hpart := outside_isPrefix hfront .code
    rw [List.count_eq_zero.mpr fun hmem => hclosing (hpart.subset hmem)]
    exact Nat.zero_le _

theorem matched_unquoted (hquote : ∀ c ∈ text, isQuote c = false)
    (hopening : brackets.opening ∉ text) (hclosing : brackets.closing ∉ text) :
    Matched brackets 0 text := by
  obtain ⟨ends, houtside⟩ := outside_of_unquoted hquote
  rw [← houtside] at hopening hclosing
  exact matched_of_not_mem ends hopening hclosing

theorem Matched.of_eq (h : Matched brackets m a) (hn : n = m) (htext : b = a) :
    Matched brackets n b := by
  subst hn htext
  exact h

theorem Matched.append (ha : Matched brackets m a) (hb : Matched brackets n b) :
    Matched brackets (m + n) (a ++ b) where
  ends := by rw [Mode.after_append, ha.ends, hb.ends]
  opened := by rw [outside_append, List.count_append, ha.opened, ha.ends, hb.opened]
  closed := by rw [outside_append, List.count_append, ha.closed, ha.ends, hb.closed]
  nested front hfront := by
    rcases List.prefix_or_prefix_of_prefix hfront (List.prefix_append a b) with hshort | ⟨more, rfl⟩
    · exact ha.nested front hshort
    · have hnested := hb.nested more ((List.prefix_append_right_inj a).mp hfront)
      rw [outside_append, List.count_append, List.count_append, ha.ends, ha.closed, ha.opened]
      omega

/-- A pair of brackets around a text. -/
theorem Matched.enclose (h : Matched brackets n text) :
    Matched brackets (n + 1) (brackets.opening :: (text ++ [brackets.closing])) := by
  obtain ⟨hopening, hclosing⟩ := brackets.not_isQuote
  have hne := brackets.opening_ne_closing brackets
  have hlast : outside .code [brackets.closing] = [brackets.closing] := outside_cons hclosing []
  refine ⟨?_, ?_, ?_, ?_⟩
  · show (Mode.code.step brackets.opening).after (text ++ [brackets.closing]) = .code
    rw [Mode.step_code hopening, Mode.after_append, h.ends]
    exact Mode.step_code hclosing
  · rw [outside_cons hopening, outside_append, h.ends, hlast, List.count_cons_self,
      List.count_append, h.opened, List.count_singleton, beq_false_of_ne hne.symm]
    rfl
  · rw [outside_cons hopening, outside_append, h.ends, hlast, List.count_cons_of_ne hne,
      List.count_append, h.closed, List.count_singleton_self]
  · intro front hfront
    cases front with
    | nil => exact Nat.le_refl 0
    | cons c front =>
      obtain ⟨rfl, hrest⟩ := List.cons_prefix_cons.mp hfront
      rw [outside_cons hopening, List.count_cons_self, List.count_cons_of_ne hne]
      rcases List.prefix_or_prefix_of_prefix hrest (List.prefix_append text _) with
        hshort | ⟨more, rfl⟩
      · exact Nat.le_succ_of_le (h.nested front hshort)
      · -- at most the last bracket is left
        have hmore := outside_isPrefix ((List.prefix_append_right_inj text).mp hrest) .code
        have hle := hmore.sublist.count_le brackets.closing
        rw [hlast, List.count_singleton_self] at hle
        rw [outside_append, List.count_append, List.count_append, h.ends, h.closed, h.opened]
        omega

/-- Brackets of the other kind do not count. -/
theorem Matched.enclose_ne (h : Matched brackets n text) {around : Brackets}
    (hne : around ≠ brackets) :
    Matched brackets n (around.opening :: (text ++ [around.closing])) := by
  obtain ⟨hopening, hclosing⟩ := around.not_isQuote
  obtain ⟨hneOpening, hneClosing⟩ := Brackets.ne_of_ne hne
  have hfirst : Matched brackets 0 [around.opening] := by
    apply matched_unquoted
    · simpa using hopening
    · simpa using hneOpening.symm
    · simpa using (around.opening_ne_closing brackets).symm
  have hlast : Matched brackets 0 [around.closing] := by
    apply matched_unquoted
    · simpa using hclosing
    · simpa using brackets.opening_ne_closing around
    · simpa using hneClosing.symm
  simpa using (hfirst.append h).append hlast

theorem Matched.between (h : Matched brackets n text) (around : Brackets) :
    Matched brackets ((if around = brackets then 1 else 0) + n)
      (around.opening :: (text ++ [around.closing])) := by
  by_cases heq : around = brackets
  · subst heq
    rw [if_pos rfl, Nat.add_comm]
    exact h.enclose
  · rw [if_neg heq, Nat.zero_add]
    exact h.enclose_ne heq

end Matching

section Leaves

variable {brackets : Brackets} {text : List Char}

/-- A character that neither is a bracket nor opens a literal. -/
def isInert (c : Char) : Bool := !(['"', '\'', '(', ')', '[', ']'].contains c)

theorem matched_inert (h : ∀ c ∈ text, isInert c = true) : Matched brackets 0 text := by
  have habsent : ∀ c, isInert c = false → c ∉ text := by
    intro c hc hmem
    rw [h c hmem] at hc
    cases hc
  apply matched_unquoted
  · intro c hc
    rw [Bool.eq_false_iff]
    intro hquote
    simp only [isQuote, Bool.or_eq_true, beq_iff_eq] at hquote
    rcases hquote with rfl | rfl
    · exact habsent _ rfl hc
    · exact habsent _ rfl hc
  · exact habsent _ (by cases brackets <;> rfl)
  · exact habsent _ (by cases brackets <;> rfl)

theorem matched_literal {quote : Char} (hq : quote = '"' ∨ quote = '\'')
    {pieces : List (List Char)} (h : ∀ piece ∈ pieces, Piece quote piece) :
    Matched brackets 0 (quote :: (pieces.flatten ++ [quote])) := by
  have hb : quote ≠ '\\' := by rcases hq with rfl | rfl <;> decide
  have hopens : isQuote quote = true := by rcases hq with rfl | rfl <;> rfl
  obtain ⟨hafter, houtside⟩ := outside_pieces hb h
  have hnone : outside .code (quote :: (pieces.flatten ++ [quote])) = [] := by
    simpa [outside, hopens] using houtside
  refine matched_of_not_mem ?_ (by simp [hnone]) (by simp [hnone])
  show (Mode.code.step quote).after _ = .code
  simpa [Mode.step, hopens] using hafter

theorem matched_stringLiteral (text : String) :
    Matched brackets 0 (stringLiteral text).toList := by
  obtain ⟨pieces, hpieces, htext⟩ := exists_pieces_stringLiteral text
  rw [htext]
  exact matched_literal (.inl rfl) hpieces

theorem matched_charLiteral (text : String) : Matched brackets 0 (charLiteral text).toList := by
  obtain ⟨pieces, hpieces, htext⟩ := exists_pieces_charLiteral text
  rw [htext]
  exact matched_literal (.inr rfl) hpieces

/-- The characters of a class are inert if it has none of those that are not. -/
theorem isInert_of_class {p : Char → Bool}
    (hp : (['"', '\'', '(', ')', '[', ']'].all fun d => !p d) = true) {c : Char} (hc : p c = true) :
    isInert c = true := by
  rw [isInert, Bool.not_eq_true', ← Bool.not_eq_true, List.contains_iff_mem]
  intro hmem
  have hnot := List.all_eq_true.mp hp c hmem
  rw [hc] at hnot
  cases hnot

theorem matched_identifier (name : String) : Matched brackets 0 (identifier name).toList := by
  have hname := isIdentifier_identifier name
  apply matched_inert
  cases hcs : (identifier name).toList with
  | nil => exact List.forall_mem_nil _
  | cons c cs =>
    rw [hcs, Text.isIdentifier, Bool.and_eq_true, List.all_eq_true] at hname
    intro d hd
    rcases List.mem_cons.mp hd with rfl | hd
    · exact isInert_of_class (by decide) hname.1
    · exact isInert_of_class (by decide) (hname.2 d hd)

theorem Unsigned.isInert {cs : List Char} (h : Unsigned cs) : ∀ c ∈ cs, isInert c = true := by
  rcases h with ⟨c, more, rfl, hc, hmore⟩ | rfl | rfl
  · intro d hd
    have hdigit : Lexeme.continuesNumber d = true := by
      rcases List.mem_cons.mp hd with rfl | hd
      · simp [Lexeme.continuesNumber, hc]
      · simpa [Lexeme.continuesNumber] using hmore d hd
    exact isInert_of_class (by decide) hdigit
  · simp [C.isInert]
  · simp [C.isInert]

theorem matched_number (value : Number) : Matched brackets 0 value.text.toList := by
  obtain ⟨cs, hcs, htext⟩ := number_text value
  apply matched_inert
  rcases htext with htext | htext
  · rw [htext]
    exact hcs.isInert
  · rw [htext, List.forall_mem_cons]
    exact ⟨rfl, hcs.isInert⟩

end Leaves

end C

open C

section Nodes

/-- The brackets that a node writes. -/
def Expr.brackets? : Expr → Option Brackets
  | .binary _ _ _ _ => some .round
  | .call _ _ _ => some .round
  | .index _ _ _ => some .square
  | _ => none

/-- The nodes that write the brackets. -/
def pairs (brackets : Brackets) (nodes : List Expr) : Nat :=
  nodes.countP fun x => x.brackets? = some brackets

variable {brackets : Brackets}

theorem pairs_append (xs ys : List Expr) :
    pairs brackets (xs ++ ys) = pairs brackets xs + pairs brackets ys := List.countP_append

theorem pairs_cons_none {x : Expr} (h : x.brackets? = none) (xs : List Expr) :
    pairs brackets (x :: xs) = pairs brackets xs := by
  simp [pairs, h]

theorem pairs_cons_some {x : Expr} {around : Brackets} (h : x.brackets? = some around)
    (xs : List Expr) :
    pairs brackets (x :: xs) = (if around = brackets then 1 else 0) + pairs brackets xs := by
  simp [pairs, List.countP_cons, h, Nat.add_comm]

/-- The operators of the grammar are neither brackets nor quotes. -/
theorem isInert_operators :
    (∀ ops ∈ Grammar.binaryLevels, ∀ op ∈ ops, op.toList.all isInert = true) ∧
    (∀ op ∈ Grammar.prefixOperators, op.toList.all isInert = true) ∧
    ∀ op ∈ Grammar.suffixOperators, op.toList.all isInert = true := by decide

theorem matched_operator (brackets : Brackets) {op : String} (h : op.toList.all isInert = true) :
    Matched brackets 0 op.toList := matched_inert (List.all_eq_true.mp h)

/-- An operator between blanks, as a binary node and an assignment have it. -/
theorem matched_spaced (brackets : Brackets) {op : String} (h : op.toList.all isInert = true) :
    Matched brackets 0 (" " ++ op ++ " ").toList := by
  apply matched_inert
  rw [String.toList_append, String.toList_append, List.forall_mem_append, List.forall_mem_append]
  exact ⟨⟨by simp [isInert], List.all_eq_true.mp h⟩, by simp [isInert]⟩

/-- A format is written without brackets, as the string that it is. -/
theorem matched_format {e : Expr} (h : Matched brackets (pairs brackets e.nodes) e.code.toList)
    (print : Bool) :
    Matched brackets (pairs brackets e.nodes) ((formatCode? print e).getD e.code).toList := by
  cases e with
  | string text position =>
    cases print with
    | false => exact h
    | true =>
      rw [Expr.nodes, pairs_cons_none rfl]
      exact matched_stringLiteral (withLineFeed text)
  | _ => exact h

mutual

/-- An expression is written with the brackets of its nodes and no others. -/
theorem Expr.matched : ∀ {e : Expr}, e.HasKnownOperators →
    Matched brackets (pairs brackets e.nodes) e.code.toList
  | .binary op left right _, known => by
    obtain ⟨⟨ops, hops, hop⟩, hl, hr⟩ := Expr.hasKnownOperators_binary.mp known
    have hsign := matched_spaced brackets (isInert_operators.1 ops hops op hop)
    have hnode := ((Expr.matched hl).append (hsign.append (Expr.matched hr))).between .round
    refine hnode.of_eq ?_ ?_
    · rw [Expr.nodes, pairs_cons_some rfl, pairs_append, Nat.zero_add]
    · simp [Expr.code, Brackets.opening, Brackets.closing]
  | .prefixed op operand _, known => by
    obtain ⟨hop, ho⟩ := Expr.hasKnownOperators_prefixed.mp known
    have hsign := matched_operator brackets (isInert_operators.2.1 op hop)
    refine (hsign.append (Expr.matched ho)).of_eq ?_ ?_
    · rw [Expr.nodes, pairs_cons_none rfl, Nat.zero_add]
    · rw [Expr.code, String.toList_append]
  | .suffixed op operand _, known => by
    obtain ⟨hop, ho⟩ := Expr.hasKnownOperators_suffixed.mp known
    have hsign := matched_operator brackets (isInert_operators.2.2 op hop)
    refine ((Expr.matched ho).append hsign).of_eq ?_ ?_
    · rw [Expr.nodes, pairs_cons_none rfl, Nat.add_zero]
    · rw [Expr.code, String.toList_append]
  | .assign target value _, known => by
    obtain ⟨ht, hv⟩ := Expr.hasKnownOperators_assign.mp known
    have hsign := matched_spaced brackets (by decide : "=".toList.all isInert = true)
    refine ((Expr.matched ht).append (hsign.append (Expr.matched hv))).of_eq ?_ ?_
    · rw [Expr.nodes, pairs_cons_none rfl, pairs_append, Nat.zero_add]
    · simp [Expr.code]
  | .call callee arguments _, known => by
    obtain ⟨hc, ha⟩ := Expr.hasKnownOperators_call.mp known
    have hlist := (matched_arguments (isPrint callee) ha).between .round
    refine ((Expr.matched hc).append hlist).of_eq ?_ ?_
    · rw [Expr.nodes, pairs_cons_some rfl, pairs_append, Nat.add_left_comm]
    · simp [Expr.code, Brackets.opening, Brackets.closing]
  | .index array index _, known => by
    obtain ⟨ha, hi⟩ := Expr.hasKnownOperators_index.mp known
    refine ((Expr.matched ha).append ((Expr.matched hi).between .square)).of_eq ?_ ?_
    · rw [Expr.nodes, pairs_cons_some rfl, pairs_append, Nat.add_left_comm]
    · simp [Expr.code, Brackets.opening, Brackets.closing]
  | .name text _, _ => by
    rw [Expr.nodes, pairs_cons_none rfl, Expr.code]
    exact matched_identifier text
  | .number value _, _ => by
    rw [Expr.nodes, pairs_cons_none rfl, Expr.code]
    exact matched_number value
  | .string text _, _ => by
    rw [Expr.nodes, pairs_cons_none rfl, Expr.code]
    exact matched_stringLiteral text
  | .char text _, _ => by
    rw [Expr.nodes, pairs_cons_none rfl, Expr.code]
    exact matched_charLiteral text

theorem matched_arguments : ∀ (print : Bool) {es : List Expr},
    (∀ e ∈ es, e.HasKnownOperators) →
    Matched brackets (pairs brackets (argumentNodes es))
      (", ".intercalate (argumentCodes print es)).toList
  | _, [], _ => matched_inert (List.forall_mem_nil _)
  | print, [e], known => by
    rw [List.forall_mem_singleton] at known
    refine (matched_format (Expr.matched known) print).of_eq ?_ ?_
    · simp [argumentNodes]
    · simp [argumentCodes]
  | print, e :: e' :: es, known => by
    rw [List.forall_mem_cons] at known
    have hcomma : Matched brackets 0 [',', ' '] := matched_inert (by simp [isInert])
    have hothers := matched_arguments false known.2
    have hfirst := matched_format (Expr.matched known.1) print
    refine (hfirst.append (hcomma.append hothers)).of_eq ?_ ?_
    · rw [argumentNodes, pairs_append, Nat.zero_add]
    · rw [argumentCodes, String.intercalate_cons_of_ne_nil (by simp [argumentCodes])]
      simp

end

end Nodes

section Parsed

def Expr.isBinary : Expr → Bool
  | .binary _ _ _ _ => true
  | _ => false

def Expr.isCall : Expr → Bool
  | .call _ _ _ => true
  | _ => false

def Expr.isIndex : Expr → Bool
  | .index _ _ _ => true
  | _ => false

/-- The expression was read from the source: by itself, somewhere in it, or as a part of the
program. -/
inductive Expr.ReadFrom (source : String) (e : Expr) : Prop
  | expression {ts rest : List Token} (within : ts <:+ tokenize source)
      (read : (Grammar.expression ts).Yields e rest)
  | program {program : Program} {s : Stmt} (parsed : parse (tokenize source) = .ok program)
      (statement : s ∈ program.statements) (part : e ∈ s.expressions)

theorem Expr.ReadFrom.hasKnownOperators {source : String} {e : Expr} (h : e.ReadFrom source) :
    e.HasKnownOperators := by
  cases h with
  | expression within read =>
    obtain ⟨used, -, derived, -⟩ := Grammar.yields_expression_iff.mp read
    exact derived.hasKnownOperators trivial
  | @program program s parsed statement part =>
    have known := hasKnownParts_of_parse (hasKnownTypes_tokenize source) parsed
    obtain ⟨d, hd, hs⟩ := List.mem_flatMap.mp statement
    exact ((known d hd).2 s hs).1 e part

theorem pairs_round (nodes : List Expr) :
    pairs .round nodes = nodes.countP Expr.isBinary + nodes.countP Expr.isCall := by
  induction nodes with
  | nil => rfl
  | cons x nodes ih =>
    simp only [pairs, List.countP_cons] at ih ⊢
    rw [ih]
    cases x <;> simp [Expr.brackets?, Expr.isBinary, Expr.isCall] <;> omega

theorem pairs_square (nodes : List Expr) : pairs .square nodes = nodes.countP Expr.isIndex := by
  refine List.countP_congr fun x _ => ?_
  cases x <;> simp [Expr.brackets?, Expr.isIndex]

/-- Every expression that was read is written with one pair of parentheses for each binary node and
each call, one pair of square brackets for each indexing, and no other brackets outside its
literals. -/
theorem brackets_of_readFrom {source : String} {e : Expr} (read : e.ReadFrom source) :
    Matched .round (e.nodes.countP Expr.isBinary + e.nodes.countP Expr.isCall) e.code.toList ∧
      Matched .square (e.nodes.countP Expr.isIndex) e.code.toList := by
  have known := read.hasKnownOperators
  constructor
  · rw [← pairs_round]
    exact Expr.matched known
  · rw [← pairs_square]
    exact Expr.matched known

/-- The brackets inside the string of `printf(")(", a[a + b])` do not count. -/
theorem brackets_of_readFrom_quoted : ∃ e : Expr, e.ReadFrom "ジョウジ(「)(」、ガ[ガ ダグ ダ])" ∧
    e.code = "printf(\")(\\n\", ga[(ga + da)])" ∧
    Matched .round 2 e.code.toList ∧ Matched .square 1 e.code.toList := by
  have tokens : tokenize "ジョウジ(「)(」、ガ[ガ ダグ ダ])" =
      [⟨.controlKeyword, .text "printf", ⟨1, 1⟩⟩, ⟨.openParen, .text "(", ⟨1, 5⟩⟩,
        ⟨.stringLiteral, .text ")(", ⟨1, 6⟩⟩, ⟨.comma, .text ",", ⟨1, 10⟩⟩,
        ⟨.identifier, .text "ガ", ⟨1, 11⟩⟩, ⟨.openBracket, .text "[", ⟨1, 12⟩⟩,
        ⟨.identifier, .text "ガ", ⟨1, 13⟩⟩, ⟨.operator, .text "+", ⟨1, 15⟩⟩,
        ⟨.identifier, .text "ダ", ⟨1, 18⟩⟩, ⟨.closeBracket, .text "]", ⟨1, 19⟩⟩,
        ⟨.closeParen, .text ")", ⟨1, 20⟩⟩, ⟨.eof, .none, ⟨1, 21⟩⟩] := by decide +kernel
  have parsed : parse (tokenize "ジョウジ(「)(」、ガ[ガ ダグ ダ])") = .ok [.statement (.expression
      (.call (.name "printf" ⟨1, 1⟩) [.string ")(" ⟨1, 6⟩, .index (.name "ガ" ⟨1, 11⟩)
        (.binary "+" (.name "ガ" ⟨1, 13⟩) (.name "ダ" ⟨1, 18⟩) ⟨1, 13⟩) ⟨1, 11⟩] ⟨1, 1⟩)
      ⟨1, 1⟩)] := by
    rw [tokens]
    cbv
  have read := Expr.ReadFrom.program parsed List.mem_cons_self List.mem_cons_self
  obtain ⟨hround, hsquare⟩ := brackets_of_readFrom read
  exact ⟨_, read, by decide +kernel, hround, hsquare⟩

end Parsed

end KanaScript
