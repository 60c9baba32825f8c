import KanaScript.Proofs.C.ProgramOutline

/-! The text of a program is cut into the tokens of its outline, line by line.  A line starts
afresh, so that the directives at the top are passed over. -/

namespace KanaScript

namespace C

section Lines

/-- Nothing of the line is left. -/
def EndsLine (rest : List Char) : Prop := ∀ c ∈ rest.head?, c = '\n'

theorem EndsLine.ends {rest : List Char} (h : EndsLine rest) : Ends rest := by
  intro c hc
  rw [h c hc]
  decide

theorem EndsLine.tokens?_eq {rest : List Char} (h : EndsLine rest) :
    tokens? true rest = tokens? false rest := by
  cases rest with
  | nil => rw [tokens?, tokens?]
  | cons c rest =>
    obtain rfl := h c rfl
    rw [tokens?, tokens?]
    simp [isSpace]

/-- The line is cut into the tokens, whatever lines follow. -/
def LineCuts (line : String) (ts : List Token) : Prop :=
  ∀ rest, EndsLine rest →
    tokens? true (line.toList ++ rest) = (tokens? true rest).map fun others => ts ++ others

theorem lineCuts_empty : LineCuts "" [] := by
  intro rest _
  simp

theorem lineCuts_directive {line : String} {cs : List Char} (h : line.toList = '#' :: cs)
    (hcs : ∀ c ∈ cs, c ≠ '\n') : LineCuts line [] := by
  intro rest hr
  have htail : (cs ++ rest).takeWhile (· != '\n') = cs :=
    Text.IsRun.takeWhile_append ⟨fun c hc => by simpa using hcs c hc, fun c hc => by simp [hr c hc]⟩
  rw [h, List.cons_append, tokens?]
  simp [isSpace, htail, hr.tokens?_eq]

theorem tokens?_blanks (fresh : Bool) (n : Nat) (cs : List Char) :
    tokens? fresh (List.replicate n ' ' ++ cs) = tokens? fresh cs := by
  induction n with
  | zero => rfl
  | succ n ih =>
    rw [List.replicate_succ, List.cons_append, tokens?]
    simpa [isSpace] using ih

theorem toList_pushn (c : Char) (n : Nat) : ("".pushn c n).toList = List.replicate n c := by
  rw [String.pushn_eq_repeat_push]
  induction n with
  | zero => rfl
  | succ n ih => simp [Nat.repeat, ih, List.replicate_succ']

theorem lineCuts_line (level : Nat) {code : String} {ts : List Token} (leads : Leads code.toList)
    (cuts : ∀ {rest}, EndsLine rest → Cuts code.toList ts rest) :
    LineCuts (line level code) ts := by
  intro rest hr
  have hcuts : tokens? false (code.toList ++ rest) = _ := cuts hr
  rw [line, String.toList_append, toList_pushn, List.append_assoc, tokens?_blanks,
    (leads.append rest).tokens?_eq, hcuts, hr.tokens?_eq]

/-- The lines are cut into the tokens, one after the other. -/
inductive Lines : List String → List Token → Prop
  | nil : Lines [] []
  | cons {line : String} {lines : List String} {ts us : List Token} (first : LineCuts line ts)
      (others : Lines lines us) : Lines (line :: lines) (ts ++ us)

theorem Lines.append {a b : List String} {ts us : List Token} (ha : Lines a ts) (hb : Lines b us) :
    Lines (a ++ b) (ts ++ us) := by
  induction ha with
  | nil => exact hb
  | cons first others ih =>
    rw [List.append_assoc]
    exact .cons first ih

theorem lines_singleton {line : String} {ts : List Token} (h : LineCuts line ts) :
    Lines [line] ts := by
  simpa using Lines.cons h .nil

theorem Lines.tokens?_eq {lines : List String} {ts : List Token} (h : Lines lines ts)
    (hne : lines ≠ []) : tokens? true ("\n".intercalate lines).toList = some ts := by
  induction h with
  | nil => exact absurd rfl hne
  | @cons line lines ts us first others ih =>
    cases lines with
    | nil =>
      cases others
      have h := first [] (by simp [EndsLine])
      rw [String.intercalate_singleton, ← List.append_nil line.toList, h, tokens?]
      simp
    | cons line' lines =>
      -- The break belongs to no token, and the line after it is fresh.
      have hbreak :
          tokens? true ('\n' :: ("\n".intercalate (line' :: lines)).toList) = some us := by
        rw [tokens?]
        simpa [isSpace] using ih (by simp)
      have h := first ('\n' :: ("\n".intercalate (line' :: lines)).toList) (by simp [EndsLine])
      rw [String.intercalate_cons_of_ne_nil (by simp), String.toList_append, String.toList_append,
        List.append_assoc]
      exact h.trans (by rw [hbreak]; rfl)

end Lines

section Phrases

/-- The code is cut into the tokens, and may start a line. -/
structure Phrase (code : List Char) (ts : List Token) : Prop where
  leads : Leads code
  cuts : ∀ {rest : List Char}, Ends rest → Cuts code ts rest

theorem phrase_word {w : String} (h : Text.isIdentifier w.toList = true) :
    Phrase w.toList [.word w] := by
  refine ⟨?_, fun hr => by simpa using cuts_word h hr⟩
  cases hcs : w.toList with
  | nil => simp [hcs, Text.isIdentifier] at h
  | cons c cs =>
    simp only [hcs, Text.isIdentifier, Bool.and_eq_true] at h
    refine ⟨c, cs, rfl, isSpace_eq_false h.1 (by decide), ?_, ?_⟩
    · rintro rfl
      exact absurd h.1 (by decide)
    · rintro rfl
      exact absurd h.1 (by decide)

theorem Spelled.phrase {code : List Char} {ts : List Token} (h : Spelled code ts) :
    Phrase code ts :=
  ⟨h.opens.leads, h.cuts⟩

theorem phrase_cons {w : String} {code : List Char} {ts : List Token}
    (h : Text.isIdentifier w.toList = true) (hc : ∀ {rest}, Ends rest → Cuts code ts rest) :
    Phrase (w.toList ++ (" ".toList ++ code)) (.word w :: ts) := by
  have hw := phrase_word h
  refine ⟨hw.leads.append _, fun hr => ?_⟩
  exact (hw.cuts (ends_cons (by decide) _)).append (cuts_space.append (hc hr))

theorem Phrase.lineCuts {code : String} {cs : List Char} {ts : List Token} (h : Phrase cs ts)
    (hcode : code.toList = cs) (level : Nat) : LineCuts (line level code) ts := by
  subst cs
  exact lineCuts_line level h.leads fun hr => h.cuts hr.ends

theorem Phrase.lineCuts_semicolon {code : String} {ts : List Token} (h : Phrase code.toList ts)
    (level : Nat) : LineCuts (line level (code ++ ";")) (ts ++ [.mark ";"]) := by
  refine lineCuts_line level ?_ fun {rest} _ => ?_
  · rw [String.toList_append]
    exact h.leads.append _
  · rw [String.toList_append]
    exact (h.cuts (ends_cons (by decide) _)).append (cuts_bracket (m := ";") (by decide) rest)

theorem Phrase.lineCuts_colon {code : String} {ts : List Token} (h : Phrase code.toList ts)
    (level : Nat) : LineCuts (line level (code ++ ":")) (ts ++ [.mark ":"]) := by
  have hcolon : ∀ {rest}, EndsLine rest → Cuts ":".toList [.mark ":"] rest := by
    intro rest hr
    cases rest with
    | nil => exact cuts_mark rfl (by decide) rfl rfl
    | cons c rest =>
      obtain rfl := hr c rfl
      exact cuts_mark rfl (by decide) rfl rfl
  refine lineCuts_line level ?_ fun {rest} hr => ?_
  · rw [String.toList_append]
    exact h.leads.append _
  · rw [String.toList_append]
    exact (h.cuts (ends_cons (by decide) _)).append (hcolon hr)

theorem lineCuts_brace {m : String} (h : m ∈ ["\x7b", "\x7d"]) (level : Nat) :
    LineCuts (line level m) [.mark m] := by
  simp only [List.mem_cons, List.not_mem_nil, or_false] at h
  rcases h with rfl | rfl
  · exact lineCuts_line level ⟨_, _, rfl, by decide⟩ fun _ => cuts_bracket (by decide) _
  · exact lineCuts_line level ⟨_, _, rfl, by decide⟩ fun _ => cuts_bracket (by decide) _

/-- Lines between braces on lines of their own. -/
theorem Lines.braced {lines : List String} {ts : List Token} (h : Lines lines ts) (level : Nat) :
    Lines (line level "\x7b" :: (lines ++ [line level "\x7d"]))
      (.mark "\x7b" :: (ts ++ [.mark "\x7d"])) :=
  .cons (lineCuts_brace (by decide) level)
    (h.append (lines_singleton (lineCuts_brace (by decide) level)))

/-- A word with a group in parentheses after it. -/
theorem phrase_headed {w : String} {code : List Char} {ts : List Token}
    (hw : Text.isIdentifier w.toList = true) (hc : ∀ rest, Cuts code ts (')' :: rest)) :
    Phrase (w.toList ++ (" (".toList ++ (code ++ ")".toList))) (.word w :: inParentheses ts) := by
  show Phrase (w.toList ++ (" ".toList ++ ("(".toList ++ (code ++ ")".toList)))) _
  refine phrase_cons hw fun _ => ?_
  exact (cuts_bracket (m := "(") (by decide) _).append
    ((hc _).append (cuts_bracket (m := ")") (by decide) _))

end Phrases

end C

open C

section Statements

theorem isIdentifier_type {type : String} (h : type ∈ typeSpellings) :
    Text.isIdentifier type.toList = true :=
  (by decide : ∀ type ∈ typeSpellings, Text.isIdentifier type.toList = true) type h

theorem Expr.phrase {e : Expr} (h : e.HasKnownOperators) : Phrase e.code.toList e.tokens :=
  (Expr.spelled h).phrase

/-- The type and the name of a variable are written as its declarator, and its value after it. -/
theorem Variable.exists_declarator {v : Variable} (h : v.HasKnownType) :
    ∃ code : String, Phrase code.toList v.declarator ∧
      v.code = (v.init.map fun init => code ++ " = " ++ init.code).getD code := by
  have hname : ∀ {rest : List Char}, Ends rest →
      Cuts (identifier v.name).toList [.word (identifier v.name)] rest :=
    fun hr => (phrase_word (isIdentifier_identifier v.name)).cuts hr
  obtain ⟨type, ht, ⟨helement, htype, hd⟩ | ⟨helement, hd⟩⟩ := Variable.declarator_cases h
  · refine ⟨type ++ " " ++ identifier v.name, ?_, ?_⟩
    · rw [hd, String.toList_append, String.toList_append, List.append_assoc]
      exact phrase_cons (isIdentifier_type ht) hname
    · simp only [Variable.code, helement, htype]
      cases v.init <;> rfl
  · have hbrackets : ∀ {rest : List Char}, Cuts arraySuffix.toList [.mark "[", .mark "]"] rest :=
      (cuts_bracket (m := "[") (by decide) _).append (cuts_bracket (m := "]") (by decide) _)
    refine ⟨type ++ " " ++ identifier v.name ++ arraySuffix, ?_, ?_⟩
    · simp only [hd, String.toList_append, List.append_assoc]
      exact phrase_cons (isIdentifier_type ht) fun _ =>
        (hname (ends_cons (by decide) _)).append hbrackets
    · simp only [Variable.code, helement]
      cases v.init <;> rfl

theorem Variable.phrase {v : Variable} (h : (Stmt.declare v).HasKnownParts) :
    Phrase v.code.toList v.tokens := by
  obtain ⟨ht, hi⟩ := Stmt.hasKnownParts_declare.mp h
  obtain ⟨code, hd, hcode⟩ := Variable.exists_declarator ht
  rw [hcode, Variable.tokens]
  cases he : v.init with
  | none => simpa using hd
  | some e =>
    rw [Option.map_some, Option.map_some, Option.getD_some, Option.getD_some]
    have hcuts : ∀ {rest : List Char}, Ends rest →
        Cuts (code.toList ++ (" ".toList ++ ("=".toList ++ (" ".toList ++ e.code.toList))))
          (v.declarator ++ .mark "=" :: e.tokens) rest := fun hr =>
      (hd.cuts (ends_cons (by decide) _)).append (cuts_space.append
        ((cuts_spaced (m := "=") (by decide) _).append
          (cuts_space.append ((Expr.phrase (hi e he)).cuts hr))))
    refine ⟨?_, fun hr => by simpa using hcuts hr⟩
    rw [String.toList_append, String.toList_append, List.append_assoc]
    exact hd.leads.append _

theorem cuts_optional {e : Option Expr} (h : ∀ x ∈ e, x.HasKnownOperators) {rest : List Char}
    (hr : Ends rest) : Cuts (optionalCode e).toList (optionalTokens e) rest := by
  cases e with
  | none => exact Cuts.nil
  | some e => exact (Expr.phrase (h e rfl)).cuts hr

theorem cuts_forClauses {init : Option ForInit} {condition update : Option Expr} {body : Stmt}
    {position : Position} (h : (Stmt.forLoop init condition update body position).HasKnownParts)
    (rest : List Char) :
    Cuts (((init.map ForInit.code).getD "").toList ++ ("; ".toList ++
        ((optionalCode condition).toList ++ ("; ".toList ++ (optionalCode update).toList))))
      ((init.map ForInit.tokens).getD [] ++ .mark ";" ::
        (optionalTokens condition ++ .mark ";" :: optionalTokens update)) (')' :: rest) := by
  obtain ⟨hi, hc, hu⟩ := Stmt.hasKnownParts_forLoop.mp h
  have hinit : ∀ {rest : List Char}, Ends rest →
      Cuts ((init.map ForInit.code).getD "").toList ((init.map ForInit.tokens).getD []) rest := by
    intro rest hr
    match init with
    | none => exact Cuts.nil
    | some (.declare v) => exact (Variable.phrase (hi (.declare v) rfl)).cuts hr
    | some (.expression e) => exact (Expr.phrase (hi (.expression e) rfl)).cuts hr
  have hsemicolon : ∀ rest : List Char, Cuts "; ".toList [.mark ";"] rest := fun rest =>
    (cuts_bracket (m := ";") (by decide) _).append cuts_space
  exact (hinit (ends_cons (by decide) _)).append ((hsemicolon _).append
    ((cuts_optional hc (ends_cons (by decide) _)).append ((hsemicolon _).append
      (cuts_optional hu (ends_cons (by decide) _)))))

/-- What may stand in front of a statement on its line: only an `if` may have an `else` there. -/
inductive Lead : Stmt → String → List C.Token → Prop
  | none {s : Stmt} : Lead s "" []
  | afterElse {condition : Expr} {consequent : Stmt} {alternative : Option Stmt}
      {position : Position} :
      Lead (.ifElse condition consequent alternative position) "else " [.word "else"]

theorem Lead.of_isIf {s : Stmt} (h : s.isIf = true) : Lead s "else " [.word "else"] := by
  cases s with
  | ifElse condition consequent alternative position => exact .afterElse
  | _ => cases h

theorem phrase_condition {w : String} {e : Expr} (hw : Text.isIdentifier w.toList = true)
    (h : e.HasKnownOperators) :
    Phrase (w.toList ++ (" (".toList ++ (e.code.toList ++ ")".toList)))
      (.word w :: inParentheses e.tokens) :=
  phrase_headed hw fun rest => (Expr.phrase h).cuts (ends_cons (by decide) rest)

theorem lineCuts_if (level : Nat) {s : Stmt} {lead : String} {us : List C.Token} {e : Expr}
    (hl : Lead s lead us) (h : e.HasKnownOperators) :
    LineCuts (line level (lead ++ "if (" ++ e.code ++ ")"))
      (us ++ .word "if" :: inParentheses e.tokens) := by
  have hif := phrase_condition (w := "if") (by decide) h
  cases hl with
  | none => exact hif.lineCuts (by simp) level
  | afterElse =>
    have helse := phrase_cons (w := "else") (by decide) hif.cuts
    exact helse.lineCuts (by simp) level

theorem itemsTokens_append (a b : List Item) :
    itemsTokens (a ++ b) = itemsTokens a ++ itemsTokens b := by
  induction a with
  | nil => simp [itemsTokens]
  | cons item a ih => simp [itemsTokens, ih]

mutual

/-- The lines of a statement are cut into the tokens of its outline. -/
theorem Stmt.lines_cut : ∀ {s : Stmt}, (∀ x ∈ s.nodes, x.HasKnownParts) →
    ∀ (level : Nat) {lead : String} {us : List C.Token}, Lead s lead us →
    Lines (s.lines level lead) (us ++ s.outline.tokens)
  | .ifElse condition consequent none _, h, level, _, _, hl => by
    simp only [Stmt.nodes, List.forall_mem_cons] at h
    have hc := h.1.1 condition List.mem_cons_self
    have hs := Stmt.lines_cut h.2 (consequent.bodyLevel level) .none
    rw [Stmt.lines, Stmt.outline]
    simpa [Outline.tokens] using Lines.cons (lineCuts_if level hl hc) hs
  | .ifElse condition consequent (some alternative) _, h, level, _, _, hl => by
    simp only [Stmt.nodes, List.forall_mem_cons, List.forall_mem_append] at h
    have hc := h.1.1 condition List.mem_cons_self
    have hs := Stmt.lines_cut h.2.1 (consequent.bodyLevel level) .none
    have helse := (phrase_word (w := "else") (by decide)).lineCuts rfl level
    have ha : Lines (if alternative.isIf then alternative.lines level "else "
        else line level "else" :: alternative.lines (alternative.bodyLevel level) "")
        (.word "else" :: alternative.outline.tokens) := by
      -- An `if` goes on with the line of the `else`, and anything else starts a line.
      split
      · exact Stmt.lines_cut h.2.2 level (.of_isIf ‹_›)
      · exact .cons helse (Stmt.lines_cut h.2.2 (alternative.bodyLevel level) .none)
    rw [Stmt.lines, Stmt.outline]
    simpa [Outline.tokens] using Lines.cons (lineCuts_if level hl hc) (hs.append ha)
  | .block statements _, h, level, _, _, .none => by
    simp only [Stmt.nodes, List.forall_mem_cons] at h
    rw [Stmt.lines, Stmt.outline, Outline.tokens, List.nil_append]
    exact (lines_cut_statements h.2 (level + 1)).braced level
  | .declare v, h, level, _, _, .none => by
    simp only [Stmt.nodes, List.forall_mem_singleton] at h
    rw [Stmt.lines, Stmt.outline, Outline.tokens, List.nil_append]
    exact lines_singleton ((Variable.phrase h).lineCuts_semicolon level)
  | .whileLoop condition body _, h, level, _, _, .none => by
    simp only [Stmt.nodes, List.forall_mem_cons] at h
    have hc := phrase_condition (w := "while") (by decide) (h.1.1 condition List.mem_cons_self)
    have hb := Stmt.lines_cut h.2 (body.bodyLevel level) .none
    rw [Stmt.lines, Stmt.outline, Outline.tokens, List.nil_append]
    exact .cons (hc.lineCuts (by simp) level) hb
  | .forLoop init condition update body _, h, level, _, _, .none => by
    simp only [Stmt.nodes, List.forall_mem_cons] at h
    have hc := phrase_headed (w := "for") (by decide) (cuts_forClauses h.1)
    have hb := Stmt.lines_cut h.2 (body.bodyLevel level) .none
    rw [Stmt.lines, Stmt.outline, Outline.tokens, List.nil_append]
    exact .cons (hc.lineCuts (by simp) level) hb
  | .switch subject cases none _, h, level, _, _, .none => by
    simp only [Stmt.nodes, List.forall_mem_cons] at h
    obtain ⟨⟨he, -⟩, hcases⟩ := h
    simp only [Stmt.expressions, List.forall_mem_cons, List.forall_mem_map] at he
    have hhead := phrase_condition (w := "switch") (by decide) he.1
    rw [Stmt.lines, Stmt.outline, Outline.tokens, Outline.tokens, List.nil_append]
    exact .cons (hhead.lineCuts (by simp) level)
      ((lines_cut_clauses he.2 hcases level).braced level)
  | .switch subject cases (some fallback) _, h, level, _, _, .none => by
    simp only [Stmt.nodes, List.forall_mem_cons, List.forall_mem_append] at h
    obtain ⟨⟨he, -⟩, hcases, hfallback⟩ := h
    simp only [Stmt.expressions, List.forall_mem_cons, List.forall_mem_map] at he
    have hhead := phrase_condition (w := "switch") (by decide) he.1
    have hclauses := lines_cut_clauses he.2 hcases level
    have hdefault := (phrase_word (w := "default") (by decide)).lineCuts_colon level
    have hitems := hclauses.append (.cons hdefault (lines_cut_statements hfallback (level + 1)))
    rw [Stmt.lines, Stmt.outline, Outline.tokens, Outline.tokens, List.nil_append,
      itemsTokens_append, itemsTokens, Item.tokens]
    refine .cons (hhead.lineCuts (by simp) level) ?_
    simpa using hitems.braced level
  | .returns none _, _, level, _, _, .none => by
    rw [Stmt.lines, Stmt.outline, Outline.tokens, List.nil_append]
    exact lines_singleton ((phrase_word (w := "return") (by decide)).lineCuts_semicolon level)
  | .returns (some value) _, h, level, _, _, .none => by
    simp only [Stmt.nodes, List.forall_mem_singleton] at h
    have hvalue := Expr.phrase (h.1 value List.mem_cons_self)
    have hp : Phrase ("return " ++ value.code).toList (.word "return" :: value.tokens) := by
      simpa using phrase_cons (w := "return") (by decide) hvalue.cuts
    rw [Stmt.lines, Stmt.outline, Outline.tokens, List.nil_append]
    exact lines_singleton (hp.lineCuts_semicolon level)
  | .breaks _, _, level, _, _, .none => by
    rw [Stmt.lines, Stmt.outline, Outline.tokens, List.nil_append]
    exact lines_singleton ((phrase_word (w := "break") (by decide)).lineCuts_semicolon level)
  | .continues _, _, level, _, _, .none => by
    rw [Stmt.lines, Stmt.outline, Outline.tokens, List.nil_append]
    exact lines_singleton ((phrase_word (w := "continue") (by decide)).lineCuts_semicolon level)
  | .expression e _, h, level, _, _, .none => by
    simp only [Stmt.nodes, List.forall_mem_singleton] at h
    rw [Stmt.lines, Stmt.outline, Outline.tokens, List.nil_append]
    exact lines_singleton ((Expr.phrase (h.1 e List.mem_cons_self)).lineCuts_semicolon level)

theorem lines_cut_statements : ∀ {ss : List Stmt}, (∀ x ∈ statementNodes ss, x.HasKnownParts) →
    ∀ level : Nat, Lines (statementLines level ss) (itemsTokens (statementItems ss))
  | [], _, _ => by
    rw [statementLines, statementItems, itemsTokens]
    exact .nil
  | s :: ss, h, level => by
    simp only [statementNodes, List.forall_mem_append] at h
    rw [statementLines, statementItems, itemsTokens, Item.tokens]
    exact (Stmt.lines_cut h.1 level .none).append (lines_cut_statements h.2 level)

theorem lines_cut_clauses : ∀ {cs : List Clause}, (∀ c ∈ cs, c.value.HasKnownOperators) →
    (∀ x ∈ clauseNodes cs, x.HasKnownParts) →
    ∀ level : Nat, Lines (clauseLines level cs) (itemsTokens (clauseItems cs))
  | [], _, _, _ => by
    rw [clauseLines, clauseItems, itemsTokens]
    exact .nil
  | .case value statements _ :: cs, hv, h, level => by
    simp only [clauseNodes, List.forall_mem_append] at h
    rw [List.forall_mem_cons] at hv
    have hvalue : value.HasKnownOperators := hv.1
    have hp : Phrase ("case " ++ value.code).toList (.word "case" :: value.tokens) := by
      simpa using phrase_cons (w := "case") (by decide) (Expr.phrase hvalue).cuts
    have hstatements := lines_cut_statements h.1 (level + 1)
    have hothers := lines_cut_clauses hv.2 h.2 level
    rw [clauseLines, clauseItems, itemsTokens, Item.tokens, itemsTokens_append]
    exact .cons (hp.lineCuts_colon level) (hstatements.append hothers)

end

end Statements

section Programs

theorem Parameter.phrase {p : Parameter} (h : p.typeName ∈ typeSpellings) :
    Phrase (p.typeName ++ " " ++ identifier p.name).toList p.tokens := by
  rw [String.toList_append, String.toList_append, List.append_assoc]
  exact phrase_cons (isIdentifier_type h) (phrase_word (isIdentifier_identifier p.name)).cuts

theorem cuts_parameters : ∀ {ps : List Parameter}, (∀ p ∈ ps, p.typeName ∈ typeSpellings) →
    ∀ rest : List Char,
    Cuts (", ".intercalate (ps.map fun p => p.typeName ++ " " ++ identifier p.name)).toList
      (parameterTokens ps) (')' :: rest)
  | [], _, _ => Cuts.nil
  | [p], h, rest => by
    rw [List.map_singleton, String.intercalate_singleton, parameterTokens]
    exact (Parameter.phrase (h p List.mem_cons_self)).cuts (ends_cons (by decide) rest)
  | p :: p' :: ps, h, rest => by
    rw [List.forall_mem_cons] at h
    have hcomma : ∀ rest : List Char, Cuts ", ".toList [.mark ","] rest := fun rest =>
      (cuts_bracket (m := ",") (by decide) _).append cuts_space
    rw [List.map_cons, String.intercalate_cons_of_ne_nil (by simp), parameterTokens,
      String.toList_append, String.toList_append, List.append_assoc]
    exact ((Parameter.phrase h.1).cuts (ends_cons (by decide) _)).append
      ((hcomma _).append (cuts_parameters h.2 rest))

theorem Function.phrase_header {f : Function} (h : (Declaration.function f).HasKnownHeader) :
    Phrase f.header.toList f.headerTokens := by
  obtain ⟨hreturn, hparameters⟩ := h
  have hname := phrase_word (isIdentifier_identifier f.name)
  have hinner : ∀ rest, Cuts (if f.parameters.isEmpty && f.name == entryPoint then "void"
      else ", ".intercalate
        (f.parameters.map fun p => p.typeName ++ " " ++ identifier p.name)).toList
      (if f.parameters.isEmpty && f.name == entryPoint then [.word "void"]
        else parameterTokens f.parameters) (')' :: rest) := by
    intro rest
    split
    · exact (phrase_word (w := "void") (by decide)).cuts (ends_cons (by decide) rest)
    · exact cuts_parameters hparameters rest
  have hafter : ∀ {rest : List Char}, Ends rest → Cuts _ _ rest := fun _ =>
    (hname.cuts (ends_cons (by decide) _)).append ((cuts_bracket (m := "(") (by decide) _).append
      ((hinner _).append (cuts_bracket (m := ")") (by decide) _)))
  have hp := phrase_cons (isIdentifier_type hreturn) hafter
  simpa [Function.header, Function.headerTokens, inParentheses] using hp

theorem Declaration.lines_cut {d : Declaration} (h : d.HasKnownParts) :
    Lines d.lines d.outline.tokens := by
  obtain ⟨hheader, hnodes⟩ := h
  cases d with
  | function f =>
    have hp := Function.phrase_header hheader
    have hbody := (lines_cut_statements hnodes 1).braced 0
    rw [Declaration.lines, Function.lines, Stmt.lines]
    exact .cons (hp.lineCuts rfl 0) hbody
  | global v =>
    have hp := Variable.phrase (hnodes (.declare v) List.mem_cons_self)
    exact lines_singleton (hp.lineCuts_semicolon 0)
  | statement s => exact Stmt.lines_cut hnodes 0 .none

theorem lines_preamble : Lines preamble [] := by
  have directive : ∀ line ∈ preamble.take 3, LineCuts line [] := by
    intro line hline
    have hcs : ∀ line ∈ preamble.take 3,
        line.toList.head? = some '#' ∧ '\n' ∉ line.toList := by decide
    obtain ⟨hhead, hbreak⟩ := hcs line hline
    obtain ⟨cs, hcs⟩ := List.head?_eq_some_iff.1 hhead
    refine lineCuts_directive hcs fun c hc heq => hbreak ?_
    rw [hcs, ← heq]
    exact List.mem_cons_of_mem _ hc
  exact .cons (directive _ (by decide)) (.cons (directive _ (by decide))
    (.cons (directive _ (by decide)) (lines_singleton lineCuts_empty)))

/-- The text of a program is cut into the tokens of its outline. -/
theorem Program.tokens?_code {program : Program} (h : ∀ d ∈ program, d.HasKnownParts) :
    tokens? true program.code.toList = some (program.outline.flatMap External.tokens) := by
  have hlines : ∀ ds : List Declaration, (∀ d ∈ ds, d.HasKnownParts) →
      Lines (ds.flatMap fun d => d.lines ++ [""])
        ((ds.map Declaration.outline).flatMap External.tokens) := by
    intro ds hds
    induction ds with
    | nil => exact .nil
    | cons d ds ih =>
      rw [List.forall_mem_cons] at hds
      have hd := (Declaration.lines_cut hds.1).append (lines_singleton lineCuts_empty)
      rw [List.append_nil] at hd
      exact hd.append (ih hds.2)
  have hall := lines_preamble.append (hlines program h)
  exact hall.tokens?_eq (by simp [preamble])

end Programs

end KanaScript
