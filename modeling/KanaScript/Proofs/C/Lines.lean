import KanaScript.Proofs.C.Escapes
import KanaScript.Proofs.C.Page
import KanaScript.Proofs.C.ProgramReadBack

/-! The lines of a program that was read have no line break within, so that they are found again in
its text: names and numbers have none, operators and types are those of the vocabulary, and in
literals a break is escaped. -/

namespace KanaScript

namespace C

/-- The text has no line feed and no carriage return. -/
def Unbroken (text : String) : Prop := '\n' ∉ text.toList ∧ '\r' ∉ text.toList

instance (text : String) : Decidable (Unbroken text) := inferInstanceAs (Decidable (_ ∧ _))

@[simp]
theorem unbroken_append {a b : String} : Unbroken (a ++ b) ↔ Unbroken a ∧ Unbroken b := by
  simp [Unbroken, and_and_and_comm]

theorem unbroken_of_class {p : Char → Bool} {text : String} (h : ∀ c ∈ text.toList, p c = true)
    (hp : p '\n' = false ∧ p '\r' = false) : Unbroken text := by
  refine ⟨fun hmem => ?_, fun hmem => ?_⟩
  · exact absurd (h _ hmem) (by simp [hp.1])
  · exact absurd (h _ hmem) (by simp [hp.2])

theorem unbroken_intercalate {separator : String} (hs : Unbroken separator) {parts : List String}
    (h : ∀ part ∈ parts, Unbroken part) : Unbroken (separator.intercalate parts) := by
  induction parts with
  | nil => exact (by decide : Unbroken "")
  | cons part parts ih =>
    rw [List.forall_mem_cons] at h
    cases parts with
    | nil => simpa using h.1
    | cons next parts =>
      rw [String.intercalate_cons_of_ne_nil (by simp)]
      simp [h.1, hs, ih h.2]

theorem unbroken_of_isIdentifier {text : String} (h : Text.isIdentifier text.toList = true) :
    Unbroken text := by
  refine unbroken_of_class (p := Text.continuesName) ?_ (by decide)
  cases hcs : text.toList with
  | nil => simp
  | cons c cs =>
    simp only [hcs, Text.isIdentifier, Bool.and_eq_true, List.all_eq_true] at h
    exact List.forall_mem_cons.mpr ⟨continuesName_of_startsName h.1, h.2⟩

theorem unbroken_identifier (name : String) : Unbroken (identifier name) :=
  unbroken_of_isIdentifier (isIdentifier_identifier name)

theorem unbroken_number (value : Number) : Unbroken value.text := by
  refine unbroken_of_class (p := fun c => Text.continuesName c || ['.', '-'].contains c) ?_
    (by decide)
  have hunsigned : ∀ {cs : List Char}, Unsigned cs →
      ∀ c ∈ cs, (Text.continuesName c || ['.', '-'].contains c) = true := by
    rintro cs (⟨c, more, rfl, hc, hmore⟩ | rfl | rfl)
    · refine List.forall_mem_cons.mpr ⟨by simp [Text.continuesName, Char.isAlphanum, hc], ?_⟩
      intro d hd
      rcases hmore d hd with hd | rfl
      · simp [Text.continuesName, Char.isAlphanum, hd]
      · decide
    · simp [Text.continuesName, Char.isAlphanum]
    · simp [Text.continuesName, Char.isAlphanum]
  obtain ⟨cs, hcs, h | h⟩ := number_text value
  · rw [h]
    exact hunsigned hcs
  · rw [h]
    exact List.forall_mem_cons.mpr ⟨by decide, hunsigned hcs⟩

theorem unbroken_stringLiteral (text : String) : Unbroken (stringLiteral text) := by
  have hbody := isBody_stringBody text
  have hquote : Unbroken "\"" := by decide
  simp only [stringLiteral, unbroken_append]
  exact ⟨⟨hquote, hbody.noLineFeed, hbody.noReturn⟩, hquote⟩

theorem unbroken_charLiteral (text : String) : Unbroken (charLiteral text) := by
  have hquote : Unbroken "'" := by decide
  have hbody : Unbroken (charBody text) := by
    unfold charBody
    split
    · decide
    · rename_i c cs _
      have control := (standsFor_escapeAsChar c).control_not_mem
      rw [Unbroken, String.toList_ofList]
      exact ⟨control _ (by decide), control _ (by decide)⟩
  simp only [charLiteral, unbroken_append]
  exact ⟨⟨hquote, hbody⟩, hquote⟩

@[simp]
theorem unbroken_line {level : Nat} {code : String} :
    Unbroken (line level code) ↔ Unbroken code := by
  have hblanks : Unbroken ("".pushn ' ' (4 * level)) := by
    rw [Unbroken, toList_pushn]
    simp
  simp [line, hblanks]

end C

open C

section Parts

theorem unbroken_operator {ops : List String} {op : String}
    (h : ops ∈ Grammar.prefixOperators :: Grammar.suffixOperators :: Grammar.binaryLevels)
    (hop : op ∈ ops) : Unbroken op :=
  (by decide : ∀ ops ∈ Grammar.prefixOperators :: Grammar.suffixOperators :: Grammar.binaryLevels,
    ∀ op ∈ ops, Unbroken op) ops h op hop

theorem unbroken_type {type : String} (h : type ∈ typeSpellings) : Unbroken type :=
  unbroken_of_isIdentifier (isIdentifier_type h)

mutual

theorem Expr.unbroken_code : ∀ {e : Expr}, e.HasKnownOperators → Unbroken e.code
  | .binary op left right _, h => by
    obtain ⟨⟨ops, hops, hop⟩, hleft, hright⟩ := Expr.hasKnownOperators_binary.mp h
    have hop := unbroken_operator (List.mem_cons_of_mem _ (List.mem_cons_of_mem _ hops)) hop
    simp +decide [Expr.code, hop, Expr.unbroken_code hleft, Expr.unbroken_code hright]
  | .prefixed op operand _, h => by
    obtain ⟨hop, hoperand⟩ := Expr.hasKnownOperators_prefixed.mp h
    have hop := unbroken_operator List.mem_cons_self hop
    simp [Expr.code, hop, Expr.unbroken_code hoperand]
  | .suffixed op operand _, h => by
    obtain ⟨hop, hoperand⟩ := Expr.hasKnownOperators_suffixed.mp h
    have hop := unbroken_operator (List.mem_cons_of_mem _ List.mem_cons_self) hop
    simp [Expr.code, hop, Expr.unbroken_code hoperand]
  | .assign target value _, h => by
    obtain ⟨htarget, hvalue⟩ := Expr.hasKnownOperators_assign.mp h
    simp +decide [Expr.code, Expr.unbroken_code htarget, Expr.unbroken_code hvalue]
  | .call callee arguments _, h => by
    obtain ⟨hcallee, harguments⟩ := Expr.hasKnownOperators_call.mp h
    have hlist : Unbroken (", ".intercalate (argumentCodes (isPrint callee) arguments)) :=
      unbroken_intercalate (by decide) (unbroken_argumentCodes _ harguments)
    simp +decide [Expr.code, Expr.unbroken_code hcallee, hlist]
  | .index array index _, h => by
    obtain ⟨harray, hindex⟩ := Expr.hasKnownOperators_index.mp h
    simp +decide [Expr.code, Expr.unbroken_code harray, Expr.unbroken_code hindex]
  | .name text _, _ => unbroken_identifier text
  | .number value _, _ => unbroken_number value
  | .string text _, _ => unbroken_stringLiteral text
  | .char text _, _ => unbroken_charLiteral text

theorem unbroken_argumentCodes (print : Bool) : ∀ {es : List Expr},
    (∀ e ∈ es, e.HasKnownOperators) → ∀ code ∈ argumentCodes print es, Unbroken code
  | [], _ => by simp [argumentCodes]
  | e :: es, h => by
    rw [List.forall_mem_cons] at h
    rw [argumentCodes, List.forall_mem_cons]
    refine ⟨?_, unbroken_argumentCodes false h.2⟩
    cases hformat : formatCode? print e with
    | none => exact Expr.unbroken_code h.1
    | some code =>
      cases e with
      | string text position =>
        obtain ⟨-, rfl⟩ : print = true ∧ stringLiteral (withLineFeed text) = code := by
          simpa [formatCode?] using hformat
        exact unbroken_stringLiteral _
      | _ => cases hformat

end

theorem unbroken_optionalCode {e : Option Expr} (h : ∀ x ∈ e, x.HasKnownOperators) :
    Unbroken (optionalCode e) := by
  cases e with
  | none => exact (by decide : Unbroken "")
  | some e => exact Expr.unbroken_code (h e rfl)

theorem Variable.unbroken_code {v : Variable} (h : (Stmt.declare v).HasKnownParts) :
    Unbroken v.code := by
  obtain ⟨ht, hi⟩ := Stmt.hasKnownParts_declare.mp h
  have hname := unbroken_identifier v.name
  -- The value comes after the declarator, whatever that is.
  obtain ⟨declarator, hd, hcode⟩ : ∃ declarator, Unbroken declarator ∧
      v.code = v.init.elim declarator (declarator ++ " = " ++ ·.code) := by
    obtain ⟨type, htype, ⟨helement, hspelling, -⟩ | ⟨helement, -⟩⟩ := Variable.declarator_cases ht
    · refine ⟨v.typeName ++ " " ++ identifier v.name, ?_, ?_⟩
      · simp +decide [hspelling, unbroken_type htype, hname]
      · cases he : v.init <;> simp only [Variable.code, helement, he, Option.elim]
    · refine ⟨type ++ " " ++ identifier v.name ++ arraySuffix, ?_, ?_⟩
      · simp +decide [unbroken_type htype, hname, arraySuffix]
      · cases he : v.init <;> simp only [Variable.code, helement, he, Option.elim]
  rw [hcode]
  cases he : v.init with
  | none => exact hd
  | some e => simp +decide [hd, Expr.unbroken_code (hi e he)]

theorem unbroken_forInit {init : Option ForInit} (h : ∀ i ∈ init, i.HasKnownParts) :
    Unbroken ((init.map ForInit.code).getD "") := by
  match init with
  | none => exact (by decide : Unbroken "")
  | some (.declare v) => exact Variable.unbroken_code (h (.declare v) rfl)
  | some (.expression e) => exact Expr.unbroken_code (h (.expression e) rfl)

theorem Function.unbroken_header {f : Function} (h : (Declaration.function f).HasKnownHeader) :
    Unbroken f.header := by
  obtain ⟨hreturn, hparameters⟩ := h
  have hlist : Unbroken (", ".intercalate
      (f.parameters.map fun p => p.typeName ++ " " ++ identifier p.name)) := by
    refine unbroken_intercalate (by decide) (List.forall_mem_map.mpr fun p hp => ?_)
    simp +decide [unbroken_type (hparameters p hp), unbroken_identifier p.name]
  have hvoid : Unbroken (if f.parameters.isEmpty && f.name == entryPoint then "void"
      else ", ".intercalate
        (f.parameters.map fun p => p.typeName ++ " " ++ identifier p.name)) := by
    split
    · decide
    · exact hlist
  simp +decide only [Function.header, unbroken_append, unbroken_type hreturn,
    unbroken_identifier f.name, hvoid]

end Parts

section Statements

theorem unbroken_braced {lines : List String} (h : ∀ l ∈ lines, Unbroken l) (level : Nat) :
    ∀ l ∈ line level "\x7b" :: (lines ++ [line level "\x7d"]), Unbroken l := by
  rw [List.forall_mem_cons, List.forall_mem_append, List.forall_mem_singleton]
  exact ⟨by simp +decide, h, by simp +decide⟩

mutual

/-- No line of a statement is broken. -/
theorem Stmt.unbroken_lines : ∀ {s : Stmt}, (∀ x ∈ s.nodes, x.HasKnownParts) →
    ∀ (level : Nat) {lead : String}, Unbroken lead → ∀ l ∈ s.lines level lead, Unbroken l
  | .block statements _, h, level, _, _ => by
    simp only [Stmt.nodes, List.forall_mem_cons] at h
    rw [Stmt.lines]
    exact unbroken_braced (unbroken_statementLines h.2 (level + 1)) level
  | .declare v, h, level, _, _ => by
    simp only [Stmt.nodes, List.forall_mem_singleton] at h
    simp +decide [Stmt.lines, Variable.unbroken_code h]
  | .ifElse condition consequent none _, h, level, _, hl => by
    simp only [Stmt.nodes, List.forall_mem_cons] at h
    have hc := Expr.unbroken_code (h.1.1 condition List.mem_cons_self)
    rw [Stmt.lines, List.forall_mem_cons]
    exact ⟨by simp +decide [hl, hc], Stmt.unbroken_lines h.2 _ (by decide)⟩
  | .ifElse condition consequent (some alternative) _, h, level, _, hl => by
    simp only [Stmt.nodes, List.forall_mem_cons, List.forall_mem_append] at h
    have hc := Expr.unbroken_code (h.1.1 condition List.mem_cons_self)
    rw [Stmt.lines, List.forall_mem_cons, List.forall_mem_append]
    refine ⟨by simp +decide [hl, hc], Stmt.unbroken_lines h.2.1 _ (by decide), ?_⟩
    split
    · exact Stmt.unbroken_lines h.2.2 level (by decide)
    · rw [List.forall_mem_cons]
      exact ⟨by simp +decide, Stmt.unbroken_lines h.2.2 _ (by decide)⟩
  | .whileLoop condition body _, h, level, _, _ => by
    simp only [Stmt.nodes, List.forall_mem_cons] at h
    have hc := Expr.unbroken_code (h.1.1 condition List.mem_cons_self)
    rw [Stmt.lines, List.forall_mem_cons]
    exact ⟨by simp +decide [hc], Stmt.unbroken_lines h.2 _ (by decide)⟩
  | .forLoop init condition update body _, h, level, _, _ => by
    simp only [Stmt.nodes, List.forall_mem_cons] at h
    obtain ⟨hi, hc, hu⟩ := Stmt.hasKnownParts_forLoop.mp h.1
    rw [Stmt.lines, List.forall_mem_cons]
    refine ⟨?_, Stmt.unbroken_lines h.2 _ (by decide)⟩
    simp +decide [unbroken_forInit hi, unbroken_optionalCode hc, unbroken_optionalCode hu]
  | .switch subject cases none _, h, level, _, _ => by
    simp only [Stmt.nodes, List.forall_mem_cons] at h
    obtain ⟨⟨he, -⟩, hcases⟩ := h
    simp only [Stmt.expressions, List.forall_mem_cons, List.forall_mem_map] at he
    rw [Stmt.lines, List.forall_mem_cons]
    exact ⟨by simp +decide [Expr.unbroken_code he.1],
      unbroken_braced (unbroken_clauseLines he.2 hcases level) level⟩
  | .switch subject cases (some fallback) _, h, level, _, _ => by
    simp only [Stmt.nodes, List.forall_mem_cons, List.forall_mem_append] at h
    obtain ⟨⟨he, -⟩, hcases, hfallback⟩ := h
    simp only [Stmt.expressions, List.forall_mem_cons, List.forall_mem_map] at he
    have hinner : ∀ l ∈ clauseLines level cases ++
        line level "default:" :: statementLines (level + 1) fallback, Unbroken l := by
      rw [List.forall_mem_append, List.forall_mem_cons]
      exact ⟨unbroken_clauseLines he.2 hcases level, by simp +decide,
        unbroken_statementLines hfallback (level + 1)⟩
    rw [Stmt.lines, List.forall_mem_cons]
    exact ⟨by simp +decide [Expr.unbroken_code he.1], by simpa using unbroken_braced hinner level⟩
  | .returns none _, _, level, _, _ => by simp +decide [Stmt.lines]
  | .returns (some value) _, h, level, _, _ => by
    simp only [Stmt.nodes, List.forall_mem_singleton] at h
    simp +decide [Stmt.lines, Expr.unbroken_code (h.1 value List.mem_cons_self)]
  | .breaks _, _, level, _, _ => by simp +decide [Stmt.lines]
  | .continues _, _, level, _, _ => by simp +decide [Stmt.lines]
  | .expression e _, h, level, _, _ => by
    simp only [Stmt.nodes, List.forall_mem_singleton] at h
    simp +decide [Stmt.lines, Expr.unbroken_code (h.1 e List.mem_cons_self)]

theorem unbroken_statementLines : ∀ {ss : List Stmt}, (∀ x ∈ statementNodes ss, x.HasKnownParts) →
    ∀ level : Nat, ∀ l ∈ statementLines level ss, Unbroken l
  | [], _, _ => by simp [statementLines]
  | s :: ss, h, level => by
    simp only [statementNodes, List.forall_mem_append] at h
    rw [statementLines, List.forall_mem_append]
    exact ⟨Stmt.unbroken_lines h.1 level (by decide), unbroken_statementLines h.2 level⟩

theorem unbroken_clauseLines : ∀ {cs : List Clause}, (∀ c ∈ cs, c.value.HasKnownOperators) →
    (∀ x ∈ clauseNodes cs, x.HasKnownParts) →
    ∀ level : Nat, ∀ l ∈ clauseLines level cs, Unbroken l
  | [], _, _, _ => by simp [clauseLines]
  | .case value statements _ :: cs, hv, h, level => by
    simp only [clauseNodes, List.forall_mem_append] at h
    rw [List.forall_mem_cons] at hv
    have hvalue : Unbroken value.code := Expr.unbroken_code hv.1
    rw [clauseLines, List.forall_mem_cons, List.forall_mem_append]
    exact ⟨by simp +decide [hvalue], unbroken_statementLines h.1 _,
      unbroken_clauseLines hv.2 h.2 level⟩

end

theorem Declaration.unbroken_lines {d : Declaration} (h : d.HasKnownParts) :
    ∀ l ∈ d.lines, Unbroken l := by
  obtain ⟨hheader, hnodes⟩ := h
  cases d with
  | function f =>
    rw [Declaration.lines, Function.lines, Stmt.lines, List.forall_mem_cons]
    exact ⟨by simp [Function.unbroken_header hheader],
      unbroken_braced (unbroken_statementLines hnodes 1) 0⟩
  | global v =>
    have hv := Variable.unbroken_code (hnodes (.declare v) List.mem_cons_self)
    simp +decide [Declaration.lines, hv]
  | statement s => exact Stmt.unbroken_lines hnodes 0 (by decide)

theorem Program.unbroken_lines {program : Program} (h : ∀ d ∈ program, d.HasKnownParts) :
    ∀ l ∈ program.lines, Unbroken l := by
  have hpreamble : ∀ l ∈ preamble, Unbroken l := by decide
  rw [Program.lines, List.forall_mem_append]
  refine ⟨hpreamble, fun l hl => ?_⟩
  obtain ⟨d, hd, hl⟩ := List.mem_flatMap.mp hl
  rcases List.mem_append.mp hl with hl | hl
  · exact Declaration.unbroken_lines (h d hd) l hl
  · rw [List.mem_singleton.mp hl]
    decide

/-- A text is split at its line feeds into the lines that it was joined of. -/
theorem Program.split_code {program : Program} (h : ∀ l ∈ program.lines, Unbroken l) :
    (program.code.split '\n').toList.map (·.copy) = program.lines := by
  have hne : program.lines ≠ [] := by simp [Program.lines, preamble]
  exact (String.toList_split_intercalate fun l hl => (h l hl).1).trans (if_neg hne)

end Statements

/-- A statement is printed in the same way at every level: below the lines that were there come its
lines at the outermost level, each with four blanks more for each level, and the level is kept.  The
lines of a program that was read from a source are not broken, and are found again in its text. -/
theorem print_uniform_and_split_code (s : Stmt) (page : Page) {source : String} {program : Program}
    (parsed : parse (tokenize source) = .ok program) :
    s.print false page = ⟨page.lines ++ (s.print false .blank).lines.map
      ("".pushn ' ' (4 * page.level) ++ ·), page.level⟩ ∧
    (s.print false page).lines = page.lines ++ s.lines page.level "" ∧
    program.print = ⟨program.lines, 0⟩ ∧
    (∀ l ∈ program.lines, '\n' ∉ l.toList ∧ '\r' ∉ l.toList) ∧
    (program.code.split '\n').toList.map (·.copy) = program.lines := by
  have hlevel : s.lines page.level "" = (s.lines 0 "").map (line page.level) :=
    s.lines_add page.level 0 ""
  have hprint : s.print false page = page.add (s.lines page.level "") := s.print_eq .fresh
  have hblank : s.print false .blank = ⟨s.lines 0 "", 0⟩ := s.print_eq .fresh
  have unbroken := Program.unbroken_lines (hasKnownParts_of_parse (hasKnownTypes_tokenize _) parsed)
  refine ⟨?_, by rw [hprint]; rfl, program.print_eq, unbroken, Program.split_code unbroken⟩
  rw [hprint, hblank, hlevel]
  rfl

/-- An `if` is joined to the line of the `else` before it, and a break in a literal breaks no
line. -/
theorem print_uniform_and_split_code_joined :
    ∃ s program, parse (tokenize "ガ ギセス 「a\nb」") = .ok program ∧
      (Stmt.print false s ⟨["x"], 1⟩).lines =
        ["x", "    if (ga)", "        break;", "    else if (da)", "        break;"] ∧
      program.lines.drop 4 = ["ga = \"a\\nb\";", ""] ∧
      (program.code.split '\n').toList.map (·.copy) = program.lines := by
  have tokens : tokenize "ガ ギセス 「a\nb」" = [⟨.identifier, .text "ガ", ⟨1, 1⟩⟩,
      ⟨.operator, .text "=", ⟨1, 3⟩⟩, ⟨.stringLiteral, .text "a\nb", ⟨1, 7⟩⟩,
      ⟨.eof, .none, ⟨2, 3⟩⟩] := by decide +kernel
  have parsed : parse (tokenize "ガ ギセス 「a\nb」") = .ok [.statement (.expression
      (.assign (.name "ガ" ⟨1, 1⟩) (.string "a\nb" ⟨1, 7⟩) ⟨1, 1⟩) ⟨1, 1⟩)] := by
    rw [tokens]
    cbv
  have hlines := print_uniform_and_split_code
    (.ifElse (.name "ガ" ⟨1, 1⟩) (.breaks ⟨1, 1⟩)
      (some (.ifElse (.name "ダ" ⟨1, 1⟩) (.breaks ⟨1, 1⟩) none ⟨1, 1⟩)) ⟨1, 1⟩) ⟨["x"], 1⟩ parsed
  refine ⟨_, _, parsed, hlines.2.1.trans ?_, ?_, hlines.2.2.2.2⟩
  · decide +kernel
  · decide +kernel

end KanaScript
