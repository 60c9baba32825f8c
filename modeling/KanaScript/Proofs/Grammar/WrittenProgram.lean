import KanaScript.Proofs.Grammar.Program
import KanaScript.Proofs.Grammar.WrittenStatement

/-! Programs that were written are read back: every program with braced bodies can be written, and
what is written is read as the same program, up to places. -/

namespace KanaScript

open Grammar Action

section Parameters

theorem accepts_parameter {p : Parameter} : Accepts parameter (fun _ => True)
    [.type p.typeName, .identifier p.name] (·.unplaced = p.unplaced) := by
  refine .takeIf (fun _ => Token.kind_of_word) fun t ht => .name (.pure ?_)
  rw [Token.text_of_word ht]
  rfl

theorem accepts_parameterList (p : Parameter) (ps : List Parameter) :
    Accepts parameterList (·.head? = some .closeParen) (parameterWords (p :: ps))
      (·.map Parameter.unplaced = (p :: ps).map Parameter.unplaced) := by
  rw [parameterList_eq]
  induction ps generalizing p with
  | nil =>
    refine accepts_parameter.bindLast (fun _ _ => trivial) fun q hq => ?_
    refine .skip (fun after hafter t ht hk => ?_) (.pure (by simp [hq]))
    rw [List.nil_append, hafter] at ht
    cases (Token.kind_of_word (Option.some.inj ht).symm).symm.trans hk
  | cons p' ps ih =>
    show Accepts _ _ ([.type p.typeName, .identifier p.name] ++
      .comma :: parameterWords (p' :: ps)) _
    refine accepts_parameter.bind (fun _ _ => trivial) fun q hq => ?_
    refine .takeIf (fun _ => Token.kind_of_word) fun _ _ => ?_
    rw [parameterList_eq]
    refine (ih p').map fun qs hqs => ?_
    rw [List.map_cons, hq, hqs]
    rfl

/-- The parameters after the opening parenthesis. -/
theorem accepts_openedParameters (ps : List Parameter) :
    Accepts openedParameters (fun _ => True) (parameterWords ps ++ [.closeParen])
      (·.map Parameter.unplaced = ps.map Parameter.unplaced) := by
  cases ps with
  | nil => exact .takeIf (fun _ => Token.kind_of_word) fun _ _ => .pure rfl
  | cons p ps =>
    obtain ⟨ws, hws⟩ : ∃ ws, parameterWords (p :: ps) =
        .type p.typeName :: .identifier p.name :: ws := by
      cases ps <;> exact ⟨_, rfl⟩
    have hlist : Accepts closedParameters (fun _ => True)
        (parameterWords (p :: ps) ++ [.closeParen])
        (·.map Parameter.unplaced = (p :: ps).map Parameter.unplaced) :=
      (accepts_parameterList p ps).bind (fun _ _ => rfl) fun qs hqs => .expect fun _ => .pure hqs
    refine .skip (fun after _ t ht hk => ?_) (hlist.congr fun ts after hts _ => if_neg ?_)
    · rw [hws] at ht
      cases (Token.kind_of_word (Option.some.inj ht).symm).symm.trans hk
    · -- the second token is a name, so that `void` would not stand alone
      intro hvoid
      obtain ⟨t, u, us, rfl, -, hu⟩ := isVoidClose_iff.mp hvoid
      rw [hws] at hts
      have hname : u.word = .identifier p.name := (List.cons.inj (List.cons.inj hts).2).1
      cases (Token.kind_of_word hname).symm.trans hu

end Parameters

section Declarations

variable {closed : Bool}

theorem accepts_block {ss : List Stmt} (h : ∀ s ∈ statementNodes ss, s.IsWritable) :
    Accepts block (fun _ => True) (.openBrace :: (statementWords closed ss ++ [.closeBrace]))
      (unplacedStatements ·.statements = unplacedStatements ss) := by
  refine .takeIf (fun _ => Token.kind_of_word) fun _ _ => accepts_openedBlock ?_
  exact accepts_statements closed (fun t ht => (stop_of_leadsStatement ht).1) ss h

theorem accepts_markedFunction {f : Function}
    (h : ∀ s ∈ statementNodes f.body.statements, s.IsWritable) :
    Accepts markedFunction (fun _ => True)
      (.type f.returnType :: .identifier f.name :: .openParen ::
        (parameterWords f.parameters ++ .closeParen :: .openBrace ::
          (statementWords closed f.body.statements ++ [Word.closeBrace])))
      (·.unplaced = f.unplaced) := by
  refine .takeIf (fun _ => Token.kind_of_word) fun t ht => .name ?_
  have hparameters : Accepts markedParameters (fun _ => True)
      (.openParen :: (parameterWords f.parameters ++ [Word.closeParen]))
      (·.map Parameter.unplaced = f.parameters.map Parameter.unplaced) :=
    .takeIf (fun _ => Token.kind_of_word) fun _ _ => accepts_openedParameters _
  have hsplit : (.openParen :: (parameterWords f.parameters ++ .closeParen :: .openBrace ::
      (statementWords closed f.body.statements ++ [.closeBrace])) : List Word) =
      (.openParen :: (parameterWords f.parameters ++ [.closeParen])) ++ .openBrace ::
        (statementWords closed f.body.statements ++ [.closeBrace]) := by simp
  rw [hsplit]
  refine hparameters.bind (fun _ _ => trivial) fun ps hps => ?_
  refine (accepts_block h).map fun body hbody => ?_
  simp [Function.unplaced, hps, hbody, Token.text_of_word ht]

theorem accepts_function {f : Function} (h : ∀ s ∈ statementNodes f.body.statements, s.IsWritable) :
    Accepts declaration Free (f.words closed)
      (·.unplaced = (Declaration.function f).unplaced) := by
  refine .takeIf (fun _ => Token.isWord_iff.mpr) fun _ _ => ?_
  have hf : Accepts (terminated markedFunction) Free (.type f.returnType :: .identifier f.name ::
      .openParen :: (parameterWords f.parameters ++ .closeParen ::
        ((Stmt.block f.body.statements f.body.position).words closed ++
          if closed then [Word.semicolon] else []))) (·.unplaced = f.unplaced) := by
    cases closed with
    | true => simpa [Stmt.words] using (accepts_markedFunction h).terminated fun _ _ => trivial
    | false =>
      simpa [Stmt.words] using (accepts_markedFunction h).unterminated
        fun after hafter => ⟨trivial, fun w hw => (hafter w hw).1⟩
  exact hf.map fun read hread => by rw [Declaration.unplaced, Declaration.unplaced, hread]

theorem accepts_global {v : Variable} (known : ∀ e ∈ v.init, e.HasKnownOperators) :
    Accepts declaration Free (v.words ++ [Word.semicolon])
      (·.unplaced = (Declaration.global v).unplaced) := by
  refine .skip (fun after _ t ht hw => ?_) (.takeIf (fun _ => Token.kind_of_word) fun t ht => ?_)
  · cases (Option.some.inj ht).trans (Token.isWord_iff.mp hw)
  have hv : Accepts (typedDeclaration t) Halts (.identifier v.name ::
      (v.brackets ++ initWords v.init)) (·.unplaced = (Declaration.global v).unplaced) := by
    refine .name (.skip (fun after hafter u hu hk => ?_) ?_)
    · rw [Variable.brackets] at hu
      split at hu
      · cases (Token.kind_of_word (Option.some.inj hu).symm).symm.trans hk
      · cases hi : v.init with
        | none =>
          rw [hi] at hu
          exact hafter u.word hu (by simp [hk])
        | some e =>
          rw [hi] at hu
          cases (Token.kind_of_word (Option.some.inj hu).symm).symm.trans hk
    · rw [Token.text_of_word ht]
      refine (accepts_variableRest known).map fun read hread => ?_
      rw [Declaration.unplaced, Declaration.unplaced, hread]
  exact hv.terminated fun after _ => by simp [Halts, Word.semicolon, Word.mark]

theorem Stmt.words_lead_top (closed : Bool) {s : Stmt}
    (hlocal : (Declaration.statement s).isLocal = false) :
    ∃ w ws, s.words closed = w :: ws ∧ w.kind ≠ .typeKeyword ∧ w.kind ≠ .otherKeyword := by
  cases s with
  | ifElse condition consequent alternative position =>
    cases alternative <;> exact ⟨_, _, rfl, by decide⟩
  | switch subject cases fallback position =>
    cases fallback <;> exact ⟨_, _, rfl, by decide⟩
  | declare v => cases hlocal
  | expression e position =>
    obtain ⟨w, ws, he, hw⟩ := e.words_lead
    exact ⟨w, ws, he, Word.kind_ne_of_leadsExpression hw rfl,
      Word.kind_ne_of_leadsExpression hw rfl⟩
  | block | whileLoop | forLoop | returns | breaks | continues => exact ⟨_, _, rfl, by decide⟩

theorem accepts_topStatement {s : Stmt} (h : ∀ x ∈ s.nodes, x.IsWritable)
    (hlocal : (Declaration.statement s).isLocal = false) :
    Accepts declaration Free (s.words closed ++ [.semicolon])
      (·.unplaced = (Declaration.statement s).unplaced) := by
  obtain ⟨w, ws, hw, htype, hother⟩ := Stmt.words_lead_top closed hlocal
  have hhead : ∀ {after : List Word} {t : Token},
      (s.words closed ++ [Word.semicolon] ++ after).head? = some t.word → w = t.word := by
    intro after t ht
    rw [hw] at ht
    exact Option.some.inj ht
  refine .skip (fun after _ t ht hmark => ?_) (.skip (fun after _ t ht hk => ?_) ?_)
  · rw [hhead ht] at hother
    exact hother (Token.kind_of_word (Token.isWord_iff.mp hmark))
  · rw [hhead ht] at htype
    exact htype hk
  · refine (s.reread closed h).statement.map fun read hread => ?_
    rw [Declaration.unplaced, Declaration.unplaced, hread]

theorem accepts_declaration {d : Declaration} (h : ∀ s ∈ d.nodes, s.IsWritable)
    (hlocal : d.isLocal = false) :
    Accepts declaration Free (d.words closed) (·.unplaced = d.unplaced) := by
  cases d with
  | function f => exact accepts_function h
  | global v =>
    rw [Declaration.nodes, List.forall_mem_singleton] at h
    exact accepts_global (by simpa [Stmt.expressions] using h.2)
  | statement s => exact accepts_topStatement h hlocal

theorem Declaration.words_lead (closed : Bool) (d : Declaration) :
    ∃ w ws, d.words closed = w :: ws ∧ w.leadsStatement = true := by
  cases d with
  | function f => exact ⟨_, _, rfl, by decide⟩
  | global v =>
    exact ⟨_, _, rfl, by simp [Word.leadsStatement, Word.type, Word.mark, Word.control]⟩
  | statement s =>
    obtain ⟨w, ws, hw, hlead⟩ := s.words_lead closed
    exact ⟨w, ws ++ [.semicolon], by rw [Declaration.words, hw, List.cons_append], hlead⟩

/-- A program whose declarations were written is read back from its tokens. -/
theorem declarations_of_words {program : Program} {ts : List Token}
    (h : ∀ d ∈ program, (∀ s ∈ d.nodes, s.IsWritable) ∧ d.isLocal = false)
    (hts : ts.map Token.word = Program.words closed program) :
    ∃ read, declarations ts = .ok read ∧ Program.unplaced read = Program.unplaced program := by
  induction program generalizing ts with
  | nil =>
    obtain rfl : ts = [] := List.map_eq_nil_iff.mp hts
    exact ⟨[], by rw [declarations_eq]; rfl, rfl⟩
  | cons d ds ih =>
    rw [List.forall_mem_cons] at h
    rw [Program.words, List.flatMap_cons, List.map_eq_append_iff] at hts
    obtain ⟨a, b, rfl, ha, hb⟩ := hts
    have hfree : Free (b.map Token.word) := by
      rw [hb]
      cases ds with
      | nil => simp [Free]
      | cons d' ds =>
        obtain ⟨w, ws, hw, hlead⟩ := d'.words_lead closed
        rw [List.flatMap_cons, hw]
        exact free_of_leadsStatement hlead
    obtain ⟨first, hrun, hfirst⟩ := accepts_declaration h.1.1 h.1.2 a b ha hfree
    obtain ⟨others, hread, hothers⟩ := ih h.2 hb
    refine ⟨first :: others, ?_, ?_⟩
    · rw [declarations_of_ok hrun, hread]
      rfl
    · show first.unplaced :: Program.unplaced others = d.unplaced :: Program.unplaced ds
      rw [hfirst, hothers]

end Declarations

/-- Every program with braced bodies and the grammar's operators, in which no variable is declared
as a statement at the top level, can be written, and is read back up to places. -/
theorem parse_written (closed : Bool) (program : Program)
    (bodies : ∀ s ∈ program.statements, s.hasBracedBodies = true)
    (operators : ∀ s ∈ program.statements, ∀ e ∈ s.expressions, e.HasKnownOperators)
    (globals : ∀ d ∈ program, d.isLocal = false) (tokens ending : List Token)
    (written : tokens.map Token.word = program.words closed)
    (ended : ∀ t ∈ ending.head?, t.kind = .eof) :
    ∃ read : Program, parse (tokens ++ ending) = .ok read ∧ read.unplaced = program.unplaced := by
  have hkind : ∀ t ∈ tokens, t.kind ≠ .eof := by
    intro t ht
    exact endless_program closed program t.word (written ▸ List.mem_map_of_mem ht)
  have hpending : (tokens ++ ending).takeWhile (fun t => t.kind != .eof) = tokens := by
    rw [List.takeWhile_append_of_pos (by simpa using hkind)]
    cases ending with
    | nil => simp
    | cons t us => simp [ended t rfl]
  simp only [parse_eq_ok_iff, hpending]
  refine declarations_of_words (fun d hd => ⟨fun s hs => ?_, globals d hd⟩) written
  have hmem : s ∈ program.statements := List.mem_flatMap.mpr ⟨d, hd, hs⟩
  exact ⟨bodies s hmem, operators s hmem⟩

/-- The array `int[] a`, and `if a { b = -(-c) } else if b {}`, which has an operand in parentheses
and a body before the last terminator. -/
theorem parse_written_elseIf :
    let program : Program := [.global ⟨"int[]", "ガ", none, ⟨1, 1⟩⟩,
      .statement (.ifElse (.name "ガ" ⟨2, 1⟩) (.block [.expression (.assign (.name "ダ" ⟨3, 1⟩)
        (.prefixed "-" (.prefixed "-" (.name "ザ" ⟨3, 2⟩) ⟨3, 3⟩) ⟨3, 4⟩) ⟨3, 5⟩) ⟨3, 6⟩] ⟨2, 2⟩)
        (some (.ifElse (.name "ダ" ⟨4, 1⟩) (.block [] ⟨4, 2⟩) none ⟨4, 3⟩)) ⟨2, 3⟩)]
    let tokens := (program.words false).map fun w => (⟨w.kind, w.payload, .start⟩ : Token)
    ∃ read : Program, parse (tokens ++ [⟨.eof, .none, .start⟩]) = .ok read ∧
      read.unplaced = program.unplaced := by
  intro program tokens
  refine parse_written false program ?_ ?_ ?_ tokens _ ?_ ?_
  · simp [program, Program.statements, Declaration.nodes, Stmt.nodes, statementNodes,
      Stmt.hasBracedBodies, Stmt.isBlock, Stmt.isIf]
  · simp [program, Program.statements, Declaration.nodes, Stmt.nodes, statementNodes,
      Stmt.expressions, Expr.HasKnownOperators, Expr.nodes, Expr.hasKnownOperator,
      Grammar.prefixOperators]
  · simp [program, Declaration.isLocal]
  · simp [tokens, Token.word, Function.comp_def]
  · simp

end KanaScript
