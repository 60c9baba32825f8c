import KanaScript.Proofs.Grammar.Concatenation
import KanaScript.Proofs.Grammar.Failure
import KanaScript.Proofs.Grammar.Relocation
import KanaScript.Proofs.Grammar.WrittenProgram
import KanaScript.Proofs.Token.Seam

/-! What a `return` returns.  An expression after `return` is its value, unless a control keyword
leads it: that keyword ends the `return`, also where it stands for a name. -/

namespace KanaScript

section Unplaced

mutual

theorem Expr.unplaced_eq_move : ∀ e : Expr, e.unplaced = e.move fun _ => .start
  | .binary op left right _ => by
    rw [Expr.unplaced, Expr.move, left.unplaced_eq_move, right.unplaced_eq_move]
  | .prefixed op operand _ => by rw [Expr.unplaced, Expr.move, operand.unplaced_eq_move]
  | .suffixed op operand _ => by rw [Expr.unplaced, Expr.move, operand.unplaced_eq_move]
  | .assign target value _ => by
    rw [Expr.unplaced, Expr.move, target.unplaced_eq_move, value.unplaced_eq_move]
  | .call callee arguments _ => by
    rw [Expr.unplaced, Expr.move, callee.unplaced_eq_move, unplacedArguments_eq_moveAll arguments]
  | .index array index _ => by
    rw [Expr.unplaced, Expr.move, array.unplaced_eq_move, index.unplaced_eq_move]
  | .name text _ => rfl
  | .number value _ => rfl
  | .string text _ => rfl
  | .char text _ => rfl

theorem unplacedArguments_eq_moveAll : ∀ es : List Expr,
    unplacedArguments es = Expr.moveAll (fun _ => .start) es
  | [] => rfl
  | e :: es => by
    rw [unplacedArguments, Expr.moveAll, e.unplaced_eq_move, unplacedArguments_eq_moveAll es]

end

theorem unplaced_eq_of_word_eq {ts us : List Token} (h : us.map Token.word = ts.map Token.word) :
    us.map Token.unplaced = ts.map Token.unplaced := by
  have hplace : Token.unplaced = (fun w => ⟨w.kind, w.payload, .start⟩) ∘ Token.word := rfl
  rw [hplace, ← List.map_map, ← List.map_map, h]

end Unplaced

open Grammar Action

section Return

variable {ts rest : List Token} {e : Expr}

theorem derives_of_run (h : expression.run ts = .ok e []) : Derives .assignment ts e := by
  obtain ⟨used, hts, hd, -⟩ := yields_expression_iff.mp (Reading.result_eq_ok_iff.mp h)
  rwa [hts, List.append_nil]

/-- Tokens that are read in full as an expression are read so wherever they stand, in front of what
does not go on with an expression. -/
theorem accepts_of_yields (h : (Grammar.expression ts).Yields e []) :
    Accepts expression Halts (ts.map Token.word) (·.unplaced = e.unplaced) := by
  intro us rest hus hrest
  -- tokens with the same words are the same once they are all moved to one place
  have hrun : expression.run ts = .ok e [] := Reading.result_eq_ok_iff.mpr h
  have hmap := unplaced_eq_of_word_eq hus
  have hmoved : expression.run (us.map Token.unplaced) = .ok e.unplaced [] := by
    rw [hmap, e.unplaced_eq_move]
    cases moves_expression (f := fun _ => .start) (ts.length + 1) ts (Nat.lt_succ_self _) with
    | error run => cases hrun.symm.trans run
    | ok run moves =>
      cases hrun.symm.trans run
      exact moves
  cases moves_expression (f := fun _ => .start) (us.length + 1) us (Nat.lt_succ_self _) with
  | error run moves => cases hmoved.symm.trans moves
  | @ok read left run moves =>
    obtain ⟨hread, hleft⟩ := EStateM.Result.ok.inj (hmoved.symm.trans moves)
    rw [List.map_eq_nil_iff.mp hleft.symm] at run
    exact ⟨read, run_expression_of_derives (derives_of_run run) hrest,
      read.unplaced_eq_move.trans hread.symm⟩

theorem exists_lead (h : (Grammar.expression ts).Yields e []) :
    ∃ first more, ts = first :: more ∧ Tier.assignment.opens first = true :=
  (derives_of_run (Reading.result_eq_ok_iff.mpr h)).starts

/-- Of the tokens that may lead an expression, the control keywords end a `return`. -/
theorem endsReturn_of_opens {t : Token} (h : Tier.assignment.opens t = true) :
    endsReturn t = true ↔ t.kind = .controlKeyword := by
  obtain ⟨kind, payload, position⟩ := t
  cases kind <;> simp_all [Tier.opens, opensOperand, isOperator, endsReturn]

theorem accepts_returned {first : Token} (h : (Grammar.expression (first :: ts)).Yields e [])
    (hfirst : first.kind ≠ .controlKeyword) :
    Accepts statement (fun _ => True)
      (.control "return" :: ((first :: ts).map Token.word ++ [.semicolon]))
      (·.unplaced = .returns (some e.unplaced) .start) := by
  obtain ⟨lead, more, hlead, hopens⟩ := exists_lead h
  obtain ⟨rfl, -⟩ := List.cons.inj hlead
  have hreturns (p : Position) : Accepts (Action.returns p) Halts ((first :: ts).map Token.word)
      (·.unplaced = .returns (some e.unplaced) .start) := by
    refine .goOn ((accepts_of_yields h).map fun read hread => ?_) fun after _ t ht => ?_
    · rw [Stmt.unplaced, Option.map_some, hread]
    · obtain ⟨u, rfl, hu⟩ := Option.map_eq_some_iff.mp ht
      have hends : endsReturn u = endsReturn first := by
        simp only [endsReturn, ← Token.word_kind, hu]
      rw [Option.all_some, hends, endsReturn_of_opens hopens]
      exact hfirst
  have hbare : Accepts bareStatement Halts (.control "return" :: (first :: ts).map Token.word)
      (·.unplaced = .returns (some e.unplaced) .start) :=
    .led (fun t => Action.returns t.position) (fun t rest ht => run_bareStatement_control ht rest)
      fun t _ => hreturns t.position
  exact hbare.terminated fun _ _ => halts_of_semicolon rfl

/-- A control keyword ends a `return`. -/
theorem accepts_bareReturn :
    Accepts statement (fun after => ∃ w ∈ after.head?, w.kind = .controlKeyword)
      [.control "return"] (·.unplaced = .returns none .start) := by
  have hbare : Accepts bareStatement (fun after => ∃ w ∈ after.head?, w.kind = .controlKeyword)
      [.control "return"] (·.unplaced = .returns none .start) := by
    refine .led (fun t => Action.returns t.position)
      (fun t rest ht => run_bareStatement_control ht rest) fun t _ => ?_
    refine .stopIf rfl fun after hafter u hu => ?_
    obtain ⟨w, hw, hk⟩ := hafter
    rw [Option.mem_def.mp hw] at hu
    obtain ⟨u, rfl, rfl⟩ := Option.map_eq_some_iff.mp hu
    simp [endsReturn, ← Token.word_kind, hk]
  refine hbare.unterminated fun after hafter => ⟨hafter, fun w hw => ?_⟩
  obtain ⟨u, hu, hk⟩ := hafter
  rw [Option.mem_def.mp hu] at hw
  rw [← Option.some.inj hw, hk]
  decide

/-- Any other control keyword leads an expression. -/
theorem accepts_keywordLed {first : Token} {keyword : String}
    (h : (Grammar.expression (first :: ts)).Yields e []) (hfirst : first.word = .control keyword)
    (hkeyword : keyword ∉ statementLeads) :
    Accepts statement (fun _ => True) ((first :: ts).map Token.word ++ [.semicolon])
      (·.unplaced = .expression e.unplaced .start) := by
  have hbare : Accepts bareStatement Halts ((first :: ts).map Token.word)
      (·.unplaced = .expression e.unplaced .start) := by
    intro us rest hus hrest
    obtain ⟨read, hrun, hread⟩ := accepts_of_yields h us rest hus hrest
    refine ⟨.expression read (here (us ++ rest)), ?_, by simp [Stmt.unplaced, hread]⟩
    obtain ⟨u, us, rfl, hu, -⟩ := List.map_eq_cons_iff.mp hus
    simp only [statementLeads, List.mem_cons, List.not_mem_nil, or_false, not_or] at hkeyword
    rw [List.cons_append, run_bareStatement_control (hu.trans hfirst)]
    simp only [hkeyword, if_false]
    exact bind_of_ok hrun
  exact hbare.terminated fun _ _ => halts_of_semicolon rfl

/-- Statements of which the first is a `return` in front of a control keyword. -/
theorem unplaced_bareReturn {t : Token} {stop : Token → Bool} {read : List Stmt}
    (ht : t.word = .control "return") (hstop : stop t = false)
    (hnext : ∃ first ∈ ts.head?, first.kind = .controlKeyword)
    (h : (statements stop).run (t :: ts) = .ok read rest) :
    ∃ more, unplacedStatements read = .returns none .start :: more := by
  have hfollow : ∃ w ∈ (ts.map Token.word).head?, w.kind = .controlKeyword := by
    obtain ⟨first, hfirst, hk⟩ := hnext
    exact ⟨first.word, by rw [List.head?_map, hfirst]; rfl, hk⟩
  have hwords : [t].map Token.word = [.control "return"] := by rw [List.map_singleton, ht]
  obtain ⟨bare, hbare, hunplaced⟩ := accepts_bareReturn [t] ts hwords hfollow
  rw [statements_eq, run_stopIf, if_neg (by simp [hstop])] at h
  obtain ⟨s, middle, hs, hmore⟩ := run_bind_eq_ok_iff.mp h
  obtain ⟨more, -, rfl⟩ := run_map_eq_ok_iff.mp hmore
  cases hs.symm.trans hbare
  exact ⟨unplacedStatements more, by rw [unplacedStatements, hunplaced]⟩

end Return

section Source

variable {source text : String} {e : Expr} {words : List Word} {body : List Stmt}

/-- The tokens of a source before the one that ends it. -/
def innerTokens (source : String) : List Token := (tokenize source).dropLast

theorem takeWhile_tokenize (source : String) :
    (tokenize source).takeWhile (fun t => t.kind != .eof) = innerTokens source := by
  obtain ⟨gap, front, htokens, hfront⟩ := (scans_tokenize source).exists_scansTo
  have hinner := takeWhile_inner_append hfront.kind_ne_eof
  rw [innerTokens, htokens, hinner, List.dropLast_concat]
  simp

/-- The source is read as one block with these statements, up to their places. -/
def ParsesAsBlock (source : String) (body : List Stmt) : Prop :=
  ∃ program : Program, parse (tokenize source) = .ok program ∧
    program.unplaced = [.statement (.block body .start)]

theorem ParsesAsBlock.of_accepts (h : Accepts (statements fun t => t.kind == .closeBrace)
      (Closes fun t => t.kind == .closeBrace) words (unplacedStatements · = body))
    (hsource : (innerTokens source).map Token.word = .openBrace :: (words ++ [.closeBrace])) :
    ParsesAsBlock source body := by
  have hstatement : Accepts statement (· = []) (.openBrace :: (words ++ [.closeBrace]))
      (·.unplaced = .block body .start) :=
    (accepts_blockStatement h).unterminated fun after hafter => ⟨trivial, by simp [hafter]⟩
  have hbrace {t : Token} (ht : t.word = .openBrace) : t.kind = .openBrace := Token.kind_of_word ht
  have hdeclaration : Accepts declaration (· = []) (.openBrace :: (words ++ [.closeBrace]))
      (·.unplaced = .statement (.block body .start)) := by
    refine .skip (fun after _ t ht => ?_) (.skip (fun after _ t ht => ?_)
      (hstatement.map fun s hs => by rw [Declaration.unplaced, hs]))
    · simp [Token.isWord, hbrace (Option.some.inj ht).symm]
    · simp [hbrace (Option.some.inj ht).symm]
  obtain ⟨d, hrun, hd⟩ := hdeclaration (innerTokens source) [] hsource rfl
  rw [List.append_nil] at hrun
  refine ⟨[d], parse_eq_ok_iff.mpr ?_, ?_⟩
  · rw [takeWhile_tokenize, declarations_of_ok hrun, declarations_eq]
    rfl
  · show [d.unplaced] = _
    rw [hd]

/-- The statements of a block are read after its opening brace. -/
theorem ParsesAsBlock.exists_run {opening : Token} {ts : List Token}
    (h : ParsesAsBlock source body) (hsource : innerTokens source = opening :: ts)
    (hopening : opening.kind = .openBrace) :
    ∃ read rest, (statements fun t => t.kind == .closeBrace).run ts = .ok read rest ∧
      unplacedStatements read = body := by
  obtain ⟨program, hparse, hprogram⟩ := h
  rw [parse_eq_ok_iff, takeWhile_tokenize, hsource] at hparse
  cases hrun : declaration.run (opening :: ts) with
  | error problem rest =>
    rw [declarations_of_error (by simp) hrun] at hparse
    cases hparse
  | ok d rest =>
    rw [declarations_of_ok hrun] at hparse
    cases hrest : declarations rest with
    | error failure =>
      rw [hrest] at hparse
      cases hparse
    | ok others =>
      rw [hrest] at hparse
      cases hparse
      have hd : d.unplaced = .statement (.block body .start) := (List.cons.inj hprogram).1
      rw [Action.declaration, run_takeIf_cons, if_neg (by simp [Token.isWord, hopening]),
        run_takeIf_cons, if_neg (by simp [hopening]), run_map_eq_ok_iff] at hrun
      obtain ⟨s, hs, rfl⟩ := hrun
      obtain ⟨middle, hbare, -⟩ := run_terminated_eq_ok_iff.mp hs
      rw [run_bareStatement_plain (by simp [hopening]), if_pos hopening,
        run_map_eq_ok_iff] at hbare
      obtain ⟨b, hb, rfl⟩ := hbare
      obtain ⟨read, left, hread, hclose⟩ := run_bind_eq_ok_iff.mp hb
      obtain ⟨closing, last, -, hlast⟩ := run_bind_eq_ok_iff.mp hclose
      refine ⟨read, left, hread, ?_⟩
      cases hlast
      simpa [Declaration.unplaced, Stmt.unplaced] using hd

/-- A returned expression stays with its `return` exactly if no control keyword leads it.  One that
leads no statement of its own leaves a bare `return`, and the expression as the next statement. -/
theorem parsesAsBlock_returned_iff
    (hread : (Grammar.expression (innerTokens text)).Yields e [])
    (hsource : (innerTokens source).map Token.word = .openBrace :: .control "return" ::
      ((innerTokens text).map Token.word ++ [.semicolon, .closeBrace])) :
    (ParsesAsBlock source [.returns (some e.unplaced) .start] ↔
      ∀ first ∈ (innerTokens text).head?, first.kind ≠ .controlKeyword) ∧
    ∀ first ∈ (innerTokens text).head?, ∀ keyword ∉ statementLeads,
      first.word = .control keyword →
        ParsesAsBlock source [.returns none .start, .expression e.unplaced .start] := by
  obtain ⟨lead, more, hlead, -⟩ := exists_lead hread
  rw [hlead] at hread hsource ⊢
  simp only [List.head?_cons, Option.mem_some_iff, forall_eq']
  have hstop {t : Token} {keyword : String} (ht : t.word = .control keyword) :
      (t.kind == .closeBrace) = false := by simp [Token.kind_of_word ht]
  refine ⟨⟨fun hblock hk => ?_, fun hk => ?_⟩, fun keyword hkeyword hword => ?_⟩
  -- whatever the keyword leads, the first statement of the block has no value
  · obtain ⟨opening, ts, hts, hopening, hmap⟩ := List.map_eq_cons_iff.mp hsource
    obtain ⟨keyword, ts, rfl, hreturn, hmap⟩ := List.map_eq_cons_iff.mp hmap
    obtain ⟨read, rest, hrun, hbody⟩ := hblock.exists_run hts (Token.kind_of_word hopening)
    obtain ⟨u, us, rfl, hu, -⟩ := List.map_eq_cons_iff.mp hmap
    have hnext : u.kind = .controlKeyword := (congrArg Word.kind hu).trans hk
    obtain ⟨others, hothers⟩ :=
      unplaced_bareReturn hreturn (hstop hreturn) ⟨u, rfl, hnext⟩ hrun
    rw [hbody] at hothers
    simp at hothers
  · refine .of_accepts (accepts_statements_step (fun t => hstop) (accepts_returned hread hk)
      (fun _ _ => trivial) accepts_statements_nil) ?_
    simpa using hsource
  · have hnext : lead.kind = .controlKeyword := Token.kind_of_word hword
    refine .of_accepts (accepts_statements_step (fun t => hstop) accepts_bareReturn
      (fun after _ => ⟨lead.word, rfl, hnext⟩) (accepts_statements_step (fun t ht => ?_)
        (accepts_keywordLed hread hword hkeyword) (fun _ _ => trivial)
        accepts_statements_nil)) ?_
    · exact hstop (ht.trans hword)
    · simpa using hsource

/-- `return printf("a");` is read as `return; printf("a");`. -/
theorem parsesAsBlock_returned_printed :
    let text := "ジョウジ(「a」)"
    let source := "ザジレ ロゾス ジョウジ(「a」)。ゴパシ"
    let e : Expr := .call (.name "printf" ⟨1, 1⟩) [.string "a" ⟨1, 6⟩] ⟨1, 1⟩
    (Grammar.expression (innerTokens text)).Yields e [] ∧
      (innerTokens source).map Token.word = .openBrace :: .control "return" ::
        ((innerTokens text).map Token.word ++ [.semicolon, .closeBrace]) ∧
      ¬ParsesAsBlock source [.returns (some e.unplaced) .start] ∧
      ParsesAsBlock source [.returns none .start, .expression e.unplaced .start] := by
  intro text source e
  have htext : innerTokens text = [⟨.controlKeyword, .text "printf", ⟨1, 1⟩⟩,
      ⟨.openParen, .text "(", ⟨1, 5⟩⟩, ⟨.stringLiteral, .text "a", ⟨1, 6⟩⟩,
      ⟨.closeParen, .text ")", ⟨1, 9⟩⟩] := by
    show innerTokens "ジョウジ(「a」)" = _
    decide +kernel
  have hsource : (innerTokens source).map Token.word = .openBrace :: .control "return" ::
      ((innerTokens text).map Token.word ++ [.semicolon, .closeBrace]) := by
    rw [htext]
    show (innerTokens "ザジレ ロゾス ジョウジ(「a」)。ゴパシ").map Token.word = _
    decide +kernel
  have hread : (Grammar.expression (innerTokens text)).Yields e [] := by
    rw [htext, ← Reading.result_eq_ok_iff]
    show _ = EStateM.Result.ok
      (Expr.call (.name "printf" ⟨1, 1⟩) [.string "a" ⟨1, 6⟩] ⟨1, 1⟩) []
    cbv
  have hlead : ⟨.controlKeyword, .text "printf", ⟨1, 1⟩⟩ ∈ (innerTokens text).head? := by
    rw [htext]
    rfl
  obtain ⟨hkeeps, hsplits⟩ := parsesAsBlock_returned_iff hread hsource
  refine ⟨hread, hsource, fun hblock => hkeeps.mp hblock _ hlead rfl, ?_⟩
  exact hsplits _ hlead "printf" (by decide) rfl

end Source

end KanaScript
