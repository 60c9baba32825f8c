import KanaScript.Proofs.Grammar.StatementSteps
import KanaScript.Proofs.Grammar.WrittenExpression

/-! Statements that were written are read back.  The terminator after a statement that ends in a
body is taken by the body; else it is left to the list of statements. -/

namespace KanaScript

open Grammar Action

/-- Whether a written statement may start with the word. -/
def Word.leadsStatement (w : Word) : Bool :=
  w.kind != .semicolon && w.kind != .closeBrace &&
    !([.control "else", .control "case", .control "default"].contains w)

theorem Word.leadsStatement_of_leadsExpression {w : Word} (h : w.leadsExpression = true) :
    w.leadsStatement = true := by
  obtain ⟨kind, payload⟩ := w
  cases kind <;> simp [leadsExpression, leadKinds, leadsStatement, control, mark] at h ⊢

theorem Stmt.words_lead (closed : Bool) (s : Stmt) :
    ∃ w ws, s.words closed = w :: ws ∧ w.leadsStatement = true := by
  cases s with
  | ifElse condition consequent alternative position =>
    cases alternative <;> exact ⟨_, _, rfl, by decide⟩
  | switch subject cases fallback position =>
    cases fallback <;> exact ⟨_, _, rfl, by decide⟩
  | declare v =>
    exact ⟨_, _, rfl, by simp [Word.leadsStatement, Word.type, Word.mark, Word.control]⟩
  | expression e position =>
    obtain ⟨w, ws, he, hw⟩ := e.words_lead
    exact ⟨w, ws, he, Word.leadsStatement_of_leadsExpression hw⟩
  | block | whileLoop | forLoop | returns | breaks | continues => exact ⟨_, _, rfl, by decide⟩

/-- Neither a terminator nor an `else` follows. -/
def Free (after : List Word) : Prop :=
  ∀ w ∈ after.head?, w.kind ≠ .semicolon ∧ w ≠ .control "else"

theorem free_of_leadsStatement {w : Word} {ws : List Word} (h : w.leadsStatement = true) :
    Free (w :: ws) := by
  rintro u hu
  obtain rfl : w = u := by simpa using hu
  simp [Word.leadsStatement] at h
  exact ⟨h.1.1, h.2.1⟩

/-- A written statement is read back with the terminator after it; where it ends in a body, the body
may take the terminator. -/
structure Reread (closed : Bool) (s : Stmt) : Prop where
  bare : Accepts bareStatement (·.head? = some .semicolon) (s.words closed)
      (·.unplaced = s.unplaced) ∨
    Accepts bareStatement Free (s.words closed ++ [.semicolon]) (·.unplaced = s.unplaced)
  braced : s.isBlock = true →
    Accepts bareStatement (fun _ => True) (s.words closed) (·.unplaced = s.unplaced)

namespace Reread

variable {closed : Bool} {s : Stmt}

theorem statement (h : Reread closed s) :
    Accepts statement Free (s.words closed ++ [.semicolon]) (·.unplaced = s.unplaced) := by
  rcases h.bare with hbare | hbare
  · exact hbare.terminated fun _ _ => rfl
  · exact hbare.unterminated fun after hafter => ⟨hafter, fun w hw => (hafter w hw).1⟩

/-- A braced body with a terminator. -/
theorem ended (h : Reread closed s) (hb : s.isBlock = true) :
    Accepts Action.statement (fun _ => True) (s.words closed ++ [.semicolon])
      (·.unplaced = s.unplaced) :=
  (h.braced hb).terminated fun _ _ => trivial

/-- A braced body before an `else`. -/
theorem body (h : Reread closed s) (hb : s.isBlock = true) :
    Accepts Action.statement (·.head? = some (.control "else"))
      (s.words closed ++ bodyEnd closed s) (·.unplaced = s.unplaced) := by
  have hend : bodyEnd closed s = if closed then [.semicolon] else [] := by
    obtain ⟨ss, position, rfl⟩ := Stmt.exists_block hb
    rfl
  cases closed with
  | true =>
    rw [hend]
    exact (h.ended hb).mono (fun _ _ => trivial) fun _ => id
  | false =>
    rw [hend, if_neg Bool.false_ne_true, List.append_nil]
    refine (h.braced hb).unterminated fun after hafter => ⟨trivial, fun w hw => ?_⟩
    obtain rfl : Word.control "else" = w := by
      rw [hafter] at hw
      simpa using hw
    decide

end Reread

/-- The words start a block. -/
theorem halts_block {closed : Bool} {s : Stmt} (hb : s.isBlock = true) (more : List Word) :
    Halts (s.words closed ++ more) := by
  obtain ⟨ss, position, rfl⟩ := Stmt.exists_block hb
  rintro w hw
  obtain rfl : Word.openBrace = w := by simpa [Stmt.words] using hw
  decide

/-- Which statement a control word leads. -/
theorem run_bareStatement_control {t : Token} {keyword : String} (ht : t.word = .control keyword)
    (rest : List Token) : bareStatement.run (t :: rest) =
      if keyword = "if" then (ifElse t.position).run rest
      else if keyword = "while" then (whileLoop t.position).run rest
      else if keyword = "for" then (forLoop t.position).run rest
      else if keyword = "switch" then (switch t.position).run rest
      else if keyword = "return" then (Action.returns t.position).run rest
      else if keyword = "break" then .ok (.breaks t.position) rest
      else if keyword = "continue" then .ok (.continues t.position) rest
      else expressionStatement.run (t :: rest) :=
  run_bareStatement_word (Token.isWord_iff.mpr ht) rest

section Bodies

variable {closed : Bool} {condition : Expr} {s : Stmt} {position : Position}

/-- A statement that ends in a body, which takes the terminator unless it has one of its own. -/
theorem Reread.of_body (core : List Word) (hb : s.isBlock = false)
    (hcore : Accepts bareStatement (fun after => ∀ w ∈ after.head?, w ≠ .control "else") core
      (·.unplaced = s.unplaced))
    (hwords : s.words closed ++ (if closed then [] else [.semicolon]) = core) :
    Reread closed s := by
  refine ⟨?_, fun h => ?_⟩
  · cases closed with
    | true =>
      rw [if_pos rfl, List.append_nil] at hwords
      refine .inl (hwords ▸ hcore.mono (fun after hafter w hw => ?_) fun _ => id)
      obtain rfl : Word.semicolon = w := by
        rw [hafter] at hw
        simpa using hw
      decide
    | false =>
      rw [if_neg Bool.false_ne_true] at hwords
      exact .inr (hwords ▸ hcore.mono (fun after hafter w hw => (hafter w hw).2) fun _ => id)
  · cases hb.symm.trans h

theorem bodyEnd_append {s : Stmt} (hs : s.isBlock = true) :
    bodyEnd closed s ++ (if closed then [] else [.semicolon]) = [.semicolon] := by
  obtain ⟨ss, position, rfl⟩ := Stmt.exists_block hs
  cases closed <;> rfl

theorem Reread.whileLoop (known : condition.HasKnownOperators) (hs : Reread closed s)
    (hb : s.isBlock = true) : Reread closed (.whileLoop condition s position) := by
  refine .of_body (.control "while" :: (condition.words ++ (s.words closed ++ [.semicolon]))) rfl ?_
    (by simp [Stmt.words, bodyEnd_append hb])
  refine .led (fun t => Action.whileLoop t.position)
    (fun t rest ht => run_bareStatement_control ht rest) fun t _ => ?_
  refine (accepts_expression known).bind (fun after _ => ?_) fun c hc => ?_
  · rw [List.append_assoc]
    exact halts_block hb _
  refine ((hs.ended hb).mono (fun _ _ => trivial) fun _ => id).map fun body hbody => ?_
  rw [Stmt.unplaced, Stmt.unplaced, hc, hbody]

section For

variable {init : Option ForInit} {condition update : Option Expr}

theorem accepts_forInit (known : ∀ i ∈ init, ∀ e ∈ i.expressions, e.HasKnownOperators) :
    Accepts forInit (·.head? = some .comma) ((init.map ForInit.words).getD [])
      (·.map ForInit.unplaced = init.map ForInit.unplaced) := by
  have hhalts : ∀ after : List Word, after.head? = some .comma → Halts after := by
    intro after hafter w hw
    obtain rfl : Word.comma = w := by
      rw [hafter] at hw
      simpa using hw
    decide
  match init with
  | none =>
    refine .stopIf rfl fun after hafter t ht => ?_
    rw [hafter] at ht
    obtain ⟨u, rfl, hu⟩ := Option.map_eq_some_iff.mp ht
    simpa using Token.kind_of_word hu
  | some (.declare v) =>
    refine .goOn (.takeIf (fun _ => Token.kind_of_word) fun t ht => ?_) fun after hafter t ht => ?_
    · have hv := accepts_typedVariable (v := v) (by simpa [ForInit.expressions] using known) ht
      refine (hv.mono hhalts fun _ => id).map fun read hread => ?_
      simp [ForInit.unplaced, hread]
    · obtain ⟨u, rfl, hu⟩ := Option.map_eq_some_iff.mp (show _ = some (Word.type _) from ht)
      simp [Token.kind_of_word hu]
  | some (.expression e) =>
    have he := accepts_expression (e := e) (by simpa [ForInit.expressions] using known)
    refine .goOn (.skip (fun after hafter t ht => ?_) ?_) fun after hafter t ht => ?_
    · exact Word.kind_ne_of_leadsExpression (Expr.leadsExpression_of_head ht) rfl
    · refine (he.mono hhalts fun _ => id).map fun read hread => ?_
      simp [ForInit.unplaced, hread]
    · cases t with
      | none => simp
      | some u =>
        have hu : u.word.leadsExpression = true := Expr.leadsExpression_of_head ht.symm
        have hk : u.kind ≠ .comma := Word.kind_ne_of_leadsExpression hu rfl
        simpa using hk

/-- The three clauses in their parentheses. -/
theorem accepts_forHead (hinit : ∀ i ∈ init, ∀ e ∈ i.expressions, e.HasKnownOperators)
    (hcondition : ∀ e ∈ condition, e.HasKnownOperators)
    (hupdate : ∀ e ∈ update, e.HasKnownOperators) :
    Accepts forHead (fun _ => True) (.openParen :: ((init.map ForInit.words).getD [] ++
      .comma :: (optionalWords condition ++ .comma :: (optionalWords update ++ [.closeParen]))))
      fun head => head.init.map ForInit.unplaced = init.map ForInit.unplaced ∧
        head.condition.map Expr.unplaced = condition.map Expr.unplaced ∧
        head.update.map Expr.unplaced = update.map Expr.unplaced := by
  have hcondition := accepts_optionalExpression .comma "," hcondition (by decide) rfl
  have hupdate := accepts_optionalExpression .closeParen ")" hupdate (by decide) rfl
  refine .takeIf (fun _ => Token.kind_of_word) fun _ _ => ?_
  refine (accepts_forInit hinit).bind (fun _ _ => rfl) fun i hi => .expect fun _ => ?_
  refine hcondition.bind (fun _ _ => rfl) fun c hc => .expect fun _ => ?_
  refine hupdate.bind (fun _ _ => rfl) fun u hu => .expect fun _ => ?_
  exact .pure ⟨hi, hc, hu⟩

theorem Reread.forLoop (hinit : ∀ i ∈ init, ∀ e ∈ i.expressions, e.HasKnownOperators)
    (hcondition : ∀ e ∈ condition, e.HasKnownOperators)
    (hupdate : ∀ e ∈ update, e.HasKnownOperators) (hs : Reread closed s) (hb : s.isBlock = true) :
    Reread closed (.forLoop init condition update s position) := by
  refine .of_body (.control "for" :: ((.openParen :: ((init.map ForInit.words).getD [] ++
    .comma :: (optionalWords condition ++ .comma :: (optionalWords update ++ [.closeParen])))) ++
      (s.words closed ++ [.semicolon]))) rfl ?_ (by simp [Stmt.words, bodyEnd_append hb])
  refine .led (fun t => Action.forLoop t.position)
    (fun t rest ht => run_bareStatement_control ht rest) fun t _ => ?_
  refine (accepts_forHead hinit hcondition hupdate).bind (fun _ _ => trivial) fun head hhead => ?_
  refine ((hs.ended hb).mono (fun _ _ => trivial) fun _ => id).map fun body hbody => ?_
  rw [Stmt.unplaced, Stmt.unplaced, hhead.1, hhead.2.1, hhead.2.2, hbody]

end For

theorem Reread.ifOnly (known : condition.HasKnownOperators) (hs : Reread closed s)
    (hb : s.isBlock = true) : Reread closed (.ifElse condition s none position) := by
  refine .of_body (.control "if" :: (condition.words ++ (s.words closed ++ [.semicolon]))) rfl ?_
    (by simp [Stmt.words, bodyEnd_append hb])
  refine .led (fun t => Action.ifElse t.position)
    (fun t rest ht => run_bareStatement_control ht rest) fun t _ => ?_
  refine (accepts_expression known).bind (fun after _ => ?_) fun c hc => ?_
  · rw [List.append_assoc]
    exact halts_block hb _
  refine (hs.ended hb).bindLast (fun _ _ => trivial) fun body hbody => ?_
  refine .skip (fun after hafter t ht hw => ?_) (.pure ?_)
  · exact hafter t.word ht (Token.isWord_iff.mp hw)
  · rw [Stmt.unplaced, Stmt.unplaced, hc, hbody]

/-- An `if` with an `else` takes what follows the `else` as `alternative` does. -/
theorem accepts_ifElse (position : Position) {other : Stmt} {follow : List Word → Prop}
    {words : List Word}
    (known : condition.HasKnownOperators) (hs : Reread closed s) (hb : s.isBlock = true)
    (hother : Accepts alternative follow words (·.unplaced = other.unplaced)) :
    Accepts bareStatement follow (.control "if" :: (condition.words ++
      (s.words closed ++ bodyEnd closed s ++ .control "else" :: words)))
      (·.unplaced = (Stmt.ifElse condition s (some other) position).unplaced) := by
  refine .led (fun t => Action.ifElse t.position)
    (fun t rest ht => run_bareStatement_control ht rest) fun t _ => ?_
  refine (accepts_expression known).bind (fun after _ => ?_) fun c hc => ?_
  · simp only [List.append_assoc]
    exact halts_block hb _
  refine (hs.body hb).bind (fun _ _ => rfl) fun body hbody => ?_
  refine .takeIf (fun _ => Token.isWord_iff.mpr) fun _ _ => hother.map fun o ho => ?_
  rw [Stmt.unplaced, Stmt.unplaced, hc, hbody, ho]

/-- After `else`, an `if` is read as elsewhere. -/
theorem accepts_alternative {other : Stmt} {follow : List Word → Prop} (more : List Word)
    {good : Stmt → Prop} (hif : other.isIf = true)
    (h : Accepts bareStatement follow (other.words closed ++ more) good) :
    Accepts alternative follow (other.words closed ++ more) good := by
  refine h.congr fun ts after hts _ => if_pos ?_
  obtain ⟨ws, hws⟩ : ∃ ws, other.words closed = .control "if" :: ws := by
    match other with
    | .ifElse _ _ none _ => exact ⟨_, rfl⟩
    | .ifElse _ _ (some _) _ => exact ⟨_, rfl⟩
  rw [hws, List.append_assoc, List.cons_append] at hts
  obtain ⟨t, us, rfl, ht, -⟩ := List.map_eq_cons_iff.mp hts
  exact Token.isWord_iff.mpr ht

theorem Reread.ifElse {other : Stmt} (known : condition.HasKnownOperators) (hs : Reread closed s)
    (hb : s.isBlock = true) (hother : Reread closed other)
    (ho : (other.isBlock || other.isIf) = true) :
    Reread closed (.ifElse condition s (some other) position) := by
  rcases Bool.or_eq_true_iff.mp ho with hblock | hif
  · have hend : Accepts alternative (fun _ => True) (other.words closed ++ [.semicolon])
        (·.unplaced = other.unplaced) := by
      rw [alternative_eq]
      refine .skip (fun after _ t ht hw => ?_) (hother.ended hblock)
      obtain ⟨ss, position, rfl⟩ := Stmt.exists_block hblock
      have ht : Word.openBrace = t.word := by simpa [Stmt.words] using ht
      rw [Token.isWord_iff, ← ht] at hw
      cases hw
    have whole := accepts_ifElse position known hs hb hend
    refine .of_body _ rfl (whole.mono (fun _ _ => trivial) fun _ => id) ?_
    simp [Stmt.words, bodyEnd_append hblock]
  · have hend : bodyEnd closed other = [] := by
      cases other with
      | ifElse => rfl
      | _ => cases hif
    refine ⟨hother.bare.imp (fun h => ?_) fun h => ?_, nofun⟩
    · have whole := accepts_ifElse position known hs hb
        (accepts_alternative [] hif (by simpa using h))
      simpa [Stmt.words, hend] using whole
    · have whole := accepts_ifElse position known hs hb (accepts_alternative _ hif h)
      simpa [Stmt.words, hend] using whole

end Bodies

section Plain

variable {closed : Bool} {position : Position}

theorem halts_of_semicolon {after : List Word} (h : after.head? = some .semicolon) :
    Halts after := by
  intro w hw
  obtain rfl : Word.semicolon = w := by
    rw [h] at hw
    simpa using hw
  decide

theorem Reread.returns {value : Option Expr} (known : ∀ e ∈ value, e.HasKnownOperators) :
    Reread closed (.returns value position) := by
  refine ⟨.inl ?_, nofun⟩
  refine .led (fun t => Action.returns t.position)
    (fun t rest ht => run_bareStatement_control ht rest) fun t _ => ?_
  cases value with
  | none =>
    refine .stopIf rfl fun after hafter t ht => ?_
    rw [hafter] at ht
    obtain ⟨u, rfl, hu⟩ := Option.map_eq_some_iff.mp ht
    simp [endsReturn, Token.kind_of_word hu]
  | some e =>
    have he := (accepts_expression (known e rfl)).mono (fun _ => halts_of_semicolon) fun _ => id
    refine .goOn (he.map fun read hread => ?_) fun after hafter t ht => ?_
    · rw [Stmt.unplaced, Stmt.unplaced, Option.map_some, hread, Option.map_some]
    · obtain ⟨w, ws, he, hw⟩ := e.words_lead
      have ht : t.map Token.word = some w := by
        rw [ht, optionalWords, Option.map_some, Option.getD_some, he]
        rfl
      obtain ⟨u, rfl, rfl⟩ := Option.map_eq_some_iff.mp ht
      have hk : ∀ kind, leadKinds.contains kind = false → u.kind ≠ kind :=
        fun _ => Word.kind_ne_of_leadsExpression hw
      simp [endsReturn, hk .closeBrace rfl, hk .semicolon rfl, hk .controlKeyword rfl,
        hk .typeKeyword rfl]

theorem Reread.breaks : Reread closed (.breaks position) := by
  refine ⟨.inl (.led (fun t => (pure (.breaks t.position) : Action Stmt)) ?_ fun t _ => ?_), nofun⟩
  · exact fun t rest ht => run_bareStatement_control ht rest
  · exact .pure rfl

theorem Reread.continues : Reread closed (.continues position) := by
  refine ⟨.inl (.led (fun t => (pure (.continues t.position) : Action Stmt)) ?_ fun t _ => ?_),
    nofun⟩
  · exact fun t rest ht => run_bareStatement_control ht rest
  · exact .pure rfl

theorem Reread.declare {v : Variable} (known : ∀ e ∈ v.init, e.HasKnownOperators) :
    Reread closed (.declare v) := by
  refine ⟨.inl ?_, nofun⟩
  refine .led (fun t => do return .declare (← typedVariable t)) (fun t rest ht => ?_) fun t ht => ?_
  · have hk : t.kind = .typeKeyword := Token.kind_of_word ht
    rw [run_bareStatement_plain (by simp [hk]), if_neg (by simp [hk]), if_pos hk]
  · have hv := (accepts_typedVariable known ht).mono (fun _ => halts_of_semicolon) fun _ => id
    refine hv.map fun read hread => ?_
    rw [Stmt.unplaced, Stmt.unplaced, hread]

theorem Reread.expression {e : Expr} (known : e.HasKnownOperators) :
    Reread closed (.expression e position) := by
  refine ⟨.inl ?_, nofun⟩
  have he := (accepts_expression known).mono (fun _ => halts_of_semicolon) fun _ => id
  intro ts rest hts hrest
  obtain ⟨read, hrun, hread⟩ := he ts rest hts hrest
  refine ⟨.expression read (here (ts ++ rest)), ?_, by simp [Stmt.unplaced, hread]⟩
  obtain ⟨w, ws, hw, hlead⟩ := e.words_lead
  obtain ⟨t, us, rfl, rfl, -⟩ := List.map_eq_cons_iff.mp (hts.trans hw)
  have hk : ∀ {kind : TokenKind}, leadKinds.contains kind = false → t.kind ≠ kind :=
    Word.kind_ne_of_leadsExpression hlead
  rw [List.cons_append, run_bareStatement_plain (hk rfl), if_neg (hk rfl), if_neg (hk rfl)]
  exact bind_of_ok hrun

end Plain

section Lists

variable {closed : Bool} {position : Position} {stop : Token → Bool}

/-- The words end a list of statements that stops at `stop`. -/
def Closes (stop : Token → Bool) (after : List Word) : Prop :=
  Free after ∧ ∀ t : Token, after.head? = some t.word → stop t = true

theorem accepts_statements_nil : Accepts (statements stop) (Closes stop) []
    (unplacedStatements · = unplacedStatements []) := by
  rw [statements_eq]
  refine .stopIf rfl fun after hafter t ht => ?_
  cases t with
  | none => rfl
  | some u => exact hafter.2 u ht.symm

/-- A statement and the list after it. -/
theorem accepts_statements_step {follow : List Word → Prop} {w : Word} {words words' : List Word}
    {s : Stmt} {ss : List Stmt} (hstop : ∀ t : Token, t.word = w → stop t = false)
    (hs : Accepts Action.statement follow (w :: words) (·.unplaced = s))
    (hfollow : ∀ after, Closes stop after → follow (words' ++ after))
    (hss : Accepts (statements stop) (Closes stop) words' (unplacedStatements · = ss)) :
    Accepts (statements stop) (Closes stop) (w :: words ++ words')
      (unplacedStatements · = s :: ss) := by
  rw [statements_eq]
  refine .goOn (hs.bind hfollow fun read hread => ?_) fun after _ t ht => ?_
  · refine hss.map fun reads hreads => ?_
    rw [unplacedStatements, hread, hreads]
  · obtain ⟨u, rfl, hu⟩ := Option.map_eq_some_iff.mp ht
    simp [hstop u hu]

theorem accepts_statements_cons {s : Stmt} {ss : List Stmt}
    (hstop : ∀ t : Token, t.word.leadsStatement = true → stop t = false)
    (hs : Reread closed s)
    (hss : Accepts (statements stop) (Closes stop) (statementWords closed ss)
      (unplacedStatements · = unplacedStatements ss)) :
    Accepts (statements stop) (Closes stop) (statementWords closed (s :: ss))
      (unplacedStatements · = unplacedStatements (s :: ss)) := by
  obtain ⟨w, ws, hw, hlead⟩ := s.words_lead closed
  have hwords : statementWords closed (s :: ss) =
      w :: (ws ++ [Word.semicolon]) ++ statementWords closed ss := by
    simp [statementWords, hw]
  have hstatement := hs.statement
  rw [hw] at hstatement
  rw [hwords, unplacedStatements]
  refine accepts_statements_step (fun t ht => hstop t (ht ▸ hlead)) hstatement
    (fun after hafter => ?_) hss
  cases ss with
  | nil => exact hafter.1
  | cons s' ss =>
    obtain ⟨u, us, hu, hulead⟩ := s'.words_lead closed
    rw [statementWords, hu]
    exact free_of_leadsStatement hulead

/-- The words that lead a statement are no closing brace, and no word that ends a clause. -/
theorem stop_of_leadsStatement {t : Token} (h : t.word.leadsStatement = true) :
    (t.kind == .closeBrace) = false ∧ endsClause t = false := by
  simp only [Word.leadsStatement, Token.word_kind, Bool.and_eq_true, bne_iff_ne, ne_eq,
    Bool.not_eq_true', List.contains_eq_mem, decide_eq_false_iff_not, List.mem_cons,
    List.not_mem_nil, or_false, not_or] at h
  obtain ⟨⟨-, hclose⟩, -, hcase, hdefault⟩ := h
  have hcase : t.isWord .controlKeyword "case" ≠ true := fun hw => hcase (Token.isWord_iff.mp hw)
  have hdefault : t.isWord .controlKeyword "default" ≠ true :=
    fun hw => hdefault (Token.isWord_iff.mp hw)
  simp [endsClause, hclose, hcase, hdefault]

theorem closes_cons {w : Word} {ws : List Word} (hfree : w.kind ≠ .semicolon ∧ w ≠ .control "else")
    (hstop : ∀ t : Token, t.word = w → stop t = true) : Closes stop (w :: ws) := by
  refine ⟨fun u hu => ?_, fun t ht => hstop t (Option.some.inj ht).symm⟩
  obtain rfl : w = u := by simpa using hu
  exact hfree

section Blocks

variable {words : List Word} {ss : List Stmt}

/-- A block after its opening brace. -/
theorem accepts_openedBlock {opening : Token}
    (hss : Accepts (statements fun t => t.kind == .closeBrace)
      (Closes fun t => t.kind == .closeBrace) words (unplacedStatements · = ss)) :
    Accepts (openedBlock opening) (fun _ => True) (words ++ [Word.closeBrace])
      (unplacedStatements ·.statements = ss) := by
  refine hss.bind (fun _ _ => ?_) fun read hread => .expect fun _ => .pure hread
  exact closes_cons (by decide) fun t ht => by simp [Token.kind_of_word ht]

theorem accepts_blockStatement (hss : Accepts (statements fun t => t.kind == .closeBrace)
      (Closes fun t => t.kind == .closeBrace) words (unplacedStatements · = ss)) :
    Accepts bareStatement (fun _ => True) (.openBrace :: (words ++ [Word.closeBrace]))
      (·.unplaced = .block ss .start) := by
  refine .led (fun t => do
    let b ← openedBlock t
    return .block b.statements b.position) (fun t rest ht => ?_) fun t ht => ?_
  · have hk : t.kind = .openBrace := Token.kind_of_word ht
    rw [run_bareStatement_plain (by simp [hk]), if_pos hk]
  · refine (accepts_openedBlock hss).map fun b hb => ?_
    rw [Stmt.unplaced, hb]

end Blocks

theorem Reread.block {ss : List Stmt}
    (hss : Accepts (statements fun t => t.kind == .closeBrace)
      (Closes fun t => t.kind == .closeBrace) (statementWords closed ss)
      (unplacedStatements · = unplacedStatements ss)) :
    Reread closed (.block ss position) := by
  have hblock : Accepts bareStatement (fun _ => True) ((Stmt.block ss position).words closed)
      (·.unplaced = (Stmt.block ss position).unplaced) := accepts_blockStatement hss
  exact ⟨.inl (hblock.mono (fun _ _ => trivial) fun _ => id), fun _ => hblock⟩

section Clauses

/-- What reading the clauses of a `switch` gives. -/
def SameClauses (cases : List Clause) (fallback : Option (List Stmt))
    (found : List Clause × Option (List Stmt)) : Prop :=
  unplacedClauses found.1 = unplacedClauses cases ∧
    found.2.map unplacedStatements = fallback.map unplacedStatements

theorem accepts_clauses_nil (seen : Bool) :
    Accepts (clauses seen) (·.head? = some .closeBrace) [] (SameClauses [] none) := by
  -- a closing brace is neither of the words that lead a clause
  have hno : ∀ {after : List Word} {t : Token} {keyword : String},
      after.head? = some .closeBrace → ([] ++ after).head? = some t.word →
        ¬t.isWord .controlKeyword keyword = true := by
    intro after t keyword hafter ht hw
    rw [List.nil_append, hafter] at ht
    cases (Option.some.inj ht).trans (Token.isWord_iff.mp hw)
  rw [clauses_eq]
  refine .skip (fun after hafter t ht => hno hafter ht) ?_
  cases seen with
  | true =>
    have hnone : SameClauses [] none ([], none) := ⟨rfl, rfl⟩
    refine (Accepts.pure hnone).congr fun ts after hts hafter => ?_
    cases ts with
    | nil => rfl
    | cons t us => exact if_neg (hno hafter (hts ▸ rfl))
  | false => exact .skip (fun after hafter t ht => hno hafter ht) (.pure ⟨rfl, rfl⟩)

theorem closes_endsClause {after : List Word} (h : after.head? = some .closeBrace) :
    Closes endsClause after := by
  obtain ⟨ws, rfl⟩ := List.head?_eq_some_iff.mp h
  exact closes_cons (by decide) fun t ht => by simp [endsClause, Token.kind_of_word ht]

theorem accepts_clauses_default {fallback : List Stmt}
    (hss : Accepts (statements endsClause) (Closes endsClause) (statementWords closed fallback)
      (unplacedStatements · = unplacedStatements fallback)) :
    Accepts (clauses false) (·.head? = some .closeBrace)
      (.control "default" :: .colon :: statementWords closed fallback)
      (SameClauses [] (some fallback)) := by
  rw [clauses_eq]
  refine .skip (fun after _ t ht hw => ?_) ?_
  · have hcase := (Option.some.inj ht).trans (Token.isWord_iff.mp hw)
    simp [Word.control, Word.mark] at hcase
  refine .takeIf (fun _ => Token.isWord_iff.mpr) fun _ _ => .expect fun _ => ?_
  refine hss.bindLast (fun after => closes_endsClause) fun body hbody => ?_
  refine (accepts_clauses_nil true).map fun found hfound => ⟨hfound.1, ?_⟩
  rw [Option.map_some, hbody, Option.map_some]

theorem accepts_clauses_cons {value : Expr} {ss : List Stmt} {cases : List Clause}
    {fallback : Option (List Stmt)} {words : List Word} (known : value.HasKnownOperators)
    (hss : Accepts (statements endsClause) (Closes endsClause) (statementWords closed ss)
      (unplacedStatements · = unplacedStatements ss))
    (hothers : Accepts (clauses false) (·.head? = some .closeBrace) words
      (SameClauses cases fallback))
    (hwords : ∀ after, after.head? = some .closeBrace → Closes endsClause (words ++ after)) :
    Accepts (clauses false) (·.head? = some .closeBrace)
      (.control "case" :: (value.words ++ .colon :: (statementWords closed ss ++ words)))
      (SameClauses (.case value ss position :: cases) fallback) := by
  rw [clauses_eq]
  refine .takeIf (fun _ => Token.isWord_iff.mpr) fun t _ => ?_
  refine (accepts_expression known).bind (fun _ _ => ?_) fun v hv => .expect fun _ => ?_
  · simp [Halts, Word.colon, Word.mark]
  refine hss.bind hwords fun body hbody => hothers.map fun found hfound => ⟨?_, hfound.2⟩
  rw [unplacedClauses, unplacedClauses, hv, hbody, hfound.1]

theorem Reread.switch {subject : Expr} {cases : List Clause} {fallback : Option (List Stmt)}
    {words : List Word} (known : subject.HasKnownOperators)
    (hclauses : Accepts (clauses false) (·.head? = some .closeBrace) words
      (SameClauses cases fallback))
    (hwords : (Stmt.switch subject cases fallback position).words closed =
      .control "switch" :: (subject.words ++ .openBrace :: (words ++ [.closeBrace]))) :
    Reread closed (.switch subject cases fallback position) := by
  refine ⟨.inl ?_, nofun⟩
  rw [hwords]
  refine .led (fun t => Action.switch t.position)
    (fun t rest ht => run_bareStatement_control ht rest) fun t _ => ?_
  refine (accepts_expression known).bind (fun _ _ => ?_) fun e he => .expect fun _ => ?_
  · simp [Halts, Word.openBrace, Word.mark]
  refine hclauses.bind (fun _ _ => rfl) fun found hfound => .expect fun _ => .pure ?_
  obtain ⟨others, last⟩ := found
  obtain ⟨hcases, hlast⟩ := hfound
  cases last with
  | none =>
    cases fallback with
    | none => rw [Stmt.unplaced, Stmt.unplaced, he, hcases]
    | some => cases hlast
  | some =>
    cases fallback with
    | none => cases hlast
    | some => rw [Stmt.unplaced, Stmt.unplaced, he, hcases, Option.some.inj hlast]

end Clauses

end Lists

/-- A statement that can be written: its bodies are braced and its operators are the grammar's. -/
def Stmt.IsWritable (s : Stmt) : Prop :=
  s.hasBracedBodies = true ∧ ∀ e ∈ s.expressions, e.HasKnownOperators

mutual

theorem Stmt.reread (closed : Bool) : ∀ s : Stmt, (∀ x ∈ s.nodes, x.IsWritable) → Reread closed s
  | .block ss _, h => by
    rw [Stmt.nodes, List.forall_mem_cons] at h
    exact .block (accepts_statements closed (fun t ht => (stop_of_leadsStatement ht).1) ss h.2)
  | .declare v, h => by
    rw [Stmt.nodes, List.forall_mem_singleton] at h
    exact .declare (by simpa [Stmt.expressions] using h.2)
  | .ifElse condition s none _, h => by
    rw [Stmt.nodes, List.forall_mem_cons] at h
    obtain ⟨⟨hbodies, hcondition⟩, hs⟩ := h
    rw [Stmt.hasBracedBodies, Option.all_none, Bool.and_true] at hbodies
    exact .ifOnly (hcondition _ List.mem_cons_self) (s.reread closed hs) hbodies
  | .ifElse condition s (some other) _, h => by
    rw [Stmt.nodes, List.forall_mem_cons, List.forall_mem_append] at h
    obtain ⟨⟨hbodies, hcondition⟩, hs, hother⟩ := h
    rw [Stmt.hasBracedBodies, Option.all_some, Bool.and_eq_true] at hbodies
    exact .ifElse (hcondition _ List.mem_cons_self) (s.reread closed hs) hbodies.1
      (other.reread closed hother) hbodies.2
  | .whileLoop condition s _, h => by
    rw [Stmt.nodes, List.forall_mem_cons] at h
    obtain ⟨⟨hbody, hcondition⟩, hs⟩ := h
    exact .whileLoop (hcondition _ List.mem_cons_self) (s.reread closed hs) hbody
  | .forLoop init condition update s _, h => by
    rw [Stmt.nodes, List.forall_mem_cons] at h
    obtain ⟨⟨hbody, hclauses⟩, hs⟩ := h
    simp only [Stmt.expressions, List.forall_mem_append, Option.mem_toList] at hclauses
    refine .forLoop (fun i hi => ?_) hclauses.1.2 hclauses.2 (s.reread closed hs) hbody
    rw [Option.mem_def] at hi
    simpa [hi] using hclauses.1.1
  | .switch subject cases none _, h => by
    rw [Stmt.nodes, List.forall_mem_cons] at h
    obtain ⟨⟨-, hvalues⟩, hcases⟩ := h
    rw [Stmt.expressions, List.forall_mem_cons, List.forall_mem_map] at hvalues
    have whole := accepts_clauses closed cases hvalues.2 hcases (accepts_clauses_nil false)
      fun _ => closes_endsClause
    exact .switch hvalues.1 whole (by simp [Stmt.words])
  | .switch subject cases (some fallback) _, h => by
    rw [Stmt.nodes, List.forall_mem_cons, List.forall_mem_append] at h
    obtain ⟨⟨-, hvalues⟩, hcases, hfallback⟩ := h
    rw [Stmt.expressions, List.forall_mem_cons, List.forall_mem_map] at hvalues
    have last := accepts_clauses_default
      (accepts_statements closed (fun t ht => (stop_of_leadsStatement ht).2) fallback hfallback)
    have whole := accepts_clauses closed cases hvalues.2 hcases last fun _ _ =>
      closes_cons (by decide) fun t ht => by simp [endsClause, Token.isWord_iff, ht, Word.control]
    exact .switch hvalues.1 whole (by simp [Stmt.words])
  | .returns value _, h => by
    rw [Stmt.nodes, List.forall_mem_singleton] at h
    exact .returns (by simpa [Stmt.expressions] using h.2)
  | .breaks _, _ => .breaks
  | .continues _, _ => .continues
  | .expression e _, h => by
    rw [Stmt.nodes, List.forall_mem_singleton] at h
    exact .expression (h.2 e List.mem_cons_self)

theorem accepts_statements (closed : Bool) {stop : Token → Bool}
    (hstop : ∀ t : Token, t.word.leadsStatement = true → stop t = false) : ∀ ss : List Stmt,
    (∀ x ∈ statementNodes ss, x.IsWritable) →
      Accepts (statements stop) (Closes stop) (statementWords closed ss)
        (unplacedStatements · = unplacedStatements ss)
  | [], _ => accepts_statements_nil
  | s :: ss, h => by
    rw [statementNodes, List.forall_mem_append] at h
    exact accepts_statements_cons hstop (s.reread closed h.1)
      (accepts_statements closed hstop ss h.2)

/-- The cases of a `switch`, before the words of a default or none. -/
theorem accepts_clauses (closed : Bool) {fallback : Option (List Stmt)} {words : List Word} :
    ∀ cases : List Clause, (∀ c ∈ cases, c.value.HasKnownOperators) →
      (∀ x ∈ clauseNodes cases, x.IsWritable) →
      Accepts (clauses false) (·.head? = some .closeBrace) words (SameClauses [] fallback) →
      (∀ after, after.head? = some .closeBrace → Closes endsClause (words ++ after)) →
      Accepts (clauses false) (·.head? = some .closeBrace) (clauseWords closed cases ++ words)
        (SameClauses cases fallback)
  | [], _, _, hlast, _ => hlast
  | .case value ss position :: cases, hvalues, h, hlast, hwords => by
    rw [clauseNodes, List.forall_mem_append] at h
    rw [List.forall_mem_cons] at hvalues
    have hss := accepts_statements closed (fun t ht => (stop_of_leadsStatement ht).2) ss h.1
    have hothers := accepts_clauses closed cases hvalues.2 h.2 hlast hwords
    have hcloses : ∀ after, after.head? = some .closeBrace →
        Closes endsClause (clauseWords closed cases ++ words ++ after) := by
      intro after hafter
      cases cases with
      | nil => exact hwords after hafter
      | cons c cs =>
        cases c
        exact closes_cons (by decide) fun t ht => by
          simp [endsClause, Token.isWord_iff, ht, Word.control]
    rw [clauseWords, List.cons_append, List.append_assoc, List.cons_append, List.append_assoc]
    exact accepts_clauses_cons hvalues.1 hss hothers hcloses

end

end KanaScript
