import KanaScript.Proofs.Grammar.ProgramAction

/-! What a statement is read from, in one step: the token in front decides which statement it is,
and each kind of statement is stated with what is read for its parts. -/

namespace KanaScript

/-- The control keywords that lead a statement of their own. -/
def statementLeads : List String :=
  ["if", "while", "for", "switch", "return", "break", "continue"]

namespace Grammar

/-- Whether a statement that is no expression starts with the token. -/
def leadsStatement (t : Token) : Bool :=
  t.kind == .openBrace || statementLeads.any (t.isWord .controlKeyword) || t.kind == .typeKeyword

namespace Action

variable {t u : Token} {ts us vs rest : List Token}

theorem isWord_iff_eq {kind : TokenKind} {text other : String} (h : t.isWord kind text = true) :
    t.isWord kind other = true ↔ text = other := by
  simp only [Token.isWord, Bool.and_eq_true, beq_iff_eq] at h ⊢
  rw [h.1, h.2, Payload.text.injEq]
  exact and_iff_right rfl

/-- Which statement a control word leads. -/
theorem run_bareStatement_word {keyword : String} (ht : t.isWord .controlKeyword keyword = true)
    (ts : List Token) : bareStatement.run (t :: ts) =
      if keyword = "if" then (ifElse t.position).run ts
      else if keyword = "while" then (whileLoop t.position).run ts
      else if keyword = "for" then (forLoop t.position).run ts
      else if keyword = "switch" then (switch t.position).run ts
      else if keyword = "return" then (returns t.position).run ts
      else if keyword = "break" then .ok (.breaks t.position) ts
      else if keyword = "continue" then .ok (.continues t.position) ts
      else expressionStatement.run (t :: ts) := by
  have hkind : t.kind = .controlKeyword := by
    simp only [Token.isWord, Bool.and_eq_true, beq_iff_eq] at ht
    exact ht.1
  simp only [bareStatement_eq, run_takeIf_cons, hkind, isWord_iff_eq ht, reduceCtorEq, if_false,
    run_pure]

/-- Which statement a token leads that is no control word. -/
theorem run_bareStatement_plain (ht : t.kind ≠ .controlKeyword) (ts : List Token) :
    bareStatement.run (t :: ts) =
      if t.kind = .openBrace then
        (do let b ← openedBlock t; return .block b.statements b.position : Action Stmt).run ts
      else if t.kind = .typeKeyword then
        (do let v ← typedVariable t; return .declare v : Action Stmt).run ts
      else expressionStatement.run (t :: ts) := by
  have hword : ∀ word, t.isWord .controlKeyword word = false := by simp [Token.isWord, ht]
  simp only [bareStatement_eq, run_takeIf_cons, hword, Bool.false_eq_true, if_false]

theorem run_bareStatement_openBrace (ht : t.kind = .openBrace) (ts : List Token) :
    bareStatement.run (t :: ts) =
      (do let b ← openedBlock t; return .block b.statements b.position : Action Stmt).run ts := by
  rw [run_bareStatement_plain (by simp [ht]), if_pos ht]

theorem run_bareStatement_typeKeyword (ht : t.kind = .typeKeyword) (ts : List Token) :
    bareStatement.run (t :: ts) =
      (do let v ← typedVariable t; return .declare v : Action Stmt).run ts := by
  rw [run_bareStatement_plain (by simp [ht]), if_neg (by simp [ht]), if_pos ht]

theorem run_bareStatement_expression (plain : ∀ t ∈ ts.head?, leadsStatement t = false) :
    bareStatement.run ts = expressionStatement.run ts := by
  cases ts with
  | nil =>
    rw [bareStatement_eq]
    rfl
  | cons t ts =>
    have ht := plain t rfl
    simp only [leadsStatement, statementLeads, Bool.or_eq_false_iff, beq_eq_false_iff_ne,
      List.any_cons, List.any_nil, Bool.or_false] at ht
    rw [bareStatement_eq]
    simp only [run_takeIf_cons, ht, if_false, Bool.false_eq_true]

/-- The statement is read from `ts` and leaves `rest`. -/
inductive ReadsStatement : List Token → Stmt → List Token → Prop
  | block {t u : Token} {ts rest : List Token} {ss : List Stmt} (opening : t.kind = .openBrace)
      (inner : (statements fun t => t.kind == .closeBrace).run ts = .ok ss (u :: rest))
      (closing : u.kind = .closeBrace) : ReadsStatement (t :: ts) (.block ss t.position) rest
  | ifOnly {t : Token} {ts us rest : List Token} {condition : Expr} {consequent : Stmt}
      (word : t.isWord .controlKeyword "if" = true) (test : expression.run ts = .ok condition us)
      (body : statement.run us = .ok consequent rest)
      (last : ∀ u ∈ rest.head?, ¬u.isWord .controlKeyword "else" = true) :
      ReadsStatement (t :: ts) (.ifElse condition consequent none t.position) rest
  | ifElse {t u : Token} {ts us vs rest : List Token} {condition : Expr} {consequent other : Stmt}
      (word : t.isWord .controlKeyword "if" = true) (test : expression.run ts = .ok condition us)
      (body : statement.run us = .ok consequent (u :: vs))
      (word' : u.isWord .controlKeyword "else" = true)
      (branch : alternative.run vs = .ok other rest) :
      ReadsStatement (t :: ts) (.ifElse condition consequent (some other) t.position) rest
  | whileLoop {t : Token} {ts us rest : List Token} {condition : Expr} {s : Stmt}
      (word : t.isWord .controlKeyword "while" = true) (test : expression.run ts = .ok condition us)
      (body : statement.run us = .ok s rest) :
      ReadsStatement (t :: ts) (.whileLoop condition s t.position) rest
  | forLoop {t : Token} {ts us rest : List Token} {head : ForHead} {s : Stmt}
      (word : t.isWord .controlKeyword "for" = true) (clauses : forHead.run ts = .ok head us)
      (body : statement.run us = .ok s rest) :
      ReadsStatement (t :: ts)
        (.forLoop head.init head.condition head.update s t.position) rest
  | switch {t u v : Token} {ts us rest : List Token} {subject : Expr} {cases : List Clause}
      {fallback : Option (List Stmt)} (word : t.isWord .controlKeyword "switch" = true)
      (value : expression.run ts = .ok subject (u :: us)) (opening : u.kind = .openBrace)
      (inner : (clauses false).run us = .ok (cases, fallback) (v :: rest))
      (closing : v.kind = .closeBrace) :
      ReadsStatement (t :: ts) (.switch subject cases fallback t.position) rest
  | returnsNothing {t : Token} {ts : List Token} (word : t.isWord .controlKeyword "return" = true)
      (ends : ts.head?.all endsReturn = true) :
      ReadsStatement (t :: ts) (.returns none t.position) ts
  | returns {t : Token} {ts rest : List Token} {e : Expr}
      (word : t.isWord .controlKeyword "return" = true) (goesOn : ts.head?.all endsReturn = false)
      (value : expression.run ts = .ok e rest) :
      ReadsStatement (t :: ts) (.returns (some e) t.position) rest
  | breaks {t : Token} {ts : List Token} (word : t.isWord .controlKeyword "break" = true) :
      ReadsStatement (t :: ts) (.breaks t.position) ts
  | continues {t : Token} {ts : List Token} (word : t.isWord .controlKeyword "continue" = true) :
      ReadsStatement (t :: ts) (.continues t.position) ts
  | declare {t : Token} {ts rest : List Token} {v : Variable} (type : t.kind = .typeKeyword)
      (whole : (typedVariable t).run ts = .ok v rest) : ReadsStatement (t :: ts) (.declare v) rest
  | expression {ts rest : List Token} {e : Expr}
      (plain : ∀ t ∈ ts.head?, leadsStatement t = false) (whole : expression.run ts = .ok e rest) :
      ReadsStatement ts (.expression e (here ts)) rest

theorem run_expressionStatement_iff {s : Stmt} : expressionStatement.run ts = .ok s rest ↔
    ∃ e, expression.run ts = .ok e rest ∧ .expression e (here ts) = s :=
  run_map_eq_ok_iff

section Inversion

variable {s : Stmt}

theorem readsStatement_of_ifElse (word : t.isWord .controlKeyword "if" = true)
    (h : (ifElse t.position).run ts = .ok s rest) : ReadsStatement (t :: ts) s rest := by
  obtain ⟨condition, us, test, h⟩ := run_bind_eq_ok_iff.mp h
  obtain ⟨consequent, vs, body, h⟩ := run_bind_eq_ok_iff.mp h
  cases vs with
  | nil =>
    cases h
    exact .ifOnly word test body nofun
  | cons u vs =>
    rw [run_takeIf_cons] at h
    split at h
    · rename_i word'
      obtain ⟨other, branch, rfl⟩ := run_map_eq_ok_iff.mp h
      exact .ifElse word test body word' branch
    · rename_i last
      cases h
      exact .ifOnly word test body (by simpa using last)

theorem readsStatement_of_switch (word : t.isWord .controlKeyword "switch" = true)
    (h : (switch t.position).run ts = .ok s rest) : ReadsStatement (t :: ts) s rest := by
  obtain ⟨subject, us, value, h₁⟩ := run_bind_eq_ok_iff.mp h
  obtain ⟨u, us, hopening, h₂⟩ := run_bind_eq_ok_iff.mp h₁
  obtain ⟨rfl, opening⟩ := run_expect_eq_ok_iff.mp hopening
  obtain ⟨⟨cases, fallback⟩, vs, inner, h₃⟩ := run_bind_eq_ok_iff.mp h₂
  obtain ⟨v, hclosing, rfl⟩ := run_map_eq_ok_iff.mp h₃
  obtain ⟨rfl, closing⟩ := run_expect_eq_ok_iff.mp hclosing
  exact .switch word value opening inner closing

theorem readsStatement_of_returns (word : t.isWord .controlKeyword "return" = true)
    (h : (returns t.position).run ts = .ok s rest) : ReadsStatement (t :: ts) s rest := by
  rw [returns, run_stopIf] at h
  split at h
  · rename_i ends
    cases h
    exact .returnsNothing word ends
  · rename_i goesOn
    obtain ⟨e, value, rfl⟩ := run_map_eq_ok_iff.mp h
    exact .returns word (by simpa using goesOn) value

theorem readsStatement_of_block (opening : t.kind = .openBrace)
    (h : (do let b ← openedBlock t; return .block b.statements b.position : Action Stmt).run ts =
      .ok s rest) : ReadsStatement (t :: ts) s rest := by
  obtain ⟨b, hblock, rfl⟩ := run_map_eq_ok_iff.mp h
  obtain ⟨ss, us, inner, hend⟩ := run_bind_eq_ok_iff.mp hblock
  obtain ⟨u, hclosing, rfl⟩ := run_map_eq_ok_iff.mp hend
  obtain ⟨rfl, closing⟩ := run_expect_eq_ok_iff.mp hclosing
  exact .block opening inner closing

theorem readsStatement_of_run (h : bareStatement.run ts = .ok s rest) :
    ReadsStatement ts s rest := by
  cases ts with
  | nil =>
    rw [bareStatement_eq] at h
    obtain ⟨e, whole, rfl⟩ := run_expressionStatement_iff.mp h
    exact .expression nofun whole
  | cons t ts =>
    rw [bareStatement_eq] at h
    simp only [run_takeIf_cons] at h
    split at h
    · exact readsStatement_of_block ‹_› h
    rename_i hbrace
    split at h
    · exact readsStatement_of_ifElse ‹_› h
    rename_i hif
    split at h
    · obtain ⟨condition, us, test, h⟩ := run_bind_eq_ok_iff.mp h
      obtain ⟨s, body, rfl⟩ := run_map_eq_ok_iff.mp h
      exact .whileLoop ‹_› test body
    rename_i hwhile
    split at h
    · obtain ⟨head, us, clauses, h⟩ := run_bind_eq_ok_iff.mp h
      obtain ⟨s, body, rfl⟩ := run_map_eq_ok_iff.mp h
      exact .forLoop ‹_› clauses body
    rename_i hfor
    split at h
    · exact readsStatement_of_switch ‹_› h
    rename_i hswitch
    split at h
    · exact readsStatement_of_returns ‹_› h
    rename_i hreturn
    split at h
    · cases h
      exact .breaks ‹_›
    rename_i hbreak
    split at h
    · cases h
      exact .continues ‹_›
    rename_i hcontinue
    split at h
    · obtain ⟨v, whole, rfl⟩ := run_map_eq_ok_iff.mp h
      exact .declare ‹_› whole
    rename_i htype
    obtain ⟨e, whole, rfl⟩ := run_expressionStatement_iff.mp h
    refine .expression (fun u hu => ?_) whole
    obtain rfl : t = u := Option.some.inj hu
    simp_all [leadsStatement, statementLeads]

end Inversion

/-- What follows an `else`: an `if` up to a terminator, or any other statement. -/
theorem run_alternative_eq_ok {s : Stmt} (h : alternative.run ts = .ok s rest) :
    (∃ t us, ts = t :: us ∧ t.isWord .controlKeyword "if" = true ∧
      bareStatement.run ts = .ok s rest) ∨
    (∀ t ∈ ts.head?, ¬t.isWord .controlKeyword "if" = true) ∧ statement.run ts = .ok s rest := by
  have h : (if startsWithControl "if" ts then bareStatement.run ts else statement.run ts) =
      .ok s rest := h
  cases ts with
  | nil => exact .inr ⟨nofun, h⟩
  | cons t us =>
    rw [startsWithControl] at h
    split at h
    · rename_i word
      exact .inl ⟨t, us, rfl, word, h⟩
    · rename_i word
      exact .inr ⟨by simpa using word, h⟩

section Lists

/-- Statements of which there is a first one. -/
theorem run_statements_eq_cons {stop : Token → Bool} {s : Stmt} {ss : List Stmt}
    (h : (statements stop).run ts = .ok (s :: ss) rest) : ts.head?.all stop = false ∧
      ∃ us, statement.run ts = .ok s us ∧ (statements stop).run us = .ok ss rest := by
  rw [statements_eq, run_stopIf] at h
  split at h
  · cases h
  · rename_i goesOn
    obtain ⟨first, us, hfirst, hmore⟩ := run_bind_eq_ok_iff.mp h
    obtain ⟨more, hothers, heq⟩ := run_map_eq_ok_iff.mp hmore
    cases heq
    exact ⟨by simpa using goesOn, us, hfirst, hothers⟩

/-- The clauses are read from `ts` and leave `rest`, where a default may have been seen before. -/
inductive ReadsClauses : Bool → List Token → List Clause × Option (List Stmt) → List Token → Prop
  | none {seen : Bool} {ts : List Token} : ReadsClauses seen ts ([], Option.none) ts
  | case {seen : Bool} {t u : Token} {ts us vs rest : List Token} {value : Expr}
      {body : List Stmt} {cases : List Clause} {fallback : Option (List Stmt)}
      (label : t.isWord .controlKeyword "case" = true)
      (head : expression.run ts = .ok value (u :: us)) (colon : u.kind = .colon)
      (inner : (statements endsClause).run us = .ok body vs)
      (others : (clauses seen).run vs = .ok (cases, fallback) rest) :
      ReadsClauses seen (t :: ts) (.case value body t.position :: cases, fallback) rest
  | default {t u : Token} {us vs rest : List Token} {body : List Stmt} {cases : List Clause}
      {fallback : Option (List Stmt)} (label : t.isWord .controlKeyword "default" = true)
      (colon : u.kind = .colon) (inner : (statements endsClause).run us = .ok body vs)
      (others : (clauses true).run vs = .ok (cases, fallback) rest) :
      ReadsClauses false (t :: u :: us) (cases, some body) rest

theorem readsClauses_of_run {seen : Bool} {found : List Clause × Option (List Stmt)}
    (h : (clauses seen).run ts = .ok found rest) : ReadsClauses seen ts found rest := by
  rw [clauses_eq] at h
  cases ts with
  | nil =>
    cases seen <;> cases h <;> exact .none
  | cons t ts =>
    rw [run_takeIf_cons] at h
    split at h
    · rename_i label
      obtain ⟨value, us, head, h₁⟩ := run_bind_eq_ok_iff.mp h
      obtain ⟨u, us, hcolon, h₂⟩ := run_bind_eq_ok_iff.mp h₁
      obtain ⟨rfl, colon⟩ := run_expect_eq_ok_iff.mp hcolon
      obtain ⟨body, vs, inner, h₃⟩ := run_bind_eq_ok_iff.mp h₂
      obtain ⟨⟨cases, fallback⟩, others, rfl⟩ := run_map_eq_ok_iff.mp h₃
      exact .case label head colon inner others
    cases seen with
    | true =>
      rw [lastClauses, if_pos rfl, run_refuse_cons] at h
      split at h <;> cases h
      exact .none
    | false =>
      rw [lastClauses, if_neg Bool.false_ne_true, run_takeIf_cons] at h
      split at h
      · rename_i label
        obtain ⟨u, us, hcolon, h₁⟩ := run_bind_eq_ok_iff.mp h
        obtain ⟨rfl, colon⟩ := run_expect_eq_ok_iff.mp hcolon
        obtain ⟨body, vs, inner, h₂⟩ := run_bind_eq_ok_iff.mp h₁
        obtain ⟨⟨cases, fallback⟩, others, rfl⟩ := run_map_eq_ok_iff.mp h₂
        exact .default label colon inner others
      · cases h
        exact .none

end Lists

end Action

end Grammar

end KanaScript
