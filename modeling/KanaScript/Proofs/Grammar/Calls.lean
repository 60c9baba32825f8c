import KanaScript.Proofs.C.ProgramOutline
import KanaScript.Proofs.Grammar.Concatenation
import KanaScript.Proofs.Grammar.Program
import KanaScript.Proofs.Grammar.StatementSteps
import Mathlib.Logic.Relation

/-! Where the parts of a program are read.  Reading a program comes to reading its declarations,
their blocks, and the statements in these, each from what is left of the tokens; every statement of
the program that is read is read so, and ends where its reading leaves off. -/

namespace KanaScript

/-- The statements of a declaration at every depth. -/
def Declaration.innerStatements : Declaration → List Stmt
  | function f => statementNodes f.body.statements
  | global _ => []
  | statement s => s.nodes

namespace Grammar

/-- What is to be read. -/
inductive Task
  | declarations
  | block
  | statements (stop : Token → Bool)
  | clauses (seen : Bool)
  | statement
  | bareStatement

namespace Action

section Terminated

variable {α β : Type}

theorem terminated_takeIf {accepts : Token → Prop} [DecidablePred accepts]
    {taken : Token → Action α} {otherwise : Action α} :
    terminated (takeIf accepts taken otherwise) =
      takeIf accepts (fun t => terminated (taken t)) (terminated otherwise) := by
  refine ext fun ts => ?_
  cases ts with
  | nil => rfl
  | cons t us =>
    by_cases ht : accepts t
    · rw [run_takeIf_pos ht]
      exact run_bind_congr (run_takeIf_pos ht) _
    · have hus : ∀ u ∈ (t :: us).head?, ¬accepts u := by simpa using ht
      rw [run_takeIf_neg hus]
      exact run_bind_congr (run_takeIf_neg hus) _

theorem terminated_map {action : Action α} {k : α → β} :
    terminated (do return k (← action)) = do return k (← terminated action) := by
  simp [terminated]

/-- A declaration without the terminator after it. -/
def bareDeclaration : Action Declaration :=
  takeIf (·.isWord .otherKeyword Vocabulary.functionMarker) (fun _ => do
    let f ← markedFunction
    return .function f) <|
  takeIf (·.kind = .typeKeyword) typedDeclaration do
    let s ← bareStatement
    return .statement s

theorem declaration_eq : declaration = terminated bareDeclaration := by
  rw [bareDeclaration, terminated_takeIf, terminated_takeIf, terminated_map, terminated_map]
  rfl

theorem sound_bareDeclaration {n : Nat} : Sound n bareDeclaration DerivesDeclaration := by
  refine .takeIf (fun m hm => ?_) (.takeIf (fun t ht => sound_typedDeclaration ht) ?_)
  · exact (sound_markedFunction hm).bind fun f used hf => .pure (by simpa using hf)
  · exact (sound_bareStatement _).bind fun s used hs => .pure (by simpa using .statement hs)

end Terminated

/-- Reading the first from its tokens comes to reading the second from what is left then. -/
inductive Calls : Task × List Token → Task × List Token → Prop
  | nextDeclaration {ts rest : List Token} {d : Declaration}
      (first : declaration.run ts = .ok d rest) :
      Calls (.declarations, ts) (.declarations, rest)
  | topStatement {ts : List Token}
      (plain : ∀ t ∈ ts.head?, ¬t.isWord .otherKeyword Vocabulary.functionMarker = true ∧
        t.kind ≠ .typeKeyword) :
      Calls (.declarations, ts) (.statement, ts)
  | markedBody {t u : Token} {ts us rest : List Token} {text : String} {ps : List Parameter}
      (marker : t.isWord .otherKeyword Vocabulary.functionMarker = true)
      (type : u.kind = .typeKeyword) (ident : name.run ts = .ok text us)
      (list : markedParameters.run us = .ok ps rest) :
      Calls (.declarations, t :: u :: ts) (.block, rest)
  | typedBody {t u : Token} {ts us rest : List Token} {text : String} {ps : List Parameter}
      (type : t.kind = .typeKeyword) (ident : name.run ts = .ok text (u :: us))
      (opening : u.kind = .openParen) (list : openedParameters.run us = .ok ps rest) :
      Calls (.declarations, t :: ts) (.block, rest)
  | blockBody {t : Token} {ts : List Token} (opening : t.kind = .openBrace) :
      Calls (.block, t :: ts) (.statements fun t => t.kind == .closeBrace, ts)
  | firstStatement {stop : Token → Bool} {ts : List Token} (goesOn : ts.head?.all stop = false) :
      Calls (.statements stop, ts) (.statement, ts)
  | nextStatement {stop : Token → Bool} {ts rest : List Token} {s : Stmt}
      (goesOn : ts.head?.all stop = false) (first : statement.run ts = .ok s rest) :
      Calls (.statements stop, ts) (.statements stop, rest)
  | caseBody {seen : Bool} {t u : Token} {ts us : List Token} {value : Expr}
      (label : t.isWord .controlKeyword "case" = true)
      (head : expression.run ts = .ok value (u :: us)) (colon : u.kind = .colon) :
      Calls (.clauses seen, t :: ts) (.statements endsClause, us)
  | nextCase {seen : Bool} {t u : Token} {ts us rest : List Token} {value : Expr}
      {body : List Stmt} (label : t.isWord .controlKeyword "case" = true)
      (head : expression.run ts = .ok value (u :: us)) (colon : u.kind = .colon)
      (inner : (statements endsClause).run us = .ok body rest) :
      Calls (.clauses seen, t :: ts) (.clauses seen, rest)
  | defaultBody {t u : Token} {us : List Token} (label : t.isWord .controlKeyword "default" = true)
      (colon : u.kind = .colon) :
      Calls (.clauses false, t :: u :: us) (.statements endsClause, us)
  | afterDefault {t u : Token} {us rest : List Token} {body : List Stmt}
      (label : t.isWord .controlKeyword "default" = true) (colon : u.kind = .colon)
      (inner : (statements endsClause).run us = .ok body rest) :
      Calls (.clauses false, t :: u :: us) (.clauses true, rest)
  | untilTerminator {ts : List Token} : Calls (.statement, ts) (.bareStatement, ts)
  | innerBlock {t : Token} {ts : List Token} (opening : t.kind = .openBrace) :
      Calls (.bareStatement, t :: ts) (.statements fun t => t.kind == .closeBrace, ts)
  | consequent {t : Token} {ts rest : List Token} {condition : Expr}
      (word : t.isWord .controlKeyword "if" = true)
      (test : expression.run ts = .ok condition rest) :
      Calls (.bareStatement, t :: ts) (.statement, rest)
  | alternative {t u : Token} {ts us rest : List Token} {condition : Expr} {s : Stmt}
      (word : t.isWord .controlKeyword "if" = true) (test : expression.run ts = .ok condition us)
      (body : statement.run us = .ok s (u :: rest))
      (word' : u.isWord .controlKeyword "else" = true)
      (plain : ∀ v ∈ rest.head?, ¬v.isWord .controlKeyword "if" = true) :
      Calls (.bareStatement, t :: ts) (.statement, rest)
  | elseIf {t u v : Token} {ts us rest : List Token} {condition : Expr} {s : Stmt}
      (word : t.isWord .controlKeyword "if" = true) (test : expression.run ts = .ok condition us)
      (body : statement.run us = .ok s (u :: v :: rest))
      (word' : u.isWord .controlKeyword "else" = true)
      (nested : v.isWord .controlKeyword "if" = true) :
      Calls (.bareStatement, t :: ts) (.bareStatement, v :: rest)
  | whileBody {t : Token} {ts rest : List Token} {condition : Expr}
      (word : t.isWord .controlKeyword "while" = true)
      (test : expression.run ts = .ok condition rest) :
      Calls (.bareStatement, t :: ts) (.statement, rest)
  | forBody {t : Token} {ts rest : List Token} {head : ForHead}
      (word : t.isWord .controlKeyword "for" = true) (clauses : forHead.run ts = .ok head rest) :
      Calls (.bareStatement, t :: ts) (.statement, rest)
  | switchBody {t u : Token} {ts rest : List Token} {subject : Expr}
      (word : t.isWord .controlKeyword "switch" = true)
      (value : expression.run ts = .ok subject (u :: rest)) (opening : u.kind = .openBrace) :
      Calls (.bareStatement, t :: ts) (.clauses false, rest)

/-- Reading the one comes to reading the other, in any number of steps. -/
abbrev Reaches := Relation.ReflTransGen Calls

section Suffixes

variable {α : Type} {ts rest : List Token}

theorem Sound.suffix {action : Action α} {relation : List Token → α → Prop} {v : α}
    (h : Sound (ts.length + 1) action relation) (hrun : action.run ts = .ok v rest) :
    rest <:+ ts := by
  obtain ⟨used, hts, -⟩ := h ts v rest (Nat.lt_succ_self _) hrun
  exact ⟨used, hts.symm⟩

theorem suffix_of_expression {e : Expr} (h : expression.run ts = .ok e rest) : rest <:+ ts :=
  sound_expression.suffix h

theorem suffix_of_bareStatement {s : Stmt} (h : bareStatement.run ts = .ok s rest) : rest <:+ ts :=
  (sound_bareStatement _).suffix h

theorem suffix_of_statement {s : Stmt} (h : statement.run ts = .ok s rest) : rest <:+ ts :=
  (sound_statement (sound_bareStatement _)).suffix h

theorem suffix_of_statements {stop : Token → Bool} {ss : List Stmt}
    (h : (statements stop).run ts = .ok ss rest) : rest <:+ ts :=
  (sound_statements (sound_bareStatement _) stop (Nat.le_refl _)).suffix h

theorem suffix_of_forHead {head : ForHead} (h : forHead.run ts = .ok head rest) : rest <:+ ts :=
  sound_forHead.suffix h

/-- What is read next is read from what is left. -/
theorem Calls.suffix {c c' : Task × List Token} (h : Calls c c') : c'.2 <:+ c.2 := by
  cases h with
  | nextDeclaration first => exact sound_declaration.suffix first
  | topStatement | firstStatement | untilTerminator => exact List.suffix_rfl
  | markedBody _ _ ident list =>
    exact ((sound_markedParameters.suffix list).trans (sound_name.suffix ident)).trans
      ((List.suffix_cons _ _).trans (List.suffix_cons _ _))
  | typedBody _ ident opening list =>
    have hident := (List.suffix_cons _ _).trans (sound_name.suffix ident)
    exact (((sound_openedParameters opening).suffix list).trans hident).trans (List.suffix_cons _ _)
  | blockBody | innerBlock => exact List.suffix_cons _ _
  | nextStatement _ first => exact suffix_of_statement first
  | caseBody _ head =>
    exact ((List.suffix_cons _ _).trans (suffix_of_expression head)).trans (List.suffix_cons _ _)
  | nextCase _ head _ inner =>
    have hhead := (List.suffix_cons _ _).trans (suffix_of_expression head)
    exact ((suffix_of_statements inner).trans hhead).trans (List.suffix_cons _ _)
  | defaultBody => exact (List.suffix_cons _ _).trans (List.suffix_cons _ _)
  | afterDefault _ _ inner =>
    exact (suffix_of_statements inner).trans ((List.suffix_cons _ _).trans (List.suffix_cons _ _))
  | consequent _ test => exact (suffix_of_expression test).trans (List.suffix_cons _ _)
  | alternative _ test body =>
    have hbody := (List.suffix_cons _ _).trans (suffix_of_statement body)
    exact (hbody.trans (suffix_of_expression test)).trans (List.suffix_cons _ _)
  | elseIf _ test body =>
    have hbody := (List.suffix_cons _ _).trans (suffix_of_statement body)
    exact (hbody.trans (suffix_of_expression test)).trans (List.suffix_cons _ _)
  | whileBody _ test => exact (suffix_of_expression test).trans (List.suffix_cons _ _)
  | forBody _ head => exact (suffix_of_forHead head).trans (List.suffix_cons _ _)
  | switchBody _ value =>
    exact ((List.suffix_cons _ _).trans (suffix_of_expression value)).trans (List.suffix_cons _ _)

theorem Reaches.suffix {c c' : Task × List Token} (h : Reaches c c') : c'.2 <:+ c.2 := by
  induction h with
  | refl => exact List.suffix_rfl
  | tail _ step ih => exact step.suffix.trans ih

end Suffixes

section Statements

variable {c c' : Task × List Token} {x : Stmt}

/-- The statement is read on the way, and leaves `back`. -/
def ReadsTo (c : Task × List Token) (x : Stmt) (back : List Token) : Prop :=
  ∃ us, Reaches c (.bareStatement, us) ∧ bareStatement.run us = .ok x back

theorem ReadsTo.suffix {back : List Token} (h : ReadsTo c x back) : back <:+ c.2 := by
  obtain ⟨us, hreaches, hrun⟩ := h
  exact (suffix_of_bareStatement hrun).trans hreaches.suffix

/-- The statement is read on the way. -/
def Finds (c : Task × List Token) (x : Stmt) : Prop := ∃ back, ReadsTo c x back

theorem Finds.after (h : Finds c' x) (step : Calls c c') : Finds c x := by
  obtain ⟨back, us, hreaches, hrun⟩ := h
  exact ⟨back, us, .head step hreaches, hrun⟩

/-- On fewer than `n` tokens, every statement of what is read is read on the way. -/
structure FindsBelow (n : Nat) : Prop where
  bareStatement {ts rest : List Token} {s : Stmt} : ts.length < n →
    bareStatement.run ts = .ok s rest → ∀ x ∈ s.nodes, Finds (.bareStatement, ts) x
  statements {stop : Token → Bool} {ts rest : List Token} {ss : List Stmt} : ts.length < n →
    (statements stop).run ts = .ok ss rest → ∀ x ∈ statementNodes ss, Finds (.statements stop, ts) x
  clauses {seen : Bool} {ts rest : List Token} {cases : List Clause}
    {fallback : Option (List Stmt)} : ts.length < n →
    (clauses seen).run ts = .ok (cases, fallback) rest →
    ∀ x ∈ clauseNodes cases ++ (fallback.map statementNodes).getD [], Finds (.clauses seen, ts) x

theorem FindsBelow.statement {n : Nat} (h : FindsBelow n) {ts rest : List Token} {s : Stmt}
    (hlt : ts.length < n) (hrun : statement.run ts = .ok s rest) :
    ∀ x ∈ s.nodes, Finds (.statement, ts) x := by
  intro x hx
  obtain ⟨middle, hbare, -⟩ := run_terminated_eq_ok_iff.mp hrun
  exact (h.bareStatement hlt hbare x hx).after .untilTerminator

/-- What is left for the parts of a statement is less than the statement was read from. -/
theorem finds_nodes {n : Nat} (below : FindsBelow n) {ts rest : List Token} {s : Stmt}
    (hlt : ts.length < n + 1) (hrun : bareStatement.run ts = .ok s rest) :
    ∀ x ∈ s.nodes, Finds (.bareStatement, ts) x := by
  have hself : Finds (.bareStatement, ts) s := ⟨rest, ts, .refl, hrun⟩
  intro x hx
  cases readsStatement_of_run hrun with
  | block opening inner closing =>
    rw [List.length_cons] at hlt
    rcases List.mem_cons.mp hx with rfl | hx
    · exact hself
    · exact (below.statements (by omega) inner x hx).after (.innerBlock opening)
  | ifOnly word test body last =>
    have htest := (suffix_of_expression test).length_le
    rw [List.length_cons] at hlt
    rcases List.mem_cons.mp hx with rfl | hx
    · exact hself
    · exact (below.statement (by omega) body x hx).after (.consequent word test)
  | ifElse word test body word' branch =>
    have htest := (suffix_of_expression test).length_le
    have hbody := (suffix_of_statement body).length_le
    rw [List.length_cons] at hlt hbody
    rcases List.mem_cons.mp hx with rfl | hx
    · exact hself
    rcases List.mem_append.mp hx with hx | hx
    · exact (below.statement (by omega) body x hx).after (.consequent word test)
    rcases run_alternative_eq_ok branch with ⟨v, vs, rfl, nested, hother⟩ | ⟨plain, hother⟩
    · exact (below.bareStatement (by omega) hother x hx).after (.elseIf word test body word' nested)
    · exact (below.statement (by omega) hother x hx).after (.alternative word test body word' plain)
  | whileLoop word test body =>
    have htest := (suffix_of_expression test).length_le
    rw [List.length_cons] at hlt
    rcases List.mem_cons.mp hx with rfl | hx
    · exact hself
    · exact (below.statement (by omega) body x hx).after (.whileBody word test)
  | forLoop word head body =>
    have hhead := (suffix_of_forHead head).length_le
    rw [List.length_cons] at hlt
    rcases List.mem_cons.mp hx with rfl | hx
    · exact hself
    · exact (below.statement (by omega) body x hx).after (.forBody word head)
  | switch word value opening inner closing =>
    have hvalue := (suffix_of_expression value).length_le
    rw [List.length_cons] at hlt hvalue
    rw [Stmt.nodes_switch] at hx
    rcases List.mem_cons.mp hx with rfl | hx
    · exact hself
    · exact (below.clauses (by omega) inner x hx).after (.switchBody word value opening)
  | returnsNothing | returns | breaks | continues | declare | expression =>
    rw [List.mem_singleton.mp hx]
    exact hself

theorem finds_statementNodes {n : Nat} (below : FindsBelow n) {stop : Token → Bool}
    {ts rest : List Token} {ss : List Stmt} (hlt : ts.length < n + 1)
    (hrun : (statements stop).run ts = .ok ss rest) :
    ∀ x ∈ statementNodes ss, Finds (.statements stop, ts) x := by
  intro x hx
  cases ss with
  | nil => cases hx
  | cons s ss =>
    obtain ⟨goesOn, us, hfirst, hmore⟩ := run_statements_eq_cons hrun
    have hshort := length_of_statement hfirst
    rcases List.mem_append.mp hx with hx | hx
    · obtain ⟨middle, hbare, -⟩ := run_terminated_eq_ok_iff.mp hfirst
      exact ((finds_nodes below hlt hbare x hx).after .untilTerminator).after
        (.firstStatement goesOn)
    · exact (below.statements (by omega) hmore x hx).after (.nextStatement goesOn hfirst)

theorem finds_clauseNodes {n : Nat} (below : FindsBelow n) {seen : Bool} {ts rest : List Token}
    {cases : List Clause} {fallback : Option (List Stmt)} (hlt : ts.length < n + 1)
    (hrun : (clauses seen).run ts = .ok (cases, fallback) rest) :
    ∀ x ∈ clauseNodes cases ++ (fallback.map statementNodes).getD [],
      Finds (.clauses seen, ts) x := by
  intro x hx
  cases readsClauses_of_run hrun with
  | none => simp [clauseNodes] at hx
  | case label head colon inner others =>
    have hhead := (suffix_of_expression head).length_le
    have hinner := (suffix_of_statements inner).length_le
    rw [List.length_cons] at hlt hhead
    rw [clauseNodes, List.append_assoc, List.mem_append] at hx
    rcases hx with hx | hx
    · exact (below.statements (by omega) inner x hx).after (.caseBody label head colon)
    · exact (below.clauses (by omega) others x hx).after (.nextCase label head colon inner)
  | default label colon inner others =>
    have hinner := (suffix_of_statements inner).length_le
    rw [List.length_cons, List.length_cons] at hlt
    rcases List.mem_append.mp hx with hx | hx
    · exact (below.clauses (by omega) others x (List.mem_append_left _ hx)).after
        (.afterDefault label colon inner)
    · exact (below.statements (by omega) inner x hx).after (.defaultBody label colon)

theorem findsBelow (n : Nat) : FindsBelow n := by
  induction n with
  | zero => constructor <;> exact fun hlt => absurd hlt (Nat.not_lt_zero _)
  | succ n ih => exact ⟨finds_nodes ih, finds_statementNodes ih, finds_clauseNodes ih⟩

end Statements

section Programs

variable {ts rest : List Token} {d : Declaration} {program : Program}

theorem finds_block {b : Block} (h : block.run ts = .ok b rest) :
    ∀ x ∈ statementNodes b.statements, Finds (.block, ts) x := by
  intro x hx
  obtain ⟨t, us, rfl, opening, h⟩ := run_take_eq_ok_iff.mp h
  obtain ⟨ss, vs, inner, hend⟩ := run_bind_eq_ok_iff.mp h
  obtain ⟨u, -, rfl⟩ := run_map_eq_ok_iff.mp hend
  exact ((findsBelow _).statements (Nat.lt_succ_self _) inner x hx).after (.blockBody opening)

/-- Every statement of a declaration is read on the way. -/
theorem finds_innerStatements (h : bareDeclaration.run ts = .ok d rest) :
    ∀ x ∈ d.innerStatements, Finds (.declarations, ts) x := by
  intro x hx
  have hstatement {us : List Token}
      (plain : ∀ t ∈ us.head?, ¬t.isWord .otherKeyword Vocabulary.functionMarker = true ∧
        t.kind ≠ .typeKeyword)
      (h : (do let s ← bareStatement; return .statement s : Action Declaration).run us =
        .ok d rest) : Finds (.declarations, us) x := by
    obtain ⟨s, hrun, rfl⟩ := run_map_eq_ok_iff.mp h
    have hfinds := (findsBelow _).bareStatement (Nat.lt_succ_self _) hrun x hx
    exact (hfinds.after .untilTerminator).after (.topStatement plain)
  cases ts with
  | nil => exact hstatement nofun h
  | cons t ts =>
    rw [bareDeclaration, run_takeIf_cons] at h
    split at h
    · rename_i marker
      obtain ⟨f, hfunction, rfl⟩ := run_map_eq_ok_iff.mp h
      obtain ⟨u, us, rfl, type, hfunction⟩ := run_take_eq_ok_iff.mp hfunction
      obtain ⟨text, vs, ident, hlist⟩ := run_bind_eq_ok_iff.mp hfunction
      obtain ⟨ps, ws, list, hbody⟩ := run_bind_eq_ok_iff.mp hlist
      obtain ⟨b, hb, rfl⟩ := run_map_eq_ok_iff.mp hbody
      exact (finds_block hb x hx).after (.markedBody marker type ident list)
    rename_i unmarked
    rw [run_takeIf_cons] at h
    split at h
    · rename_i type
      obtain ⟨text, vs, ident, hrest⟩ := run_bind_eq_ok_iff.mp h
      cases vs with
      | nil =>
        obtain ⟨v, -, rfl⟩ := run_map_eq_ok_iff.mp hrest
        cases hx
      | cons u us =>
        rw [run_takeIf_cons] at hrest
        split at hrest
        · rename_i opening
          obtain ⟨ps, ws, list, hbody⟩ := run_bind_eq_ok_iff.mp hrest
          obtain ⟨b, hb, rfl⟩ := run_map_eq_ok_iff.mp hbody
          exact (finds_block hb x hx).after (.typedBody type ident opening list)
        · obtain ⟨v, -, rfl⟩ := run_map_eq_ok_iff.mp hrest
          cases hx
    · rename_i untyped
      exact hstatement (fun u hu => Option.some.inj hu ▸ ⟨unmarked, untyped⟩) h

/-- The declaration is read on the way through the program, and leaves `back`. -/
def DeclaresTo (ts : List Token) (d : Declaration) (back : List Token) : Prop :=
  ∃ us, Reaches (.declarations, ts) (.declarations, us) ∧ bareDeclaration.run us = .ok d back

theorem DeclaresTo.suffix {back : List Token} (h : DeclaresTo ts d back) : back <:+ ts := by
  obtain ⟨us, hreaches, hrun⟩ := h
  exact (sound_bareDeclaration.suffix hrun).trans hreaches.suffix

/-- Every declaration of a program, and every statement in one, is read on the way. -/
theorem exists_declaresTo (h : declarations ts = .ok program) : ∀ d ∈ program,
    (∃ back, DeclaresTo ts d back) ∧ ∀ x ∈ d.innerStatements, Finds (.declarations, ts) x := by
  induction program generalizing ts with
  | nil => exact nofun
  | cons first others ih =>
    obtain ⟨us, hrun, hothers⟩ := exists_of_declarations_cons h
    have hnext : Calls (.declarations, ts) (.declarations, us) := .nextDeclaration hrun
    intro d hd
    rcases List.mem_cons.mp hd with rfl | hd
    · rw [declaration_eq] at hrun
      obtain ⟨back, hbare, -⟩ := run_terminated_eq_ok_iff.mp hrun
      exact ⟨⟨back, ts, .refl, hbare⟩, finds_innerStatements hbare⟩
    · obtain ⟨⟨back, vs, hreaches, hbare⟩, hinner⟩ := ih hothers d hd
      exact ⟨⟨back, vs, .head hnext hreaches, hbare⟩, fun x hx => (hinner x hx).after hnext⟩

end Programs

end Action

end Grammar

end KanaScript
