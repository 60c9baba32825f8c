import KanaScript.Proofs.Grammar.Expression
import KanaScript.Proofs.Grammar.ProgramAction
import KanaScript.Proofs.Grammar.ProgramDerivation
import KanaScript.Token.Scan

/-! Every program that is read is derived from its tokens.  Each rule derives its value from the
tokens that it takes; nested statements are fewer tokens, so that the statement about them is made
for tokens below a bound. -/

namespace KanaScript.Grammar

namespace Action

/-- On fewer than `n` tokens, the action takes tokens that stand in the relation to its value. -/
def Sound {α : Type} (n : Nat) (action : Action α) (relation : List Token → α → Prop) : Prop :=
  ∀ ts v rest, ts.length < n → action.run ts = .ok v rest →
    ∃ used, ts = used ++ rest ∧ relation used v

namespace Sound

variable {α β : Type} {n : Nat} {first : Action α} {relation : List Token → α → Prop}

protected theorem mono {relation' : List Token → α → Prop} (h : Sound n first relation)
    (imp : ∀ used v, relation used v → relation' used v) : Sound n first relation' := by
  intro ts v rest hlt hrun
  obtain ⟨used, hts, hr⟩ := h ts v rest hlt hrun
  exact ⟨used, hts, imp used v hr⟩

protected theorem pure {v : α} (h : relation [] v) : Sound n (pure v) relation := by
  intro ts w rest _ hrun
  cases hrun
  exact ⟨[], rfl, h⟩

protected theorem throw {problem : Problem} : Sound n (throw problem : Action α) relation := by
  intro ts v rest _ hrun
  cases hrun

/-- What is left for the second action is below a bound of its own. -/
theorem bind_below {second : α → Action β} {relation' : List Token → β → Prop} {m : Nat}
    (below : ∀ ts v rest, ts.length < n → first.run ts = .ok v rest → rest.length < m)
    (hfirst : Sound n first relation) (hsecond : ∀ v used, relation used v →
      Sound m (second v) fun more w => relation' (used ++ more) w) :
    Sound n (first >>= second) relation' := by
  intro ts w rest hlt hrun
  cases hf : first.run ts with
  | error problem middle =>
    rw [bind_of_error hf] at hrun
    cases hrun
  | ok v middle =>
    rw [bind_of_ok hf] at hrun
    have hmiddle := below ts v middle hlt hf
    obtain ⟨used, rfl, hr⟩ := hfirst ts v middle hlt hf
    obtain ⟨more, rfl, hr'⟩ := hsecond v used hr middle w rest hmiddle hrun
    exact ⟨used ++ more, (List.append_assoc ..).symm, hr'⟩

protected theorem bind {second : α → Action β} {relation' : List Token → β → Prop}
    (hfirst : Sound n first relation) (hsecond : ∀ v used, relation used v →
      Sound n (second v) fun more w => relation' (used ++ more) w) :
    Sound n (first >>= second) relation' := by
  refine bind_below (fun ts v rest hlt hf => ?_) hfirst hsecond
  obtain ⟨used, rfl, -⟩ := hfirst ts v rest hlt hf
  rw [List.length_append] at hlt
  omega

section

variable {accepts : Token → Prop} [DecidablePred accepts] {taken : Token → Action α}
  {otherwise : Action α} {problem : Problem}

/-- Less is left after the token that was taken. -/
theorem takeIf_below
    (htaken : ∀ t, accepts t → Sound n (taken t) fun used v => relation (t :: used) v)
    (hother : Sound (n + 1) otherwise relation) :
    Sound (n + 1) (Action.takeIf accepts taken otherwise) relation := by
  intro ts v rest hlt hrun
  cases ts with
  | nil => exact hother [] v rest hlt hrun
  | cons t us =>
    rw [run_takeIf_cons] at hrun
    split at hrun
    · rename_i ht
      obtain ⟨used, rfl, hr⟩ := htaken t ht us v rest (Nat.lt_of_succ_lt_succ hlt) hrun
      exact ⟨t :: used, rfl, hr⟩
    · exact hother _ v rest hlt hrun

protected theorem takeIf
    (htaken : ∀ t, accepts t → Sound n (taken t) fun used v => relation (t :: used) v)
    (hother : Sound n otherwise relation) : Sound n (takeIf accepts taken otherwise) relation := by
  cases n with
  | zero => exact fun ts _ _ hlt => absurd hlt (Nat.not_lt_zero _)
  | succ n =>
    refine takeIf_below (fun t ht ts v rest hlt => ?_) hother
    exact htaken t ht ts v rest (Nat.lt_succ_of_lt hlt)

protected theorem take
    (htaken : ∀ t, accepts t → Sound n (taken t) fun used v => relation (t :: used) v) :
    Sound n (take accepts problem taken) relation := .takeIf htaken .throw

protected theorem stopIf {stops : Option Token → Prop} [DecidablePred stops] {v : α}
    (hv : relation [] v) (hother : Sound n otherwise relation) :
    Sound n (stopIf stops v otherwise) relation := by
  intro ts w rest hlt hrun
  rw [run_stopIf] at hrun
  split at hrun
  · cases hrun
    exact ⟨[], rfl, hv⟩
  · exact hother ts w rest hlt hrun

protected theorem refuse (hother : Sound n otherwise relation) :
    Sound n (refuse accepts problem otherwise) relation := by
  intro ts v rest hlt hrun
  cases ts with
  | nil => exact hother [] v rest hlt hrun
  | cons t us =>
    rw [run_refuse_cons] at hrun
    split at hrun
    · cases hrun
    · exact hother _ v rest hlt hrun

end

protected theorem terminated (h : Sound n first relation) : Sound n (terminated first) fun used v =>
    ∃ a b, used = a ++ b ∧ relation a v ∧ Terminator b := by
  refine h.bind fun v a ha => ?_
  intro ts w rest _ hrun
  rw [bind_of_ok (run_terminator ts)] at hrun
  cases hrun
  cases ts with
  | nil => exact ⟨[], rfl, a, [], by simp, ha, .none⟩
  | cons t us =>
    by_cases ht : t.kind = .semicolon
    · exact ⟨[t], by simp [skipTerminator, ht], a, [t], by simp, ha, .one ht⟩
    · exact ⟨[], by simp [skipTerminator, ht], a, [], by simp, ha, .none⟩

end Sound

section Variables

variable {n : Nat}

theorem sound_expect (kind : TokenKind) (what : Expectation) :
    Sound n (expect kind what) fun used t => used = [t] ∧ t.kind = kind :=
  .take fun _ ht => .pure ⟨rfl, ht⟩

theorem sound_name : Sound n name fun used text => ∃ t, used = [t] ∧ text = t.text ∧ IsName t :=
  .take fun t ht => .pure ⟨t, rfl, rfl, ht⟩

theorem sound_expression : Sound n expression (Derives .assignment) := by
  intro ts e rest _ hrun
  obtain ⟨used, hts, hd, -⟩ := yields_expression_iff.mp (Reading.result_eq_ok_iff.mp hrun)
  exact ⟨used, hts, hd⟩

theorem sound_sizeSuffix : Sound n sizeSuffix DerivesSize := by
  refine .takeIf (fun t ht => ?_) (.pure .none)
  refine .takeIf (fun u hu => .pure (.empty ht hu)) ?_
  refine sound_expression.bind fun e a he => ?_
  refine (sound_expect _ _).bind fun u b hu => ?_
  obtain ⟨rfl, hu⟩ := hu
  exact .pure (by simpa using .sized ht he hu)

/-- What follows the type and the name of a variable. -/
theorem sound_variableRest {t u : Token} (ht : t.kind = .typeKeyword) (hu : IsName u) :
    Sound n (variableRest t.text u.text t.position) fun used v =>
      DerivesVariable (t :: u :: used) v := by
  refine sound_sizeSuffix.bind fun suffix a ha => ?_
  refine .takeIf (fun sign hsign => ?_) (.pure ?_)
  · refine sound_expression.bind fun e b he => .pure ?_
    simpa using DerivesVariable.intro ht hu ha (.some hsign he)
  · simpa using DerivesVariable.intro ht hu ha .none

theorem sound_typedVariable {t : Token} (ht : t.kind = .typeKeyword) :
    Sound n (typedVariable t) fun used v => DerivesVariable (t :: used) v := by
  refine sound_name.bind fun text a ha => ?_
  obtain ⟨u, rfl, rfl, hu⟩ := ha
  exact sound_variableRest ht hu

theorem sound_optionalExpression (ending : TokenKind) :
    Sound n (optionalExpression ending) DerivesOptional :=
  .stopIf .none (sound_expression.bind fun e a he => .pure (by simpa using .some he))

theorem sound_forInit : Sound n forInit DerivesForInit := by
  refine .stopIf .none (.takeIf (fun t ht => ?_) ?_)
  · exact (sound_typedVariable ht).bind fun v a hv => .pure (by simpa using .declare hv)
  · exact sound_expression.bind fun e a he => .pure (by simpa using .expression he)

theorem sound_forHead : Sound n forHead DerivesForHead := by
  refine .takeIf (fun t ht => ?_) ?_
  · refine sound_forInit.bind fun init a ha => ?_
    refine (sound_expect _ _).bind fun u _ hu => ?_
    refine (sound_optionalExpression _).bind fun condition b hb => ?_
    refine (sound_expect _ _).bind fun v _ hv => ?_
    refine (sound_optionalExpression _).bind fun update c hc => ?_
    refine (sound_expect _ _).bind fun w _ hw => .pure ?_
    obtain ⟨rfl, hu⟩ := hu
    obtain ⟨rfl, hv⟩ := hv
    obtain ⟨rfl, hw⟩ := hw
    simpa using DerivesForHead.clauses ht ha hu hb hv hc hw
  · exact sound_expression.bind fun e a he => .pure (by simpa using .condition he)

end Variables

section Statements

/-! The hypothesis `nested` is the statement about the statements nested in the one being read. -/

variable {n : Nat} (nested : Sound n bareStatement DerivesStatement)

include nested

theorem sound_statement : Sound n statement DerivesBody := by
  refine nested.terminated.mono ?_
  rintro _ s ⟨a, b, rfl, hs, hb⟩
  exact .intro hs hb

theorem sound_statements (stop : Token → Bool) {k : Nat} (hk : k ≤ n) :
    Sound k (statements stop) DerivesStatements := by
  induction k with
  | zero => exact fun ts _ _ hlt => absurd hlt (Nat.not_lt_zero _)
  | succ k ih =>
    have first : Sound (k + 1) statement DerivesBody :=
      fun ts s rest hlt => sound_statement nested ts s rest (by omega)
    rw [statements_eq]
    refine .stopIf .none (first.bind_below below_of_statement fun s a hs => ?_)
    exact (ih (by omega)).bind fun ss b hss => .pure (by simpa using .more hs hss)

theorem sound_openedBlock {t : Token} (ht : t.kind = .openBrace) :
    Sound n (openedBlock t) fun used b => DerivesBlock (t :: used) b := by
  refine (sound_statements nested _ (Nat.le_refl n)).bind fun ss a hss => ?_
  refine (sound_expect _ _).bind fun u _ hu => .pure ?_
  obtain ⟨rfl, hu⟩ := hu
  simpa using DerivesBlock.intro ht hss hu

theorem sound_alternative : Sound n alternative DerivesBody := by
  intro ts s rest hlt hrun
  have hrun : (if startsWithControl "if" ts then bareStatement.run ts else statement.run ts) =
      .ok s rest := hrun
  split at hrun
  · obtain ⟨used, hts, hs⟩ := nested ts s rest hlt hrun
    exact ⟨used, hts, by simpa using DerivesBody.intro hs .none⟩
  · exact sound_statement nested ts s rest hlt hrun

theorem sound_ifElse {t : Token} (ht : t.isWord .controlKeyword "if" = true) :
    Sound n (ifElse t.position) fun used s => DerivesStatement (t :: used) s := by
  refine sound_expression.bind fun condition a hcondition => ?_
  refine (sound_statement nested).bind fun consequent b hconsequent => ?_
  refine .takeIf (fun u hu => ?_) (.pure ?_)
  · refine (sound_alternative nested).bind fun other c hother => .pure ?_
    simpa using DerivesStatement.ifElse ht hcondition hconsequent hu hother
  · simpa using DerivesStatement.ifOnly ht hcondition hconsequent

theorem sound_whileLoop {t : Token} (ht : t.isWord .controlKeyword "while" = true) :
    Sound n (whileLoop t.position) fun used s => DerivesStatement (t :: used) s := by
  refine sound_expression.bind fun condition a hcondition => ?_
  refine (sound_statement nested).bind fun body b hbody => .pure ?_
  simpa using DerivesStatement.whileLoop ht hcondition hbody

theorem sound_forLoop {t : Token} (ht : t.isWord .controlKeyword "for" = true) :
    Sound n (forLoop t.position) fun used s => DerivesStatement (t :: used) s := by
  refine sound_forHead.bind fun head a hhead => ?_
  refine (sound_statement nested).bind fun body b hbody => .pure ?_
  simpa using DerivesStatement.forLoop ht hhead hbody

/-- A default that was seen before leaves none for the clauses that follow. -/
theorem sound_clauses (seen : Bool) {k : Nat} (hk : k ≤ n) :
    Sound k (clauses seen) fun used found =>
      DerivesClauses used found.1 found.2 ∧ (seen = true → found.2 = none) := by
  induction k generalizing seen with
  | zero => exact fun ts _ _ hlt => absurd hlt (Nat.not_lt_zero _)
  | succ k ih =>
    have hstatements : Sound k (statements endsClause) DerivesStatements :=
      sound_statements nested _ (by omega)
    rw [clauses_eq]
    refine .takeIf_below (fun t ht => ?_) ?_
    · refine sound_expression.bind fun value a hvalue => ?_
      refine (sound_expect _ _).bind fun u _ hu => ?_
      refine hstatements.bind fun body b hbody => ?_
      refine (ih seen (by omega)).bind fun others c hothers => .pure ⟨?_, hothers.2⟩
      obtain ⟨rfl, hu⟩ := hu
      simpa using DerivesClauses.case ht hvalue hu hbody hothers.1
    · cases seen with
      | true => exact .refuse (.pure ⟨.none, fun _ => rfl⟩)
      | false =>
        refine .takeIf_below (fun t ht => ?_) (.pure ⟨.none, fun _ => rfl⟩)
        refine (sound_expect _ _).bind fun u _ hu => ?_
        refine hstatements.bind fun body b hbody => ?_
        refine (ih true (by omega)).bind fun others c hothers => .pure ⟨?_, nofun⟩
        obtain ⟨rfl, hu⟩ := hu
        have hnone : DerivesClauses c others.1 none := hothers.2 rfl ▸ hothers.1
        simpa using DerivesClauses.default ht hu hbody hnone

theorem sound_switch {t : Token} (ht : t.isWord .controlKeyword "switch" = true) :
    Sound n (switch t.position) fun used s => DerivesStatement (t :: used) s := by
  refine sound_expression.bind fun subject a hsubject => ?_
  refine (sound_expect _ _).bind fun u _ hu => ?_
  refine (sound_clauses nested false (Nat.le_refl n)).bind fun found b hfound => ?_
  refine (sound_expect _ _).bind fun v _ hv => .pure ?_
  obtain ⟨rfl, hu⟩ := hu
  obtain ⟨rfl, hv⟩ := hv
  simpa using DerivesStatement.switch ht hsubject hu hfound.1 hv

end Statements

theorem sound_expressionStatement {n : Nat} : Sound n expressionStatement DerivesStatement := by
  intro ts s rest hlt hrun
  have located : Sound n (do return Stmt.expression (← expression) (here ts)) fun used s =>
      ∃ e, Derives .assignment used e ∧ s = .expression e (here ts) :=
    sound_expression.bind fun e a he => .pure ⟨e, by simpa using he, rfl⟩
  obtain ⟨used, rfl, e, he, rfl⟩ := located ts s rest hlt hrun
  obtain ⟨t, us, rfl, -⟩ := he.starts
  exact ⟨t :: us, rfl, .expression he⟩

theorem sound_bareStatement (n : Nat) : Sound n bareStatement DerivesStatement := by
  induction n with
  | zero => exact fun ts _ _ hlt => absurd hlt (Nat.not_lt_zero _)
  | succ n nested =>
    rw [bareStatement_eq]
    refine .takeIf_below (fun t ht => ?_) ?_
    · exact (sound_openedBlock nested ht).bind fun b a hb => .pure (by simpa using .block hb)
    refine .takeIf_below (fun t ht => sound_ifElse nested ht) ?_
    refine .takeIf_below (fun t ht => sound_whileLoop nested ht) ?_
    refine .takeIf_below (fun t ht => sound_forLoop nested ht) ?_
    refine .takeIf_below (fun t ht => sound_switch nested ht) ?_
    refine .takeIf_below (fun t ht => ?_) ?_
    · refine .stopIf (.returns ht .none) (sound_expression.bind fun e a he => .pure ?_)
      simpa using DerivesStatement.returns ht (.some he)
    refine .takeIf_below (fun t ht => .pure (.breaks ht)) ?_
    refine .takeIf_below (fun t ht => .pure (.continues ht)) ?_
    refine .takeIf_below (fun t ht => ?_) sound_expressionStatement
    exact (sound_typedVariable ht).bind fun v a hv => .pure (by simpa using .declare hv)

section Programs

variable {n : Nat}

theorem sound_block : Sound n block DerivesBlock :=
  .take fun _ => sound_openedBlock (sound_bareStatement n)

theorem sound_parameter : Sound n parameter DerivesParameter := by
  refine .take fun _ ht => ?_
  refine sound_name.bind fun _ a ha => .pure ?_
  obtain ⟨u, rfl, rfl, hu⟩ := ha
  exact .intro ht hu

theorem sound_parameterList : Sound n parameterList DerivesParameters := by
  induction n with
  | zero => exact fun ts _ _ hlt => absurd hlt (Nat.not_lt_zero _)
  | succ n ih =>
    rw [parameterList_eq]
    refine sound_parameter.bind fun p a hp => ?_
    refine .takeIf_below (fun t ht => ?_) (.pure (by simpa using .last hp))
    exact ih.bind fun ps b hps => .pure (by simpa using .more hp ht hps)

theorem isVoidClose_iff {ts : List Token} : isVoidClose ts = true ↔
    ∃ t u us, ts = t :: u :: us ∧ t.isWord .typeKeyword "void" = true ∧ u.kind = .closeParen := by
  match ts with
  | [] => simp [isVoidClose]
  | [t] => simp [isVoidClose]
  | t :: u :: us => simp [isVoidClose, and_assoc]

/-- Parameters in parentheses, after the opening one. -/
theorem sound_openedParameters {t : Token} (ht : t.kind = .openParen) :
    Sound n openedParameters fun used ps => DerivesGroup (t :: used) ps := by
  refine .takeIf (fun u hu => .pure (.empty ht hu)) ?_
  have hlist : Sound n closedParameters fun used ps => DerivesGroup (t :: used) ps := by
    refine sound_parameterList.bind fun ps a hps => ?_
    refine (sound_expect _ _).bind fun u _ hu => .pure ?_
    obtain ⟨rfl, hu⟩ := hu
    simpa using DerivesGroup.list ht hps hu
  intro ts ps rest hlt hrun
  have hrun : (if isVoidClose ts then .ok [] (ts.drop 2) else closedParameters.run ts) =
      EStateM.Result.ok ps rest := hrun
  split at hrun
  · rename_i hvoid
    obtain ⟨u, v, us, rfl, hu, hv⟩ := isVoidClose_iff.mp hvoid
    cases hrun
    exact ⟨[u, v], rfl, .void ht hu hv⟩
  · exact hlist ts ps rest hlt hrun

/-- Parameters without parentheses, after the first type. -/
theorem sound_typedParameters {t : Token} (ht : t.kind = .typeKeyword) :
    Sound n (typedParameters t) fun used ps => DerivesBare (t :: used) ps := by
  induction n generalizing t with
  | zero => exact fun ts _ _ hlt => absurd hlt (Nat.not_lt_zero _)
  | succ n ih =>
    refine .stopIf (.type ht) (sound_name.bind fun text a ha => ?_)
    obtain ⟨u, rfl, rfl, hu⟩ := ha
    refine .takeIf_below (fun v hv => ?_) (.pure (.last (.intro ht hu)))
    have others : Sound n bareParameters DerivesBare := by
      rw [bareParameters_eq]
      exact .take fun w hw => ih hw
    exact others.bind fun ps b hps => .pure (by simpa using .more (.intro ht hu) hv hps)

theorem sound_markedParameters : Sound n markedParameters DerivesMarked := by
  refine .takeIf (fun t ht => ?_) ?_
  · exact (sound_openedParameters ht).mono fun _ _ => .group
  refine .takeIf (fun t ht => .pure (.void ht)) ?_
  refine .takeIf (fun t ht => ?_) (.pure .none)
  exact (sound_typedParameters ht).mono fun _ _ => .bare

/-- A marked function, after the marker. -/
theorem sound_markedFunction {m : Token}
    (hm : m.isWord .otherKeyword Vocabulary.functionMarker = true) :
    Sound n markedFunction fun used f => DerivesDeclaration (m :: used) (.function f) := by
  refine .take fun t ht => ?_
  refine sound_name.bind fun text a ha => ?_
  obtain ⟨u, rfl, rfl, hu⟩ := ha
  refine sound_markedParameters.bind fun ps b hps => ?_
  refine sound_block.bind fun body c hbody => .pure ?_
  simpa using DerivesDeclaration.marked hm ht hu hps hbody

theorem sound_typedDeclaration {t : Token} (ht : t.kind = .typeKeyword) :
    Sound n (typedDeclaration t) fun used d => DerivesDeclaration (t :: used) d := by
  refine sound_name.bind fun text a ha => ?_
  obtain ⟨u, rfl, rfl, hu⟩ := ha
  refine .takeIf (fun v hv => ?_) ?_
  · refine (sound_openedParameters hv).bind fun ps b hps => ?_
    refine sound_block.bind fun body c hbody => .pure ?_
    simpa using DerivesDeclaration.typed ht hu hps hbody
  · exact (sound_variableRest ht hu).bind fun v b hv => .pure (by simpa using .global hv)

theorem sound_declaration : Sound n declaration fun used d =>
    ∃ a b, used = a ++ b ∧ DerivesDeclaration a d ∧ Terminator b := by
  refine .takeIf (fun m hm => ?_) ?_
  · refine (sound_markedFunction hm).terminated.bind fun f used hf => .pure ?_
    obtain ⟨a, b, rfl, ha, hb⟩ := hf
    exact ⟨m :: a, b, by simp, ha, hb⟩
  refine .takeIf (fun t ht => ?_) ?_
  · refine (sound_typedDeclaration ht).terminated.mono ?_
    rintro _ d ⟨a, b, rfl, ha, hb⟩
    exact ⟨t :: a, b, rfl, ha, hb⟩
  · refine (sound_bareStatement _).terminated.bind fun s used hs => .pure ?_
    obtain ⟨a, b, rfl, ha, hb⟩ := hs
    exact ⟨a, b, by simp, .statement ha, hb⟩

end Programs

end Action

/-- Declarations are derived from all the tokens given. -/
theorem derivesProgram_of_declarations : ∀ (n : Nat) {ts : List Token} {program : Program},
    ts.length < n → declarations ts = .ok program → DerivesProgram ts program := by
  intro n
  induction n with
  | zero => exact fun hlt => absurd hlt (Nat.not_lt_zero _)
  | succ n ih =>
    intro ts program hlt hread
    rw [declarations_eq] at hread
    split at hread
    · rename_i hempty
      cases hread
      rw [List.isEmpty_iff.mp hempty]
      exact .none
    cases hd : Action.declaration.run ts with
    | error problem rest => simp [hd] at hread
    | ok d rest =>
      rw [hd] at hread
      have hshort := Action.length_of_declaration hd
      obtain ⟨used, rfl, a, b, rfl, ha, hb⟩ := Action.sound_declaration ts d rest hlt hd
      cases hr : declarations rest with
      | error failure => simp [hr, Except.map] at hread
      | ok others =>
        simp only [hr, Except.map, Except.ok.injEq] at hread
        rw [← hread, List.append_assoc]
        exact .more ha hb (ih (by omega) hr)

/-- Only the tokens before the first end token are read. -/
theorem parse_eq_ok_iff {tokens : List Token} {program : Program} :
    parse tokens = .ok program ↔
      declarations (tokens.takeWhile fun t => t.kind != .eof) = .ok program := by
  rw [parse, TokenStream.program]
  show _ ↔ declarations (TokenStream.ofTokens tokens).pending = .ok program
  cases declarations (TokenStream.ofTokens tokens).pending with
  | ok _ => simp
  | error failure => simp

/-- A program that is read is derived from the tokens before the first end token, each used once
and in order. -/
theorem derivesProgram_of_parse (tokens : List Token) (program : Program)
    (read : parse tokens = .ok program) :
    DerivesProgram (tokens.takeWhile fun t => t.kind != .eof) program := by
  exact derivesProgram_of_declarations _ (Nat.lt_succ_self _) (parse_eq_ok_iff.mp read)

/-- In `int a[b]; while c d;;` the size is used and not kept, and of the last two terminators the
first ends the body and the second the loop. -/
theorem derivesProgram_of_parse_sized :
    ∃ program, parse (tokenize "ゲギグウ ガ[ダ]。ガギザ ザ バ。。") = .ok program ∧
      DerivesProgram ((tokenize "ゲギグウ ガ[ダ]。ガギザ ザ バ。。").takeWhile fun t => t.kind != .eof)
        program := by
  have tokens : tokenize "ゲギグウ ガ[ダ]。ガギザ ザ バ。。" = [⟨.typeKeyword, .text "int", ⟨1, 1⟩⟩,
      ⟨.identifier, .text "ガ", ⟨1, 6⟩⟩, ⟨.openBracket, .text "[", ⟨1, 7⟩⟩,
      ⟨.identifier, .text "ダ", ⟨1, 8⟩⟩, ⟨.closeBracket, .text "]", ⟨1, 9⟩⟩,
      ⟨.semicolon, .text ";", ⟨1, 10⟩⟩, ⟨.controlKeyword, .text "while", ⟨1, 11⟩⟩,
      ⟨.identifier, .text "ザ", ⟨1, 15⟩⟩, ⟨.identifier, .text "バ", ⟨1, 17⟩⟩,
      ⟨.semicolon, .text ";", ⟨1, 18⟩⟩, ⟨.semicolon, .text ";", ⟨1, 19⟩⟩,
      ⟨.eof, .none, ⟨1, 20⟩⟩] := by decide +kernel
  have parsed : parse (tokenize "ゲギグウ ガ[ダ]。ガギザ ザ バ。。") = .ok
      [.global ⟨"int[]", "ガ", none, ⟨1, 1⟩⟩, .statement (.whileLoop (.name "ザ" ⟨1, 15⟩)
        (.expression (.name "バ" ⟨1, 17⟩) ⟨1, 17⟩) ⟨1, 11⟩)] := by
    rw [tokens]
    cbv
  exact ⟨_, parsed, derivesProgram_of_parse _ _ parsed⟩

end KanaScript.Grammar
