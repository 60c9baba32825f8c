import KanaScript.Proofs.Grammar.Calls
import KanaScript.Proofs.Grammar.Concatenation
import KanaScript.Proofs.Grammar.TakenTokens

/-! Terminators are optional.  One more terminator right after a statement or a declaration changes
nothing, unless there is one already: it is taken there, or by the last of the statements around
that end at the same place. -/

namespace KanaScript.Grammar

namespace Action

variable {α β : Type} {extra t : Token} {back ts us rest : List Token}

/-- What `f` makes of `ts` does not change with `extra` in front of `back`, which ends `ts`. -/
def Ignores (extra : Token) (back : List Token) (f : List Token → β) (ts : List Token) : Prop :=
  ∃ front, front ≠ [] ∧ ts = front ++ back ∧ f (front ++ extra :: back) = f ts

/-- The action takes `ts` up to `back`, and leaves `extra` in front of `back`. -/
def Leaves (extra : Token) (back : List Token) (action : Action α) (ts : List Token) : Prop :=
  ∃ used v, ts = used ++ back ∧ action.run ts = .ok v back ∧
    action.run (used ++ extra :: back) = .ok v (extra :: back)

/-- What the action does is settled by the tokens that it takes and the next one. -/
def LooksAhead (action : Action α) : Prop :=
  ∀ ts v rest, AllProper ts → action.run ts = .ok v rest →
    ∃ used, ts = used ++ rest ∧ ∀ others : List Token, others.head? = rest.head? →
      action.run (used ++ others) = .ok v others

theorem Predictive.looksAhead {action : Action α} {follow entry : List Token → Prop}
    (h : ∀ n, Predictive n follow entry action) : LooksAhead action := by
  intro ts v rest hproper hrun
  obtain ⟨used, hts, settled⟩ := (h _).exists_split hproper hrun
  exact ⟨used, hts, fun others hhead => settled others (.inl hhead)⟩

section Ignores

theorem Ignores.congr {f g : List Token → β} (h : Ignores extra back g ts)
    (hfg : ∀ us : List Token, us.head? = ts.head? → f us = g us) : Ignores extra back f ts := by
  obtain ⟨front, hne, rfl, heq⟩ := h
  refine ⟨front, hne, rfl, ?_⟩
  rw [hfg _ (Predicts.head?_append_congr hne _ _), hfg _ rfl, heq]

/-- What has taken a token goes on as with something else. -/
theorem Ignores.led {f g : List Token → β} (h : Ignores extra back g ts)
    (hfg : ∀ us, f (t :: us) = g us) : Ignores extra back f (t :: ts) := by
  obtain ⟨front, hne, rfl, heq⟩ := h
  refine ⟨t :: front, nofun, rfl, ?_⟩
  rw [List.cons_append, hfg, hfg, heq]

theorem Ignores.bind {first : Action α} {second : α → Action β}
    (h : Ignores extra back first.run ts) : Ignores extra back (first >>= second).run ts := by
  obtain ⟨front, hne, hts, heq⟩ := h
  exact ⟨front, hne, hts, run_bind_congr heq second⟩

/-- What has been taken before does not depend on what comes later. -/
theorem Ignores.after {first : Action α} {second : α → Action β} {v : α}
    (hfirst : LooksAhead first) (hproper : AllProper ts) (hrun : first.run ts = .ok v us)
    (h : Ignores extra back (second v).run us) : Ignores extra back (first >>= second).run ts := by
  obtain ⟨used, rfl, settled⟩ := hfirst ts v us hproper hrun
  obtain ⟨front, hne, rfl, heq⟩ := h
  refine ⟨used ++ front, by simp [hne], by simp, ?_⟩
  have hhead := Predicts.head?_append_congr hne (extra :: back) back
  rw [List.append_assoc, bind_of_ok (settled _ hhead), bind_of_ok hrun, heq]

end Ignores

section Leaves

theorem ne_nil_of_length_lt {used : List Token} (h : back.length < (used ++ back).length) :
    used ≠ [] := by
  rintro rfl
  exact Nat.lt_irrefl _ h

theorem Leaves.exists_run {action : Action α} (h : Leaves extra back action ts) :
    ∃ v, action.run ts = .ok v back := by
  obtain ⟨used, v, -, hbefore, -⟩ := h
  exact ⟨v, hbefore⟩

theorem Leaves.congr {action other : Action α} (h : Leaves extra back other ts)
    (hshort : back.length < ts.length)
    (hrun : ∀ us : List Token, us.head? = ts.head? → action.run us = other.run us) :
    Leaves extra back action ts := by
  obtain ⟨used, v, rfl, hbefore, hafter⟩ := h
  refine ⟨used, v, rfl, (hrun _ rfl).trans hbefore, ?_⟩
  rw [hrun _ (Predicts.head?_append_congr (ne_nil_of_length_lt hshort) _ _), hafter]

theorem Leaves.led {action other : Action α} (h : Leaves extra back other ts)
    (hrun : ∀ us, action.run (t :: us) = other.run us) : Leaves extra back action (t :: ts) := by
  obtain ⟨used, v, rfl, hbefore, hafter⟩ := h
  exact ⟨t :: used, v, rfl, (hrun _).trans hbefore, (hrun _).trans hafter⟩

theorem Leaves.bind {first : Action α} {second : α → Action β} (h : Leaves extra back first ts)
    (hsecond : ∀ v, ∃ w, (second v).run back = .ok w back ∧
      (second v).run (extra :: back) = .ok w (extra :: back)) :
    Leaves extra back (first >>= second) ts := by
  obtain ⟨used, v, hts, hbefore, hafter⟩ := h
  obtain ⟨w, hbefore', hafter'⟩ := hsecond v
  exact ⟨used, w, hts, (bind_of_ok hbefore).trans hbefore', (bind_of_ok hafter).trans hafter'⟩

theorem Leaves.map {action : Action α} {k : α → β} (h : Leaves extra back action ts) :
    Leaves extra back (do return k (← action)) ts :=
  h.bind fun v => ⟨k v, rfl, rfl⟩

theorem Leaves.after {first : Action α} {second : α → Action β} {v : α}
    (hfirst : LooksAhead first) (hproper : AllProper ts) (hrun : first.run ts = .ok v us)
    (hshort : back.length < us.length) (h : Leaves extra back (second v) us) :
    Leaves extra back (first >>= second) ts := by
  obtain ⟨used, rfl, settled⟩ := hfirst ts v us hproper hrun
  obtain ⟨used', w, rfl, hbefore, hafter⟩ := h
  refine ⟨used ++ used', w, by simp, (bind_of_ok hrun).trans hbefore, ?_⟩
  have hhead := Predicts.head?_append_congr (ne_nil_of_length_lt hshort) (extra :: back) back
  rw [List.append_assoc, bind_of_ok (settled _ hhead), hafter]

/-- An action that may end in front of `extra`. -/
theorem Predictive.leaves {action : Action α} {follow entry : List Token → Prop} {v : α}
    (h : Predictive (ts.length + 1) follow entry action) (hproper : AllProper ts)
    (hrun : action.run ts = .ok v back) (hfollow : follow (extra :: back)) :
    Leaves extra back action ts := by
  obtain ⟨used, rfl, settled⟩ := h.exists_split hproper hrun
  exact ⟨used, v, rfl, hrun, settled _ (.inr hfollow)⟩

theorem Unterminated.skipTerminator (h : Unterminated back) : skipTerminator back = back := by
  cases back with
  | nil => rfl
  | cons t us => exact if_neg (h t rfl)

/-- What leaves the terminator has it taken in the end. -/
theorem Leaves.ignores_terminated {action : Action α} (h : Leaves extra back action ts)
    (hextra : extra.kind = .semicolon) (hback : Unterminated back)
    (hshort : back.length < ts.length) : Ignores extra back (terminated action).run ts := by
  obtain ⟨used, v, rfl, hbefore, hafter⟩ := h
  refine ⟨used, ne_nil_of_length_lt hshort, rfl, ?_⟩
  rw [run_terminated_eq_ok_iff.mpr ⟨back, hbefore, hback.skipTerminator⟩,
    run_terminated_eq_ok_iff.mpr ⟨extra :: back, hafter, if_pos hextra⟩]

end Leaves

section Steps

/-- One more terminator in front of `back` makes no difference to what is to be read.  A statement
that is read up to its terminator may also leave it. -/
def Steady (extra : Token) (back : List Token) : Task × List Token → Prop
  | (.declarations, ts) => Ignores extra back declarations ts
  | (.block, ts) => Ignores extra back block.run ts
  | (.statements stop, ts) => Ignores extra back (statements stop).run ts
  | (.clauses seen, ts) => Ignores extra back (clauses seen).run ts
  | (.statement, ts) => Ignores extra back statement.run ts
  | (.bareStatement, ts) =>
    Ignores extra back bareStatement.run ts ∨ Leaves extra back bareStatement ts

section

variable {t u : Token} (hproper : AllProper ts)

theorem ignores_declarations (h : Ignores extra back declaration.run ts) :
    Ignores extra back declarations ts := by
  obtain ⟨front, hne, rfl, heq⟩ := h
  refine ⟨front, hne, rfl, ?_⟩
  rw [declarations_eq, declarations_eq (front ++ back), heq]
  simp [hne]

theorem expect_bind {kind : TokenKind} {what : Expectation} (ht : t.kind = kind)
    (second : Token → Action α) (us : List Token) :
    (expect kind what >>= second).run (t :: us) = (second t).run us :=
  bind_of_ok (run_expect_eq_ok_iff.mpr ⟨rfl, ht⟩)

theorem run_clauses_default (label : t.isWord .controlKeyword "default" = true)
    (us : List Token) : (clauses false).run (t :: us) = defaultClause.run us := by
  have hcase : ∀ u ∈ (t :: us).head?, ¬u.isWord .controlKeyword "case" = true := by
    intro u hu hcase
    obtain rfl : t = u := Option.some.inj hu
    exact absurd ((isWord_iff_eq label).mp hcase) (by decide)
  rw [clauses_eq, run_takeIf_neg hcase, lastClauses, if_neg Bool.false_ne_true,
    run_takeIf_pos label]

theorem run_alternative_if (nested : t.isWord .controlKeyword "if" = true)
    (hus : us.head? = some t) : alternative.run us = bareStatement.run us := by
  obtain ⟨vs, rfl⟩ := List.head?_eq_some_iff.mp hus
  exact if_pos nested

theorem run_alternative_plain (plain : ∀ u ∈ us.head?, ¬u.isWord .controlKeyword "if" = true) :
    alternative.run us = statement.run us := by
  rw [alternative_eq, run_takeIf_neg plain]

theorem looksAhead_name : LooksAhead name := by
  have h (n : Nat) : Predictive n (fun _ => True) _ name := predictive_name
  exact Predictive.looksAhead h

theorem looksAhead_expression : LooksAhead expression :=
  Predictive.looksAhead predictive_expression

theorem looksAhead_forHead : LooksAhead forHead := Predictive.looksAhead fun _ => predictive_forHead

theorem looksAhead_bareStatement : LooksAhead bareStatement :=
  Predictive.looksAhead predictive_bareStatement

theorem looksAhead_statement : LooksAhead statement :=
  Predictive.looksAhead fun n => predictive_statement (predictive_bareStatement n)

theorem looksAhead_clauseStatements : LooksAhead (statements endsClause) :=
  Predictive.looksAhead fun n => predictive_statements (predictive_bareStatement n) (Nat.le_refl n)
    (fun t ht => by simp [endsClause, ht]) rfl

theorem looksAhead_markedParameters : LooksAhead markedParameters :=
  Predictive.looksAhead fun _ => predictive_markedParameters

theorem looksAhead_openedParameters : LooksAhead openedParameters := by
  have h (n : Nat) : Predictive n (fun _ => True) _ openedParameters := predictive_openedParameters
  exact Predictive.looksAhead h

theorem looksAhead_declaration : LooksAhead declaration :=
  Predictive.looksAhead fun _ => predictive_declaration

include hproper

theorem ignores_nextDeclaration {d : Declaration} (hrun : declaration.run ts = .ok d us)
    (h : Ignores extra back declarations us) : Ignores extra back declarations ts := by
  obtain ⟨used, rfl, settled⟩ := looksAhead_declaration ts d us hproper hrun
  obtain ⟨front, hne, rfl, heq⟩ := h
  refine ⟨used ++ front, by simp [hne], by simp, ?_⟩
  have hhead := Predicts.head?_append_congr hne (extra :: back) back
  rw [List.append_assoc, declarations_of_ok (settled _ hhead), declarations_of_ok hrun, heq]

theorem ignores_markedFunction {text : String} {ps : List Parameter} (type : u.kind = .typeKeyword)
    (ident : name.run ts = .ok text us) (list : markedParameters.run us = .ok ps rest)
    (h : Ignores extra back block.run rest) : Ignores extra back markedFunction.run (u :: ts) := by
  have hus : AllProper us := hproper.suffix (sound_name.suffix ident)
  refine .led ?_ fun us => run_takeIf_pos type
  exact .after looksAhead_name hproper ident (.after looksAhead_markedParameters hus list h.bind)

theorem ignores_typedDeclaration {text : String} {ps : List Parameter}
    (ident : name.run ts = .ok text (u :: us)) (opening : u.kind = .openParen)
    (list : openedParameters.run us = .ok ps rest) (h : Ignores extra back block.run rest) :
    Ignores extra back (typedDeclaration t).run ts := by
  have hus : AllProper (u :: us) := hproper.suffix (sound_name.suffix ident)
  refine .after looksAhead_name hproper ident (.led ?_ fun us => run_takeIf_pos opening)
  exact .after looksAhead_openedParameters hus.tail list h.bind

section Alternatives

variable {condition : Expr} {s : Stmt} (word : t.isWord .controlKeyword "if" = true)
  (test : expression.run ts = .ok condition us) (body : statement.run us = .ok s (u :: rest))
  (word' : u.isWord .controlKeyword "else" = true)

include word test body word'

theorem ignores_alternative (h : Ignores extra back alternative.run rest) :
    Ignores extra back bareStatement.run (t :: ts) := by
  have hus : AllProper us := hproper.suffix (suffix_of_expression test)
  refine .led ?_ fun us => run_bareStatement_word word us
  refine .after looksAhead_expression hproper test (.after looksAhead_statement hus body ?_)
  exact .led h.bind fun us => run_takeIf_pos word'

theorem leaves_alternative (hshort : back.length < rest.length)
    (h : Leaves extra back alternative rest) : Leaves extra back bareStatement (t :: ts) := by
  have hus : AllProper us := hproper.suffix (suffix_of_expression test)
  have hrest := (suffix_of_statement body).length_le
  rw [List.length_cons] at hrest
  refine .led ?_ fun us => run_bareStatement_word word us
  refine .after looksAhead_expression hproper test (by omega) (.after looksAhead_statement hus body
    (by simp only [List.length_cons]; omega) ?_)
  exact .led h.map fun us => run_takeIf_pos word'

end Alternatives

end

theorem length_of_expression {e : Expr} (h : expression.run ts = .ok e rest) :
    rest.length < ts.length :=
  (Reading.result_eq_ok_iff.mp h).shorter

theorem here_congr (h : us.head? = ts.head?) : here us = here ts := by
  cases us <;> cases ts <;> simp_all [here]

theorem length_of_bareStatement {s : Stmt} (h : bareStatement.run ts = .ok s rest) :
    rest.length < ts.length :=
  (Reading.result_eq_ok_iff.mp h).shorter

theorem steady_of_calls {c c' : Task × List Token} (hextra : extra.kind = .semicolon)
    (hback : Unterminated back) (h : Calls c c') (hproper : AllProper c.2)
    (hc : Steady extra back c') : Steady extra back c := by
  cases h with
  | nextDeclaration first => exact ignores_nextDeclaration hproper first hc
  | topStatement plain =>
    exact ignores_declarations (.congr (.bind hc) fun us hus =>
      (run_takeIf_neg fun t ht => (plain t (hus ▸ ht)).1).trans
        (run_takeIf_neg fun t ht => (plain t (hus ▸ ht)).2))
  | markedBody marker type ident list =>
    refine ignores_declarations (.led (.bind (.bind ?_)) fun us => run_takeIf_pos marker)
    exact ignores_markedFunction hproper.tail.tail type ident list hc
  | typedBody type ident opening list =>
    refine ignores_declarations (.led (.bind ?_) fun us => run_declaration_typed type us)
    exact ignores_typedDeclaration hproper.tail ident opening list hc
  | blockBody opening => exact .led (.bind hc) fun us => run_takeIf_pos opening
  | firstStatement goesOn =>
    rw [Steady, statements_eq]
    exact .congr (.bind hc) fun us hus => if_neg (by simp [hus, goesOn])
  | nextStatement goesOn first =>
    rw [Steady, statements_eq]
    exact .congr (.after looksAhead_statement hproper first (.bind hc)) fun us hus =>
      if_neg (by simp [hus, goesOn])
  | caseBody label head colon =>
    rw [Steady, clauses_eq]
    refine .led (.after looksAhead_expression hproper.tail head ?_) fun us => run_takeIf_pos label
    exact .led (.bind hc) fun us => expect_bind colon _ us
  | nextCase label head colon inner =>
    have hts := hproper.tail
    have hus := hts.suffix (suffix_of_expression head)
    rw [Steady, clauses_eq]
    refine .led (.after looksAhead_expression hts head ?_) fun us => run_takeIf_pos label
    refine .led ?_ fun us => expect_bind colon _ us
    exact .after looksAhead_clauseStatements hus.tail inner (.bind hc)
  | defaultBody label colon =>
    refine .led ?_ fun us => run_clauses_default label us
    exact .led (.bind hc) fun us => expect_bind colon _ us
  | afterDefault label colon inner =>
    have hts := hproper.tail.tail
    refine .led ?_ fun us => run_clauses_default label us
    refine .led ?_ fun us => expect_bind colon _ us
    exact .after looksAhead_clauseStatements hts inner (.bind hc)
  | untilTerminator =>
    rcases hc with hignores | hleaves
    · exact .bind hignores
    · obtain ⟨s, hrun⟩ := hleaves.exists_run
      exact hleaves.ignores_terminated hextra hback (length_of_bareStatement hrun)
  | innerBlock opening =>
    exact .inl (.led (.bind (.bind hc)) (run_bareStatement_openBrace opening))
  | consequent word test =>
    have hts := hproper.tail
    exact .inl (.led (.after looksAhead_expression hts test (.bind hc)) fun us =>
      run_bareStatement_word word us)
  | alternative word test body word' plain =>
    have hts := hproper.tail
    exact .inl (ignores_alternative hts word test body word' (.congr hc fun us hus =>
      run_alternative_plain (hus ▸ plain)))
  | elseIf word test body word' nested =>
    have hts := hproper.tail
    rcases hc with hignores | hleaves
    · exact .inl (ignores_alternative hts word test body word' (hignores.congr fun us =>
        run_alternative_if nested))
    · obtain ⟨s, hrun⟩ := hleaves.exists_run
      have hshort := length_of_bareStatement hrun
      exact .inr (leaves_alternative hts word test body word' hshort (hleaves.congr hshort fun us =>
        run_alternative_if nested))
  | whileBody word test =>
    have hts := hproper.tail
    exact .inl (.led (.after looksAhead_expression hts test (.bind hc)) fun us =>
      run_bareStatement_word word us)
  | forBody word head =>
    have hts := hproper.tail
    exact .inl (.led (.after looksAhead_forHead hts head (.bind hc)) fun us =>
      run_bareStatement_word word us)
  | switchBody word value opening =>
    have hts := hproper.tail
    refine .inl (.led (.after looksAhead_expression hts value ?_) fun us =>
      run_bareStatement_word word us)
    exact .led (.bind hc) fun us => expect_bind opening _ us

theorem steady_of_reaches {c c' : Task × List Token} (hextra : extra.kind = .semicolon)
    (hback : Unterminated back) (h : Reaches c c') (hproper : AllProper c.2)
    (hc : Steady extra back c') : Steady extra back c := by
  induction h using Relation.ReflTransGen.head_induction_on with
  | refl => exact hc
  | head step _ ih =>
    exact steady_of_calls hextra hback step hproper
      (ih (hproper.suffix step.suffix))

end Steps

section Ends

variable (hextra : extra.kind = .semicolon) (hback : Unterminated back)

include hextra

theorem stops_terminator {tier : Tier} : Stops tier (extra :: back) :=
  stops_cons (by simp [hextra]) (by simp [hextra]) (by simp [hextra])

theorem leaves_expression {e : Expr} (hproper : AllProper ts)
    (h : expression.run ts = .ok e back) : Leaves extra back expression ts :=
  (predictive_expression _).leaves hproper h (stops_terminator hextra)

/-- A body leaves the terminator if it took one before; else the statement in it decides. -/
theorem ignores_or_leaves_statement {s : Stmt} (hback : Unterminated back) (hproper : AllProper ts)
    (h : statement.run ts = .ok s back)
    (hbare : bareStatement.run ts = .ok s back → Steady extra back (.bareStatement, ts)) :
    Ignores extra back statement.run ts ∨ Leaves extra back statement ts := by
  obtain ⟨middle, hrun, hskip⟩ := run_terminated_eq_ok_iff.mp h
  cases middle with
  | nil =>
    obtain rfl : [] = back := hskip
    exact .inl (steady_of_calls hextra hback .untilTerminator hproper (hbare hrun))
  | cons t rest =>
    by_cases ht : t.kind = .semicolon
    · obtain rfl : rest = back := by simpa [skipTerminator, ht] using hskip
      obtain ⟨used, rfl, settled⟩ := looksAhead_bareStatement ts s _ hproper hrun
      refine .inr ⟨used ++ [t], s, by simp, h, ?_⟩
      rw [List.append_assoc]
      exact run_terminated_eq_ok_iff.mpr ⟨_, settled _ rfl, by simp [skipTerminator, ht]⟩
    · obtain rfl : t :: rest = back := by simpa [skipTerminator, ht] using hskip
      exact .inl (steady_of_calls hextra hback .untilTerminator hproper (hbare hrun))

omit hextra in
/-- A statement that goes on as something that may end in front of `extra`. -/
theorem leaves_led {action : Action Stmt} {entry : List Token → Prop} {s : Stmt}
    (follow : List Token → Prop)
    (hled : ∀ us, bareStatement.run (t :: us) = action.run us)
    (hpredicts : Predictive (ts.length + 1) follow entry action) (hproper : AllProper (t :: ts))
    (h : bareStatement.run (t :: ts) = .ok s back) (hfollow : follow (extra :: back)) :
    Steady extra back (.bareStatement, t :: ts) :=
  .inr (.led (hpredicts.leaves hproper.tail ((hled ts).symm.trans h) hfollow) hled)

omit hextra in
/-- A loop ends where its body does. -/
theorem steady_loop {head : Action α} {v : α} {k : α → Stmt → Stmt}
    (hled : ∀ us, bareStatement.run (t :: us) =
      (do return k (← head) (← statement) : Action Stmt).run us)
    (hhead : LooksAhead head) (hproper : AllProper ts) (hrun : head.run ts = .ok v us)
    (hshort : back.length < us.length)
    (hbody : Ignores extra back statement.run us ∨ Leaves extra back statement us) :
    Steady extra back (.bareStatement, t :: ts) := by
  rcases hbody with hignores | hleaves
  · exact .inl (.led (.after hhead hproper hrun (.bind hignores)) hled)
  · exact .inr (.led (.after hhead hproper hrun hshort hleaves.map) hled)

include hback

/-- The end of a statement: an extra terminator there is left by it, or taken by the last of the
statements in it that end there. -/
theorem steady_bareStatement (n : Nat) : ∀ {ts : List Token} {s : Stmt}, ts.length < n →
    AllProper ts → bareStatement.run ts = .ok s back → Steady extra back (.bareStatement, ts) := by
  induction n with
  | zero => exact fun hlt => absurd hlt (Nat.not_lt_zero _)
  | succ n ih =>
    intro ts s hlt hproper h
    have hstatement {us : List Token} {s : Stmt} (hlt : us.length < n) (hproper : AllProper us)
        (h : statement.run us = .ok s back) :=
      ignores_or_leaves_statement hextra hback hproper h (ih hlt hproper)
    cases readsStatement_of_run h with
    | block opening inner closing =>
      exact leaves_led (fun _ => True) (run_bareStatement_openBrace opening)
        (predictive_openedBlock (predictive_bareStatement _)).map hproper h trivial
    | ifOnly word test body last =>
      have hts := hproper.tail
      have hshort := (suffix_of_expression test).length_le
      rw [List.length_cons] at hlt
      rcases hstatement (by omega) (hts.suffix (suffix_of_expression test)) body with
        hignores | hleaves
      · exact steady_of_calls hextra hback (.consequent word test) hproper hignores
      · refine .inr (.led (.after looksAhead_expression hts test (length_of_statement body)
          (hleaves.bind fun s => ?_)) fun us => run_bareStatement_word word us)
        refine ⟨_, run_takeIf_neg last, run_takeIf_neg ?_⟩
        simp [Token.isWord, hextra]
    | ifElse word test body word' branch =>
      have hts := hproper.tail
      have hshort := (suffix_of_expression test).length_le
      have hshort' := (suffix_of_statement body).length_le
      have hus := hts.suffix (suffix_of_expression test)
      have hvs := (hus.suffix (suffix_of_statement body)).tail
      rw [List.length_cons] at hlt hshort'
      rcases run_alternative_eq_ok branch with ⟨v, vs, rfl, nested, hother⟩ | ⟨plain, hother⟩
      · exact steady_of_calls hextra hback (.elseIf word test body word' nested) hproper
          (ih (by omega) hvs hother)
      rcases hstatement (by omega) hvs hother with hignores | hleaves
      · exact steady_of_calls hextra hback (.alternative word test body word' plain) hproper
          hignores
      · exact .inr (leaves_alternative hts word test body word' (length_of_statement hother)
          (hleaves.congr (length_of_statement hother) fun us hus =>
            run_alternative_plain (hus ▸ plain)))
    | whileLoop word test body =>
      have hts := hproper.tail
      have hshort := (suffix_of_expression test).length_le
      rw [List.length_cons] at hlt
      exact steady_loop (fun us => run_bareStatement_word word us) looksAhead_expression hts test
        (length_of_statement body)
        (hstatement (by omega) (hts.suffix (suffix_of_expression test)) body)
    | forLoop word head body =>
      have hts := hproper.tail
      have hshort := (suffix_of_forHead head).length_le
      rw [List.length_cons] at hlt
      exact steady_loop (fun us => run_bareStatement_word word us) looksAhead_forHead hts head
        (length_of_statement body)
        (hstatement (by omega) (hts.suffix (suffix_of_forHead head)) body)
    | switch word value opening inner closing =>
      exact leaves_led (fun _ => True) (fun us => run_bareStatement_word word us)
        (predictive_switch (predictive_bareStatement _) _) hproper h trivial
    | @returnsNothing t _ word ends =>
      have hleaves : Leaves extra back (returns t.position) back :=
        ⟨[], _, rfl, if_pos ends, if_pos (by simp [endsReturn, hextra])⟩
      exact .inr (hleaves.led fun us => run_bareStatement_word word us)
    | returns word goesOn value =>
      have hleaves := leaves_expression hextra hproper.tail value
      refine .inr (.led (hleaves.map.congr (length_of_expression value) fun us hus => if_neg ?_)
        fun us => run_bareStatement_word word us)
      simp [hus, goesOn]
    | breaks word =>
      exact leaves_led (fun _ => True) (fun us => run_bareStatement_word word us)
        (Predictive.pure fun _ => id) hproper h trivial
    | continues word =>
      exact leaves_led (fun _ => True) (fun us => run_bareStatement_word word us)
        (Predictive.pure fun _ => id) hproper h trivial
    | declare type whole =>
      exact leaves_led (Stops .assignment) (run_bareStatement_typeKeyword type)
        predictive_typedVariable.map hproper h (stops_terminator hextra)
    | expression plain whole =>
      have hleaves : Leaves extra back (do return Stmt.expression (← expression) (here ts)) ts :=
        (leaves_expression hextra hproper whole).map
      refine .inr (hleaves.congr (length_of_expression whole) fun us hus => ?_)
      rw [run_bareStatement_expression (hus ▸ plain), ← here_congr hus]
      rfl

theorem steady_of_readsTo {c : Task × List Token} {x : Stmt} (hproper : AllProper c.2)
    (h : ReadsTo c x back) : Steady extra back c := by
  obtain ⟨us, hreaches, hrun⟩ := h
  refine steady_of_reaches hextra hback hreaches hproper ?_
  exact steady_bareStatement hextra hback _ (Nat.lt_succ_self _)
    (hproper.suffix hreaches.suffix) hrun

/-- The end of a declaration. -/
theorem ignores_bareDeclaration {d : Declaration} (hproper : AllProper ts)
    (h : bareDeclaration.run ts = .ok d back) : Ignores extra back declarations ts := by
  have hdeclaration : declaration.run ts = .ok d back := by
    rw [declaration_eq]
    exact run_terminated_eq_ok_iff.mpr ⟨back, h, hback.skipTerminator⟩
  have hends (hleaves : Leaves extra back bareDeclaration ts) :
      Ignores extra back declarations ts := by
    refine ignores_declarations ?_
    rw [declaration_eq]
    exact hleaves.ignores_terminated hextra hback (length_of_declaration hdeclaration)
  have hstatement
      (plain : ∀ t ∈ ts.head?, ¬t.isWord .otherKeyword Vocabulary.functionMarker = true ∧
        t.kind ≠ .typeKeyword)
      (h : (do let s ← bareStatement; return .statement s : Action Declaration).run ts =
        .ok d back) : Ignores extra back declarations ts := by
    obtain ⟨s, hrun, -⟩ := run_map_eq_ok_iff.mp h
    exact steady_of_readsTo hextra hback (c := (.declarations, ts)) hproper
      ⟨ts, .head (.topStatement plain) (.single .untilTerminator), hrun⟩
  cases ts with
  | nil => exact hstatement nofun h
  | cons t ts =>
    have hts := hproper.tail
    by_cases marker : t.isWord .otherKeyword Vocabulary.functionMarker = true
    · have hled (us : List Token) : bareDeclaration.run (t :: us) =
          (do let f ← markedFunction; return .function f : Action Declaration).run us :=
        run_takeIf_pos marker
      have hfunction : Predictive (ts.length + 1) (fun _ => True) _ markedFunction :=
        predictive_markedFunction
      exact hends ((hfunction.map.leaves hts ((hled ts).symm.trans h) trivial).led hled)
    have hunmarked : ∀ us : List Token, ∀ u ∈ (t :: us).head?,
        ¬u.isWord .otherKeyword Vocabulary.functionMarker = true := by simpa using marker
    by_cases type : t.kind = .typeKeyword
    · have hled (us : List Token) : bareDeclaration.run (t :: us) = (typedDeclaration t).run us :=
        (run_takeIf_neg (hunmarked us)).trans (run_takeIf_pos type)
      exact hends (((predictive_typedDeclaration t).leaves hts ((hled ts).symm.trans h)
        (stops_terminator hextra)).led hled)
    · have huntyped : ∀ u ∈ (t :: ts).head?, ¬u.kind = .typeKeyword := by simpa using type
      refine hstatement (fun u hu => ⟨hunmarked ts u hu, huntyped u hu⟩) ?_
      rw [← h, bareDeclaration, run_takeIf_neg (hunmarked ts), run_takeIf_neg huntyped]

end Ends

end Action

open KanaScript.Grammar.Action

variable {tokens ts back : List Token} {program : Program}

/-- The statement is one of those read from the tokens, and ends right before the `i`th token. -/
def EndsStatement (ts : List Token) (x : Stmt) (i : Nat) : Prop :=
  i ≤ ts.length ∧ ReadsTo (.declarations, ts) x (ts.drop i)

/-- The declaration is one of those read from the tokens, and ends right before the `i`th token. -/
def EndsDeclaration (ts : List Token) (d : Declaration) (i : Nat) : Prop :=
  i ≤ ts.length ∧ DeclaresTo ts d (ts.drop i)

theorem exists_drop_of_suffix (h : back <:+ ts) : ∃ i ≤ ts.length, ts.drop i = back :=
  ⟨ts.length - back.length, Nat.sub_le .., (List.suffix_iff_eq_drop.mp h).symm⟩

theorem exists_ends (h : declarations ts = .ok program) : ∀ d ∈ program,
    (∃ i, EndsDeclaration ts d i) ∧ ∀ x ∈ d.innerStatements, ∃ i, EndsStatement ts x i := by
  intro d hd
  obtain ⟨⟨back, hback⟩, hinner⟩ := exists_declaresTo h d hd
  refine ⟨?_, fun x hx => ?_⟩
  · obtain ⟨i, hi, rfl⟩ := exists_drop_of_suffix hback.suffix
    exact ⟨i, hi, hback⟩
  · obtain ⟨back, hback⟩ := hinner x hx
    obtain ⟨i, hi, rfl⟩ := exists_drop_of_suffix hback.suffix
    exact ⟨i, hi, hback⟩

theorem declarations_insert {i : Nat} {extra : Token} (h : declarations ts = .ok program)
    (hi : (∃ d, EndsDeclaration ts d i) ∨ ∃ x, EndsStatement ts x i)
    (hextra : extra.kind = .semicolon) (hback : Unterminated (ts.drop i)) :
    declarations (ts.take i ++ extra :: ts.drop i) = .ok program := by
  have hproper : AllProper ts :=
    (derivesProgram_of_declarations _ (Nat.lt_succ_self _) h).allTaken.allProper
  have hignores : Ignores extra (ts.drop i) declarations ts := by
    rcases hi with ⟨d, -, us, hreaches, hrun⟩ | ⟨x, -, hx⟩
    · exact steady_of_reaches hextra hback hreaches hproper
        (ignores_bareDeclaration hextra hback (hproper.suffix hreaches.suffix) hrun)
    · exact steady_of_readsTo hextra hback hproper hx
  obtain ⟨front, -, hts, heq⟩ := hignores
  have hfront : ts.take i = front :=
    List.append_cancel_right ((List.take_append_drop i ts).trans hts)
  rw [hfront, heq, h]

theorem takeWhile_insert {p : Token → Bool} {extra : Token} (hextra : p extra = true) {i : Nat}
    (hi : i ≤ (ts.takeWhile p).length) : (ts.take i ++ extra :: ts.drop i).takeWhile p =
      (ts.takeWhile p).take i ++ extra :: (ts.takeWhile p).drop i := by
  induction ts generalizing i with
  | nil =>
    obtain rfl : i = 0 := by simpa using hi
    simp [hextra]
  | cons t ts ih =>
    cases i with
    | zero => simp [hextra]
    | succ i =>
      by_cases ht : p t = true
      · rw [List.takeWhile_cons_of_pos ht] at hi ⊢
        simp [ht, ih (Nat.le_of_succ_le_succ hi)]
      · simp [ht] at hi

/-- Terminators are optional: one more, right after any declaration of a program or any statement in
it, leaves the program as it is, unless a terminator stands there already. -/
theorem parse_insert_terminator (h : parse tokens = .ok program) :
    let read := tokens.takeWhile fun t => t.kind != .eof
    (∀ d ∈ program, (∃ i, EndsDeclaration read d i) ∧
      ∀ x ∈ d.innerStatements, ∃ i, EndsStatement read x i) ∧
    ∀ i, ((∃ d, EndsDeclaration read d i) ∨ ∃ x, EndsStatement read x i) →
      (∀ t ∈ tokens[i]?, t.kind ≠ .semicolon) → ∀ extra : Token, extra.kind = .semicolon →
        parse (tokens.take i ++ extra :: tokens.drop i) = .ok program := by
  intro read
  have hread : declarations read = .ok program := parse_eq_ok_iff.mp h
  refine ⟨exists_ends hread, fun i hi hnext extra hextra => parse_eq_ok_iff.mpr ?_⟩
  have hlength : i ≤ read.length := by
    rcases hi with ⟨d, hd, -⟩ | ⟨x, hx, -⟩
    · exact hd
    · exact hx
  rw [takeWhile_insert (by simp [hextra]) hlength]
  refine declarations_insert hread hi hextra fun t ht => hnext t ?_
  rw [List.head?_drop] at ht
  obtain ⟨hlt, rfl⟩ := List.getElem?_eq_some_iff.mp ht
  exact List.getElem?_eq_some_iff.mpr ⟨_, ((List.takeWhile_prefix _).getElem hlt).symm⟩

/-- In `if a b else c`, a terminator after `b` stays with the branch that it ends. -/
theorem parse_insert_terminator_branch :
    let word (text : String) (column : Nat) : Token :=
      ⟨.controlKeyword, .text text, ⟨1, column⟩⟩
    let name (text : String) (column : Nat) : Token := ⟨.identifier, .text text, ⟨1, column⟩⟩
    let read := [word "if" 1, name "ガ" 4, name "ギ" 6, word "else" 8, name "グ" 13]
    let ending : Token := ⟨.eof, .none, ⟨1, 14⟩⟩
    let branch : Stmt := .expression (.name "ギ" ⟨1, 6⟩) ⟨1, 6⟩
    let program : Program := [.statement (.ifElse (.name "ガ" ⟨1, 4⟩) branch
      (some (.expression (.name "グ" ⟨1, 13⟩) ⟨1, 13⟩)) ⟨1, 1⟩)]
    parse (read ++ [ending]) = .ok program ∧ EndsStatement read branch 3 ∧
      parse (read.take 3 ++ ⟨.semicolon, .text ";", ⟨1, 7⟩⟩ :: (read.drop 3 ++ [ending])) =
        .ok program := by
  intro word name read ending branch program
  have hparse : parse (read ++ [ending]) = .ok program := by cbv
  have htest : Action.expression.run (read.drop 1) = .ok (.name "ガ" ⟨1, 4⟩) (read.drop 2) := by cbv
  have hbranch : Action.bareStatement.run (read.drop 2) = .ok branch (read.drop 3) := by cbv
  have hplain : ∀ t ∈ read.head?, ¬t.isWord .otherKeyword Vocabulary.functionMarker = true ∧
      t.kind ≠ .typeKeyword := by
    intro t ht
    obtain rfl : word "if" 1 = t := Option.some.inj ht
    decide
  have hreaches : Reaches (.declarations, read) (.bareStatement, read.drop 2) :=
    .head (.topStatement hplain) (.head .untilTerminator (.head (.consequent (by decide) htest)
      (.single .untilTerminator)))
  have hends : EndsStatement read branch 3 := ⟨by decide, read.drop 2, hreaches, hbranch⟩
  refine ⟨hparse, hends, ?_⟩
  exact (parse_insert_terminator hparse).2 3 (.inr ⟨branch, hends⟩) (by decide) _ rfl

end KanaScript.Grammar
