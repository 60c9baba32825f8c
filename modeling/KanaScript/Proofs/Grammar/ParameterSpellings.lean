import KanaScript.Proofs.Grammar.Concatenation
import KanaScript.Proofs.Grammar.TakenTokens

/-! The spellings of a function.  The parameters of a marked function stand in parentheses or bare,
and without the marker they stand in parentheses; the function that is read is the same.  Only bare
parameters of which the first has the type `void` are not read, since `void` alone ends them. -/

namespace KanaScript.Grammar

namespace Action

section Parameters

variable {ts rest : List Token} {p : Parameter} {ps : List Parameter}

theorem run_name {t : Token} (h : IsName t) (rest : List Token) :
    name.run (t :: rest) = .ok t.text rest :=
  run_takeIf_pos h

theorem run_parameter (h : DerivesParameter ts p) (rest : List Token) :
    parameter.run (ts ++ rest) = .ok p rest := by
  obtain ⟨type, ident⟩ := h
  exact (run_takeIf_pos type).trans (bind_of_ok (run_name ident rest))

/-- No comma follows. -/
def Unlisted (after : List Token) : Prop := ∀ t ∈ after.head?, t.kind ≠ .comma

theorem unlisted_cons {t : Token} (h : t.kind ≠ .comma) : Unlisted (t :: rest) := by
  simpa [Unlisted] using h

theorem run_parameterList (h : DerivesParameters ts ps) (hrest : Unlisted rest) :
    parameterList.run (ts ++ rest) = .ok ps rest := by
  induction h with
  | last only =>
    rw [parameterList_eq, bind_of_ok (run_parameter only rest), run_takeIf_neg hrest]
    rfl
  | more first comma others ih =>
    rw [parameterList_eq, List.append_assoc, bind_of_ok (run_parameter first _), List.cons_append,
      run_takeIf_pos comma, bind_of_ok ih]
    rfl

/-- Parameters start with a type and a name. -/
theorem exists_cons_of_derivesParameters (h : DerivesParameters ts ps) :
    ∃ t u us, ts = t :: u :: us ∧ t.kind = .typeKeyword ∧ IsName u ∧
      ∃ p ∈ ps.head?, p.typeName = t.text := by
  cases h with
  | last only =>
    obtain ⟨type, ident⟩ := only
    exact ⟨_, _, _, rfl, type, ident, by simp⟩
  | more first comma others =>
    obtain ⟨type, ident⟩ := first
    exact ⟨_, _, _, rfl, type, ident, by simp⟩

/-- The parenthesis after a name is not that of `void` alone. -/
theorem run_openedParameters {t : Token} (h : DerivesParameters ts ps) (ht : t.kind = .closeParen)
    (rest : List Token) : openedParameters.run (ts ++ t :: rest) = .ok ps rest := by
  have hlist : closedParameters.run (ts ++ t :: rest) = .ok ps rest := by
    have hrest : Unlisted (t :: rest) := unlisted_cons (by simp [ht])
    have hparameters := run_parameterList h hrest
    exact (bind_of_ok hparameters).trans (bind_of_ok (run_expect_eq_ok_iff.mpr ⟨rfl, ht⟩))
  obtain ⟨type, ident, us, rfl, htype, hident, -⟩ := exists_cons_of_derivesParameters h
  have hvoid : ¬isVoidClose (type :: ident :: (us ++ t :: rest)) = true := by
    rcases hident with hk | hk <;> simp [isVoidClose, hk]
  exact (run_takeIf_neg (by simp [htype])).trans ((if_neg hvoid).trans hlist)

theorem run_bareParameters_cons {t : Token} (ht : t.kind = .typeKeyword) (rest : List Token) :
    bareParameters.run (t :: rest) = (typedParameters t).run rest := by
  rw [bareParameters_eq]
  exact run_takeIf_pos ht

theorem run_typedParameters_cons {t u : Token} (hu : IsName u) (rest : List Token) :
    (typedParameters t).run (u :: rest) =
      (takeIf (·.kind = .comma) (fun _ => do
        let ps ← bareParameters
        return ⟨t.text, u.text, t.position⟩ :: ps) (pure [⟨t.text, u.text, t.position⟩])).run
          rest := by
  have hbrace : ¬((u :: rest).head?.any (·.kind = .openBrace)) = true := by
    rcases hu with hk | hk <;> simp [hk]
  exact (if_neg hbrace).trans (bind_of_ok (run_name hu rest))

theorem run_bareParameters (h : DerivesParameters ts ps) (hrest : Unlisted rest) :
    bareParameters.run (ts ++ rest) = .ok ps rest := by
  induction h with
  | last only =>
    obtain ⟨type, ident⟩ := only
    exact (run_bareParameters_cons type _).trans ((run_typedParameters_cons ident rest).trans
      (run_takeIf_neg hrest))
  | more first comma others ih =>
    obtain ⟨type, ident⟩ := first
    rw [List.append_assoc]
    exact (run_bareParameters_cons type _).trans ((run_typedParameters_cons ident _).trans
      ((run_takeIf_pos comma).trans (bind_of_ok ih)))

theorem isWord_void_iff {t : Token} (ht : t.kind = .typeKeyword) :
    t.isWord .typeKeyword "void" = true ↔ t.text = "void" := by
  obtain ⟨kind, payload, position⟩ := t
  cases payload <;> simp_all [Token.isWord, Token.text, Payload.text?]

theorem run_markedParameters_bare (h : DerivesParameters ts ps) (hrest : Unlisted rest)
    (hvoid : ∀ p ∈ ps.head?, p.typeName ≠ "void") :
    markedParameters.run (ts ++ rest) = .ok ps rest := by
  have hbare := run_bareParameters h hrest
  obtain ⟨type, ident, us, rfl, htype, hident, p, hp, hfirst⟩ := exists_cons_of_derivesParameters h
  have hword : ¬type.isWord .typeKeyword "void" = true :=
    fun hword => hvoid p hp (hfirst.trans ((isWord_void_iff htype).mp hword))
  refine (run_takeIf_neg (by simp [htype])).trans ((run_takeIf_neg (by simpa using hword)).trans ?_)
  exact (run_takeIf_pos htype).trans ((run_bareParameters_cons htype _).symm.trans hbare)

/-- In front, `void` is taken alone. -/
theorem run_markedParameters_void (h : DerivesParameters ts ps)
    (hvoid : ∃ p ∈ ps.head?, p.typeName = "void") (rest : List Token) : ∃ u us, IsName u ∧
      markedParameters.run (ts ++ rest) = .ok [] (u :: us) := by
  obtain ⟨p, hp, hpvoid⟩ := hvoid
  obtain ⟨type, ident, us, rfl, htype, hident, q, hq, hfirst⟩ := exists_cons_of_derivesParameters h
  obtain rfl : p = q := Option.mem_unique hp hq
  have hword := (isWord_void_iff htype).mpr (hfirst.symm.trans hpvoid)
  exact ⟨ident, us ++ rest, hident, (run_takeIf_neg (by simp [htype])).trans (run_takeIf_pos hword)⟩

end Parameters

section Functions

variable {m t u : Token} {ts body : List Token} {ps : List Parameter} {b : Block}

theorem derivesBlock_of_body (h : (Grammar.body body).Yields b []) : DerivesBlock body b := by
  have hrun : block.run body = .ok b [] := result_block.symm.trans (Reading.result_eq_ok_iff.mpr h)
  obtain ⟨used, hused, hd⟩ := sound_block body b [] (Nat.lt_succ_self _) hrun
  rwa [hused, List.append_nil]

theorem run_block (h : (Grammar.body body).Yields b []) : block.run body = .ok b [] :=
  result_block.symm.trans (Reading.result_eq_ok_iff.mpr h)

theorem unlisted_of_derivesBlock (h : DerivesBlock body b) : Unlisted body := by
  obtain ⟨opening, inner, closing⟩ := h
  exact unlisted_cons (by simp [opening])

theorem run_declaration_marked (marker : m.isWord .otherKeyword Vocabulary.functionMarker = true)
    (type : t.kind = .typeKeyword) (ident : IsName u)
    (list : markedParameters.run ts = .ok ps body) (inner : block.run body = .ok b []) :
    declaration.run (m :: t :: u :: ts) =
      .ok (.function ⟨t.text, u.text, ps, b, t.position⟩) [] := by
  have hfunction : markedFunction.run (t :: u :: ts) =
      .ok ⟨t.text, u.text, ps, b, t.position⟩ [] :=
    (run_takeIf_pos type).trans ((bind_of_ok (run_name ident ts)).trans
      ((bind_of_ok list).trans (bind_of_ok inner)))
  exact (run_takeIf_pos marker).trans (bind_of_ok (run_terminated_eq_ok_iff.mpr
    ⟨[], hfunction, rfl⟩))

theorem run_declaration_void (marker : m.isWord .otherKeyword Vocabulary.functionMarker = true)
    (type : t.kind = .typeKeyword) (ident : IsName u) (list : DerivesParameters ts ps)
    (hvoid : ∃ p ∈ ps.head?, p.typeName = "void") (body : List Token) :
    ∃ problem rest, declaration.run (m :: t :: u :: (ts ++ body)) = .error problem rest := by
  obtain ⟨v, vs, hv, hlist⟩ := run_markedParameters_void list hvoid body
  have hblock : block.run (v :: vs) = .error (.expected .blockOpen) (v :: vs) := by
    refine run_takeIf_neg ?_
    rcases hv with hk | hk <;> simp [hk]
  have hfunction : markedFunction.run (t :: u :: (ts ++ body)) =
      .error (.expected .blockOpen) (v :: vs) :=
    (run_takeIf_pos type).trans ((bind_of_ok (run_name ident _)).trans
      ((bind_of_ok hlist).trans (bind_of_error hblock)))
  exact ⟨_, _, (run_takeIf_pos marker).trans (bind_of_error (bind_of_error hfunction))⟩

theorem run_declaration_opened {o : Token} (type : t.kind = .typeKeyword) (ident : IsName u)
    (opening : o.kind = .openParen) (list : openedParameters.run ts = .ok ps body)
    (inner : block.run body = .ok b []) : declaration.run (t :: u :: o :: ts) =
      .ok (.function ⟨t.text, u.text, ps, b, t.position⟩) [] := by
  have htyped : (typedDeclaration t).run (u :: o :: ts) =
      .ok (.function ⟨t.text, u.text, ps, b, t.position⟩) [] :=
    (bind_of_ok (run_name ident _)).trans ((run_takeIf_pos opening).trans
      ((bind_of_ok list).trans (bind_of_ok inner)))
  rw [run_declaration_typed type]
  exact run_terminated_eq_ok_iff.mpr ⟨[], htyped, rfl⟩

end Functions

end Action

open KanaScript.Grammar.Action

variable {ts ending : List Token} {d : Declaration}

theorem takeWhile_taken (h : AllTaken ts) (hending : ∀ t ∈ ending.head?, t.kind = .eof) :
    (ts ++ ending).takeWhile (fun t => t.kind != .eof) = ts := by
  rw [List.takeWhile_append_of_pos fun t ht => by simpa using (h t ht).2]
  cases ending with
  | nil => simp
  | cons t us => simp [hending t rfl]

theorem parse_eq_singleton_iff (h : AllTaken ts) (hending : ∀ t ∈ ending.head?, t.kind = .eof) :
    parse (ts ++ ending) = .ok [d] ↔ Action.declaration.run ts = .ok d [] := by
  rw [parse_eq_ok_iff, takeWhile_taken h hending]
  constructor
  · intro hread
    obtain ⟨rest, hrun, hrest⟩ := exists_of_declarations_cons hread
    rwa [eq_nil_of_declarations hrest] at hrun
  · intro hrun
    rw [declarations_of_ok hrun, declarations_eq]
    rfl

/-- The three spellings of a function with parameters.  In parentheses, with or without the marker,
the parameters are always read; bare ones are read unless the first has the type `void`. -/
theorem parse_parameterSpellings {marker type name opening closing : Token}
    {list body ending : List Token} {ps : List Parameter} {b : Block}
    (hmarker : marker.isWord .otherKeyword Vocabulary.functionMarker = true)
    (htype : type.kind = .typeKeyword) (hname : IsName name) (hopening : opening.kind = .openParen)
    (hclosing : closing.kind = .closeParen) (hlist : DerivesParameters list ps)
    (hbody : (Grammar.body body).Yields b []) (hending : ∀ t ∈ ending.head?, t.kind = .eof) :
    let f : Function := ⟨type.text, name.text, ps, b, type.position⟩
    parse (marker :: type :: name :: opening :: (list ++ closing :: body) ++ ending) =
        .ok [.function f] ∧
      parse (type :: name :: opening :: (list ++ closing :: body) ++ ending) = .ok [.function f] ∧
      (parse (marker :: type :: name :: (list ++ body) ++ ending) = .ok [.function f] ↔
        ∀ p ∈ ps.head?, p.typeName ≠ "void") := by
  intro f
  have hblock := derivesBlock_of_body hbody
  have hopened : openedParameters.run (list ++ closing :: body) = .ok ps body :=
    run_openedParameters hlist hclosing body
  have hgroup : DerivesGroup (opening :: (list ++ [closing])) ps := .list hopening hlist hclosing
  have htokens : AllTaken (marker :: type :: name :: opening :: (list ++ closing :: body)) := by
    simpa using (DerivesDeclaration.marked hmarker htype hname (.group hgroup) hblock).allTaken
  refine ⟨?_, ?_, ?_⟩
  · rw [parse_eq_singleton_iff htokens hending]
    exact run_declaration_marked hmarker htype hname
      ((run_takeIf_pos hopening).trans hopened) (run_block hbody)
  · rw [parse_eq_singleton_iff (allTaken_cons.mp htokens).2 hending]
    exact run_declaration_opened htype hname hopening hopened (run_block hbody)
  · have hbare : AllTaken (marker :: type :: name :: (list ++ body)) := by
      simp only [allTaken_cons, allTaken_append] at htokens ⊢
      obtain ⟨hm, ht, hn, -, hl, -, hb⟩ := htokens
      exact ⟨hm, ht, hn, hl, hb⟩
    rw [parse_eq_singleton_iff hbare hending]
    refine ⟨fun hrun p hp hvoid => ?_, fun hvoid => ?_⟩
    · obtain ⟨problem, rest, hfails⟩ :=
        run_declaration_void hmarker htype hname hlist ⟨p, hp, hvoid⟩ body
      cases hrun.symm.trans hfails
    · exact run_declaration_marked hmarker htype hname
        (run_markedParameters_bare hlist (unlisted_of_derivesBlock hblock) hvoid) (run_block hbody)

/-- `int f(int a, void b) { }`, and bare parameters of which the second has the type `void`. -/
theorem parse_parameterSpellings_two :
    let word (kind : TokenKind) (text : String) (column : Nat) : Token :=
      ⟨kind, .text text, ⟨1, column⟩⟩
    let marker := word .otherKeyword Vocabulary.functionMarker 1
    let type := word .typeKeyword "int" 2
    let name := word .identifier "ガ" 3
    let opening := word .openParen "(" 4
    let closing := word .closeParen ")" 10
    let list := [word .typeKeyword "int" 5, word .identifier "ギ" 6, word .comma "," 7,
      word .typeKeyword "void" 8, word .identifier "グ" 9]
    let body := [word .openBrace "\x7b" 11, word .closeBrace "\x7d" 12]
    let f : Function := ⟨"int", "ガ", [⟨"int", "ギ", ⟨1, 5⟩⟩, ⟨"void", "グ", ⟨1, 8⟩⟩],
      ⟨[], ⟨1, 11⟩⟩, ⟨1, 2⟩⟩
    DerivesParameters list f.parameters ∧ (Grammar.body body).Yields f.body [] ∧
      parse (marker :: type :: name :: opening :: (list ++ closing :: body) ++ []) =
        .ok [.function f] ∧
      parse (type :: name :: opening :: (list ++ closing :: body) ++ []) = .ok [.function f] ∧
      parse (marker :: type :: name :: (list ++ body) ++ []) = .ok [.function f] := by
  intro word marker type name opening closing list body f
  have hlist : DerivesParameters list [⟨"int", "ギ", ⟨1, 5⟩⟩, ⟨"void", "グ", ⟨1, 8⟩⟩] :=
    .more (.intro rfl (.inl rfl)) rfl (.last (.intro rfl (.inl rfl)))
  have hbody : (Grammar.body body).Yields ⟨[], ⟨1, 11⟩⟩ [] := by
    rw [← Reading.result_eq_ok_iff]
    cbv
  have hspellings := @parse_parameterSpellings marker type name opening closing list body [] _ _
    (by decide) rfl (.inl rfl) rfl rfl hlist hbody (by simp)
  exact ⟨hlist, hbody, hspellings.1, hspellings.2.1, hspellings.2.2.mpr (by simp)⟩

end KanaScript.Grammar
