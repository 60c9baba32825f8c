import KanaScript.Proofs.Grammar.Concatenation
import KanaScript.Proofs.Grammar.NameTokens
import KanaScript.Proofs.Token.Items
import KanaScript.Proofs.Tree.Listing

/-! The listing of a program that was read tells the program.  Its names come from tokens without
line ends, its types are those of the vocabulary, and it declares no variable as a statement at the
top level. -/

namespace KanaScript

open C (Unbroken)
open Vocabulary

section Names

/-- The kinds of tokens that can stand for names. -/
def nameKinds : List TokenKind := [.identifier, .otherKeyword, .controlKeyword]

theorem literalMarks_notName : ∀ marks ∈ literalMarks, marks.1 ∉ nameKinds := by decide

theorem brackets_notName : ∀ bracket ∈ brackets, bracket.kind ∉ nameKinds := by decide

theorem unbroken_spelling : ∀ table ∈ keywordTables, ∀ entry ∈ table.2, Unbroken entry.2 := by
  decide

/-- A token that can stand for a name carries a text without line ends. -/
theorem Lexeme.Spelled.unbroken_text {lexeme : Lexeme} {rest : List Char}
    (h : lexeme.Spelled rest) (hkind : lexeme.kind ∈ nameKinds) :
    Unbroken (lexeme.payload.text?.getD "") := by
  cases h with
  | punctuation h =>
    unfold punctuation? at h
    split at h <;> cases h <;> simp [nameKinds] at hkind
  | closed marks hbody => exact absurd hkind (literalMarks_notName _ marks)
  | unclosed marks hbody last => exact absurd hkind (literalMarks_notName _ marks)
  | bracket h => exact absurd hkind (brackets_notName _ (of_bracket?_eq_some h).1)
  | @word c cs kind payload hc run unbracketed meaning =>
    have hall : ∀ d ∈ c :: cs, Text.continuesWord d = true :=
      List.forall_mem_cons.mpr ⟨by simp [Text.continuesWord, hc], run.all⟩
    have hword : Unbroken (String.ofList (c :: cs)) :=
      C.unbroken_of_class (by rwa [String.toList_ofList]) (by decide)
    have hmeans := means_classify (String.ofList (c :: cs))
    rw [meaning] at hmeans
    cases hmeans with
    | @keyword _ _ spelling htable hentry =>
      show Unbroken (if spelling.isEmpty then _ else spelling)
      split
      · exact hword
      · exact unbroken_spelling _ htable _ hentry
    | operator hkeyword hentry => simp [nameKinds] at hkind
    | numeral hkeyword hoperator hvalue => simp [nameKinds] at hkind
    | name hkeyword hoperator hvalue => exact hword
  | @name c cs hc run =>
    have hname : ∀ d ∈ c :: cs, Text.continuesName d = true :=
      List.forall_mem_cons.mpr ⟨C.continuesName_of_startsName hc, run.all⟩
    have htext : Unbroken (String.ofList (c :: cs)) :=
      C.unbroken_of_class (by rwa [String.toList_ofList]) (by decide)
    exact htext
  | number hc run => simp [nameKinds] at hkind
  | unknown unmarked unquoted hkatakana hname hdigit => simp [nameKinds] at hkind

/-- The names among the tokens have no line ends. -/
def HasUnbrokenNames (ts : List Token) : Prop :=
  ∀ t ∈ ts, t.kind ∈ nameKinds → Unbroken t.text

theorem HasUnbrokenNames.mono {ts us : List Token} (h : HasUnbrokenNames ts) (hus : us ⊆ ts) :
    HasUnbrokenNames us := fun t ht => h t (hus ht)

theorem hasUnbrokenNames_tokenize (source : String) : HasUnbrokenNames (tokenize source) := by
  intro t ht hkind
  have hend : t.kind ≠ .eof := by
    intro heq
    rw [heq] at hkind
    exact absurd hkind (by decide)
  obtain ⟨_, _, _, -, -, hspelled⟩ := (scans_tokenize source).exists_spelled ht hend
  exact hspelled.unbroken_text hkind

end Names

namespace Grammar

section Texts

variable {ts : List Token}

theorem IsName.mem_nameKinds {t : Token} (h : IsName t) : t.kind ∈ nameKinds := by
  rcases h with h | h <;> simp [nameKinds, h]

theorem Derives.hasUnbrokenText {tier : Tier} {x : Expr} (h : Derives tier ts x)
    (names : HasUnbrokenNames ts) (known : x.hasKnownOperator = true) : x.HasUnbrokenText := by
  cases x with
  | binary op left right position =>
    obtain ⟨ops, hops, hop⟩ : ∃ ops ∈ binaryLevels, op ∈ ops := by
      simpa [Expr.hasKnownOperator] using known
    exact unbroken_operator (List.mem_cons_of_mem _ (List.mem_cons_of_mem _ hops)) hop
  | prefixed op operand position =>
    exact unbroken_operator List.mem_cons_self (List.contains_iff_mem.mp known)
  | suffixed op operand position =>
    exact unbroken_operator (List.mem_cons_of_mem _ List.mem_cons_self)
      (List.contains_iff_mem.mp known)
  | name text position =>
    obtain ⟨t, ht, hkind, rfl, -⟩ := h.exists_nameToken rfl
    exact names t ht (by simpa [nameKinds] using hkind)
  | _ => trivial

theorem DerivesVariable.unbroken_name {v : Variable} (h : DerivesVariable ts v)
    (names : HasUnbrokenNames ts) : Unbroken v.name := by
  obtain ⟨type, name, size, value⟩ := h
  exact names _ (by simp) name.mem_nameKinds

theorem DerivesParameter.unbroken_name {p : Parameter} (h : DerivesParameter ts p)
    (names : HasUnbrokenNames ts) : Unbroken p.name := by
  obtain ⟨type, name⟩ := h
  exact names _ (by simp) name.mem_nameKinds

theorem unbroken_knownType {v : Variable} (h : v.HasKnownType) : Unbroken v.typeName := by
  obtain ⟨type, htype, heq | heq⟩ := h
  · rw [heq]
    exact unbroken_type htype
  · rw [heq, C.unbroken_append]
    exact ⟨unbroken_type htype, by decide⟩

theorem DerivesStatement.hasUnbrokenTexts {s : Stmt} (h : DerivesStatement ts s)
    (names : HasUnbrokenNames ts) (known : s.HasKnownParts) : s.HasUnbrokenTexts := by
  refine ⟨fun e he x hx => ?_, fun v hv => ⟨unbroken_knownType (known.2 v hv), ?_⟩⟩
  · obtain ⟨us, hus, tier, hspan⟩ :=
      (h.expressions_within he).bind fun _ hexpression => hexpression.nodes_within x hx
    exact hspan.hasUnbrokenText (names.mono hus.subset) (known.1 e he x hx)
  · obtain ⟨us, hus, hspan⟩ := h.variables_within hv
    exact hspan.unbroken_name (names.mono hus.subset)

theorem DerivesDeclaration.hasUnbrokenTexts {d : Declaration} (h : DerivesDeclaration ts d)
    (names : HasUnbrokenNames ts) (known : d.HasKnownParts) : d.HasUnbrokenTexts := by
  refine ⟨?_, fun s hs => ?_⟩
  · rintro f rfl
    obtain ⟨htype, hparameters⟩ := known.1
    have hnames : Unbroken f.name ∧ ∀ p ∈ f.parameters, Within ts (DerivesParameter · p) := by
      cases h with
      | marked marker type name list inner =>
        exact ⟨names _ (by simp) name.mem_nameKinds,
          fun p hp => ((((list.within hp).left _).cons _).cons _).cons _⟩
      | typed type name list inner =>
        exact ⟨names _ (by simp) name.mem_nameKinds,
          fun p hp => (((list.within hp).left _).cons _).cons _⟩
    refine ⟨⟨unbroken_type htype, hnames.1⟩, fun p hp => ⟨unbroken_type (hparameters p hp), ?_⟩⟩
    obtain ⟨us, hus, hspan⟩ := hnames.2 p hp
    exact hspan.unbroken_name (names.mono hus.subset)
  · obtain ⟨us, hus, hspan⟩ := h.nodes_within hs
    exact hspan.hasUnbrokenTexts (names.mono hus.subset) (known.2 s hs)

end Texts

section Declarations

variable {n : Nat}

/-- A declaration that a type leads is a function or a variable of its own. -/
theorem Action.sound_typedDeclaration_global {t : Token} (ht : t.kind = .typeKeyword) :
    Action.Sound n (Action.typedDeclaration t) fun _ d => d.isLocal = false := by
  refine Action.sound_name.bind fun text a ha => ?_
  obtain ⟨u, rfl, rfl, hu⟩ := ha
  refine .takeIf (fun v hv => ?_) ?_
  · exact (Action.sound_openedParameters hv).bind fun _ _ _ =>
      Action.sound_block.bind fun _ _ _ => .pure rfl
  · exact (Action.sound_variableRest ht hu).bind fun _ _ _ => .pure rfl

/-- No variable is declared as a statement at the top level. -/
theorem isLocal_of_run {ts rest : List Token} {d : Declaration}
    (h : Action.declaration.run ts = .ok d rest) : d.isLocal = false := by
  cases ts with
  | nil => exact absurd (Action.length_of_declaration h) (Nat.not_lt_zero _)
  | cons t us =>
    rw [Action.declaration, Action.run_takeIf_cons] at h
    split at h
    · obtain ⟨f, middle, -, hf⟩ := Action.run_bind_eq_ok_iff.mp h
      cases hf
      rfl
    rw [Action.run_takeIf_cons] at h
    split at h
    · rename_i htype
      obtain ⟨_, -, _, _, -, hd, -⟩ := (Action.sound_typedDeclaration_global htype).terminated us d
        rest (Nat.lt_succ_self _) h
      exact hd
    · rename_i htype
      obtain ⟨s, middle, hs, hd⟩ := Action.run_bind_eq_ok_iff.mp h
      cases hd
      obtain ⟨_, htokens, a, b, rfl, hderives, -⟩ :=
        (Action.sound_bareStatement _).terminated (t :: us) s _ (Nat.lt_succ_self _) hs
      cases s with
      | declare v =>
        -- the first token would be the type of the variable
        cases hderives with
        | declare whole =>
          obtain ⟨type, name, size, value⟩ := whole
          exact absurd ((List.cons.inj htokens).1 ▸ type) htype
      | _ => rfl

theorem isLocal_of_declarations {program : Program} : ∀ {ts : List Token},
    declarations ts = .ok program → ∀ d ∈ program, d.isLocal = false := by
  induction program with
  | nil => exact fun _ => List.forall_mem_nil _
  | cons d program ih =>
    intro ts h
    obtain ⟨us, hrun, hothers⟩ := exists_of_declarations_cons h
    exact List.forall_mem_cons.mpr ⟨isLocal_of_run hrun, ih hothers⟩

end Declarations

end Grammar

open Grammar

/-- Types of the vocabulary have no blanks. -/
theorem blank_not_mem_type : ∀ type ∈ typeSpellings, ' ' ∉ type.toList := by decide

theorem Variable.blank_not_mem_typeName {v : Variable} (h : v.HasKnownType) :
    ' ' ∉ v.typeName.toList := by
  obtain ⟨type, htype, heq | heq⟩ := h
  · rw [heq]
    exact blank_not_mem_type type htype
  · rw [heq, String.toList_append, List.mem_append, not_or]
    exact ⟨blank_not_mem_type type htype, by decide⟩

/-- The program has no double, and each `for` has all its clauses or the condition alone. -/
def Program.IsListable (program : Program) : Prop :=
  ∀ s ∈ program.statements, (∀ e ∈ s.expressions, e.IsDiscrete) ∧ s.HasWholeHead

section Read

variable {source : String} {program : Program}

theorem isListable_of_parse (parsed : parse (tokenize source) = .ok program)
    (h : program.IsListable) : ∀ d ∈ program, d.IsListable := by
  intro d hd
  have known := hasKnownParts_of_parse (hasKnownTypes_tokenize _) parsed d hd
  refine ⟨?_, fun s hs => ?_, isLocal_of_declarations (parse_eq_ok_iff.mp parsed) d hd⟩
  · rintro f rfl
    exact ⟨blank_not_mem_type _ known.1.1, fun p hp => blank_not_mem_type _ (known.1.2 p hp)⟩
  · obtain ⟨discrete, head⟩ := h s (List.mem_flatMap.mpr ⟨d, hd, hs⟩)
    exact ⟨discrete, fun v hv => Variable.blank_not_mem_typeName ((known.2 s hs).2 v hv), head⟩

theorem hasUnbrokenTexts_of_parse (parsed : parse (tokenize source) = .ok program) :
    ∀ d ∈ program, d.HasUnbrokenTexts := by
  intro d hd
  have known := hasKnownParts_of_parse (hasKnownTypes_tokenize _) parsed d hd
  obtain ⟨us, hus, hspan⟩ := (derivesProgram_of_declarations _ (Nat.lt_succ_self _)
    (parse_eq_ok_iff.mp parsed)).within hd
  refine hspan.hasUnbrokenTexts ((hasUnbrokenNames_tokenize source).mono ?_) known
  exact fun t ht => (List.takeWhile_sublist _).subset (hus.subset ht)

end Read

/-- Programs that were read and have the same listing are the same but for the places of their
nodes. -/
theorem unplaced_eq_of_read_listingText {source other : String} {p q : Program}
    (hp : parse (tokenize source) = .ok p) (hq : parse (tokenize other) = .ok q)
    (listable : p.IsListable) (listable' : q.IsListable) (h : p.listingText = q.listingText) :
    p.unplaced = q.unplaced :=
  Program.unplaced_eq_of_listingText (isListable_of_parse hp listable)
    (isListable_of_parse hq listable') (hasUnbrokenTexts_of_parse hp)
    (hasUnbrokenTexts_of_parse hq) h

/-- The same loop with and without a line feed behind its keyword. -/
theorem unplaced_eq_of_read_listingText_moved : ∃ p q,
    parse (tokenize "ブシバゲギ (ゲギグウ ガ、ギ、「\n」) ガ") = .ok p ∧
      parse (tokenize "ブシバゲギ\n(ゲギグウ ガ、ギ、「\n」)ガ。") = .ok q ∧
      p ≠ q ∧ p.listingText = q.listingText ∧ p.unplaced = q.unplaced := by
  have hp : parse (tokenize "ブシバゲギ (ゲギグウ ガ、ギ、「\n」) ガ") = .ok [.statement (.forLoop
      (some (.declare ⟨"int", "ガ", none, ⟨1, 8⟩⟩)) (some (.name "0" ⟨1, 15⟩))
      (some (.string "\n" ⟨1, 17⟩)) (.expression (.name "ガ" ⟨2, 4⟩) ⟨2, 4⟩) ⟨1, 1⟩)] := by cbv
  have hq : parse (tokenize "ブシバゲギ\n(ゲギグウ ガ、ギ、「\n」)ガ。") = .ok [.statement (.forLoop
      (some (.declare ⟨"int", "ガ", none, ⟨2, 2⟩⟩)) (some (.name "0" ⟨2, 9⟩))
      (some (.string "\n" ⟨2, 11⟩)) (.expression (.name "ガ" ⟨3, 3⟩) ⟨3, 3⟩) ⟨1, 1⟩)] := by cbv
  have listable : ∀ a b c d e f : Position, Program.IsListable [.statement (.forLoop
      (some (.declare ⟨"int", "ガ", none, a⟩)) (some (.name "0" b)) (some (.string "\n" c))
      (.expression (.name "ガ" d) e) f)] := by
    simp [Program.IsListable, Program.statements, Declaration.nodes, Stmt.nodes, Stmt.expressions,
      Stmt.HasWholeHead, ForInit.expressions, Expr.IsDiscrete, Expr.nodes]
  refine ⟨_, _, hp, hq, by simp, rfl, ?_⟩
  exact unplaced_eq_of_read_listingText hp hq (listable _ _ _ _ _ _) (listable _ _ _ _ _ _) rfl

end KanaScript
