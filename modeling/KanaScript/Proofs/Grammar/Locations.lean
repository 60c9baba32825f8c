import KanaScript.Proofs.Grammar.Spans

/-! Where the nodes of a program are located: at the first of the tokens that they are derived from.
For an expression the parentheses in front of it do not count, and for a marked function the marker
does not. -/

namespace KanaScript

def Clause.position : Clause → Position
  | case _ _ position => position

namespace Grammar

/-- The first token stands at the position. -/
def Begins (ts : List Token) (position : Position) : Prop :=
  ts.head?.map Token.position = some position

/-- The first token that opens no parenthesis stands at the position. -/
def BeginsInside (ts : List Token) (position : Position) : Prop :=
  (ts.find? fun t => t.kind != .openParen).map Token.position = some position

section Tokens

variable {ts : List Token} {position : Position}

theorem begins_cons (t : Token) : Begins (t :: ts) t.position := rfl

theorem beginsInside_cons {t : Token} (h : t.kind ≠ .openParen) :
    BeginsInside (t :: ts) t.position := by
  simp [BeginsInside, h]

theorem BeginsInside.append (h : BeginsInside ts position) (us : List Token) :
    BeginsInside (ts ++ us) position := by
  obtain ⟨t, ht, hposition⟩ := Option.map_eq_some_iff.mp h
  simp [BeginsInside, List.find?_append, ht, hposition]

theorem BeginsInside.opened {t : Token} (h : BeginsInside ts position) (ht : t.kind = .openParen) :
    BeginsInside (t :: ts) position := by
  rwa [BeginsInside, List.find?_cons_of_neg (by simp [ht])]

end Tokens

/-- An expression is located at the first token that opens no parenthesis. -/
theorem Derives.beginsInside : ∀ {tier : Tier} {ts : List Token} {e : Expr}, Derives tier ts e →
    BeginsInside ts e.position
  | _, _, _, .group opening inner _ => (inner.beginsInside.append _).opened opening
  | _, _, _, .assign left _ _ => left.beginsInside.append _
  | _, _, _, .unassigned whole => whole.beginsInside
  | _, _, _, .operate first _ _ => first.beginsInside.append _
  | _, _, _, .tighter whole => whole.beginsInside
  | _, _, _, .operand whole => whole.beginsInside
  | _, _, _, .before sign _ => beginsInside_cons (by simp [(isOperator_iff.mp sign).1])
  | _, _, _, .unprefixed whole => whole.beginsInside
  | _, _, _, .call function _ _ _ => function.beginsInside.append _
  | _, _, _, .index indexed _ _ _ => indexed.beginsInside.append _
  | _, _, _, .after whole _ => whole.beginsInside.append _
  | _, _, _, .unsuffixed whole => whole.beginsInside
  | _, _, _, .number kind _ => beginsInside_cons (by simp [kind])
  | _, _, _, .string kind => beginsInside_cons (by simp [kind])
  | _, _, _, .char kind => beginsInside_cons (by simp [kind])
  | _, _, _, .name kind => beginsInside_cons (by rcases kind with h | h | h <;> simp [h])

section Statements

variable {ts : List Token} {s : Stmt} {v : Variable} {p : Parameter}

theorem DerivesVariable.begins (h : DerivesVariable ts v) : Begins ts v.position := by
  obtain ⟨type, name, size, value⟩ := h
  exact begins_cons _

theorem DerivesBlock.begins {b : Block} (h : DerivesBlock ts b) : Begins ts b.position := by
  obtain ⟨opening, inner, closing⟩ := h
  exact begins_cons _

/-- A statement is located at its first token. -/
theorem DerivesStatement.begins (h : DerivesStatement ts s) : Begins ts s.position := by
  cases h with
  | block whole => exact whole.begins
  | declare whole => exact whole.begins
  | expression whole =>
    obtain ⟨t, us, rfl, -⟩ := whole.starts
    exact begins_cons t
  | _ => exact begins_cons _

theorem DerivesClauses.begins {x : Clause} (h : DerivesClauses ts [x] Option.none) :
    Begins ts x.position := by
  cases h with
  | case word label colon inner others => exact begins_cons _

theorem DerivesParameter.begins (h : DerivesParameter ts p) : Begins ts p.position := by
  obtain ⟨type, name⟩ := h
  exact begins_cons _

end Statements

end Grammar

open Grammar

/-- The expression is derived from the tokens, and every node of it from some of them, of which the
first that opens no parenthesis is where the node is located. -/
def Expr.LocatedIn (e : Expr) (ts : List Token) : Prop :=
  Derives .assignment ts e ∧ ∀ x ∈ e.nodes, Within ts fun us =>
    (∃ tier, Derives tier us x) ∧ BeginsInside us x.position

/-- The statement is derived from the tokens and located at the first.  So are the variables that it
declares and its clauses, each at the first of its own. -/
structure Stmt.LocatedIn (s : Stmt) (ts : List Token) : Prop where
  derived : DerivesStatement ts s
  begins : Begins ts s.position
  expressions : ∀ e ∈ s.expressions, Within ts e.LocatedIn
  declared : ∀ v ∈ s.variables, Within ts fun us => DerivesVariable us v ∧ Begins us v.position
  clauses : ∀ x ∈ s.clauses, Within ts fun us => DerivesClauses us [x] none ∧ Begins us x.position

/-- The function is located at the first of its tokens, or after it if that is the marker. -/
structure Function.LocatedIn (f : Function) (ts : List Token) : Prop where
  begins : ∃ t us, ts = t :: us ∧
    (t.isWord .otherKeyword Vocabulary.functionMarker = true ∧ Begins us f.position ∨
      t.kind = .typeKeyword ∧ Begins ts f.position)
  parameters : ∀ p ∈ f.parameters, Within ts fun us => DerivesParameter us p ∧ Begins us p.position
  body : Within ts fun us => DerivesBlock us f.body ∧ Begins us f.body.position

/-- The declaration is located at the first of its tokens, or after it if that is the marker of a
function. -/
structure Declaration.LocatedIn (d : Declaration) (ts : List Token) : Prop where
  derived : DerivesDeclaration ts d
  begins : ∃ us, (ts = us ∨
      ∃ t : Token, t.isWord .otherKeyword Vocabulary.functionMarker = true ∧ ts = t :: us) ∧
    Begins us d.position
  function : ∀ f, d = .function f → f.LocatedIn ts
  statements : ∀ s ∈ d.nodes, Within ts s.LocatedIn

structure Program.LocatedIn (program : Program) (ts : List Token) : Prop where
  derived : DerivesProgram ts program
  declarations : ∀ d ∈ (program : List Declaration), Within ts d.LocatedIn

section Located

variable {ts : List Token}

theorem Expr.locatedIn {e : Expr} (h : Derives .assignment ts e) : e.LocatedIn ts := by
  refine ⟨h, fun x hx => (h.nodes_within x hx).imp ?_⟩
  rintro us ⟨tier, hus⟩
  exact ⟨⟨tier, hus⟩, hus.beginsInside⟩

theorem Stmt.locatedIn {s : Stmt} (h : DerivesStatement ts s) : s.LocatedIn ts where
  derived := h
  begins := h.begins
  expressions _ he := (h.expressions_within he).imp fun _ => Expr.locatedIn
  declared _ hv := (h.variables_within hv).imp fun _ hus => ⟨hus, hus.begins⟩
  clauses _ hx := (h.clauses_within hx).imp fun _ hus => ⟨hus, hus.begins⟩

theorem Function.locatedIn {f : Function} (h : DerivesDeclaration ts (.function f)) :
    f.LocatedIn ts where
  begins := by
    cases h with
    | marked marker type name list inner =>
      exact ⟨_, _, rfl, .inl ⟨marker, begins_cons _⟩⟩
    | typed type name list inner => exact ⟨_, _, rfl, .inr ⟨type, begins_cons _⟩⟩
  parameters p hp := by
    suffices hderived : Within ts (DerivesParameter · p) from
      hderived.imp fun _ hus => ⟨hus, hus.begins⟩
    cases h with
    | marked marker type name list inner =>
      exact ((((list.within hp).left _).cons _).cons _).cons _
    | typed type name list inner => exact (((list.within hp).left _).cons _).cons _
  body := by
    suffices hderived : Within ts (DerivesBlock · f.body) from
      hderived.imp fun _ hus => ⟨hus, hus.begins⟩
    cases h with
    | marked marker type name list inner =>
      exact ((((Within.self inner).right _).cons _).cons _).cons _
    | typed type name list inner => exact (((Within.self inner).right _).cons _).cons _

theorem Declaration.locatedIn {d : Declaration} (h : DerivesDeclaration ts d) :
    d.LocatedIn ts where
  derived := h
  begins := by
    cases h with
    | marked marker type name list inner => exact ⟨_, .inr ⟨_, marker, rfl⟩, begins_cons _⟩
    | typed type name list inner => exact ⟨_, .inl rfl, begins_cons _⟩
    | global whole => exact ⟨_, .inl rfl, whole.begins⟩
    | statement whole => exact ⟨_, .inl rfl, whole.begins⟩
  function _ hf := Function.locatedIn (hf ▸ h)
  statements _ hs := (h.nodes_within hs).imp fun _ => Stmt.locatedIn

theorem Program.locatedIn {program : Program} (h : DerivesProgram ts program) :
    program.LocatedIn ts where
  derived := h
  declarations _ hd := (h.within hd).imp fun _ => Declaration.locatedIn

end Located

/-- The nodes of a program that is read are located where their tokens begin. -/
theorem Grammar.parse_locatedIn {tokens : List Token} {program : Program}
    (h : parse tokens = .ok program) :
    program.LocatedIn (tokens.takeWhile fun t => t.kind != .eof) :=
  Program.locatedIn (derivesProgram_of_declarations _ (Nat.lt_succ_self _) (parse_eq_ok_iff.mp h))

/-- A marked function whose body has a `switch`, with parentheses at the front of an operand. -/
theorem Grammar.parse_locatedIn_marked :
    let word (kind : TokenKind) (text : String) (column : Nat) : Token :=
      ⟨kind, .text text, ⟨1, column⟩⟩
    let name (column : Nat) : Expr := .name "ギ" ⟨1, column⟩
    let header := [word .otherKeyword Vocabulary.functionMarker 1, word .typeKeyword "int" 2,
      word .identifier "ガ" 3, word .openParen "(" 4, word .typeKeyword "int" 5,
      word .identifier "ギ" 6, word .closeParen ")" 7]
    let returned := [word .openParen "(" 16, word .openParen "(" 17, word .identifier "ギ" 18,
      word .closeParen ")" 19, word .operator "+" 20, word .identifier "ギ" 21,
      word .closeParen ")" 22]
    let body := [word .openBrace "\x7b" 8, word .controlKeyword "switch" 9, word .identifier "ギ" 10,
      word .openBrace "\x7b" 11, word .controlKeyword "case" 12, word .identifier "ギ" 13,
      word .colon ":" 14, word .controlKeyword "return" 15] ++ returned ++
      [word .closeBrace "\x7d" 23, word .closeBrace "\x7d" 24]
    let clause : Clause :=
      .case (name 13) [.returns (some (.binary "+" (name 18) (name 21) ⟨1, 18⟩)) ⟨1, 15⟩] ⟨1, 12⟩
    let program : Program := [.function ⟨"int", "ガ", [⟨"int", "ギ", ⟨1, 5⟩⟩],
      ⟨[.switch (name 10) [clause] none ⟨1, 9⟩], ⟨1, 8⟩⟩, ⟨1, 2⟩⟩]
    parse (header ++ body) = .ok program ∧ program.LocatedIn (header ++ body) := by
  intro word name header returned body clause program
  have hparse : parse (header ++ body) = .ok program := by with_unfolding_all rfl
  exact ⟨hparse, parse_locatedIn hparse⟩

end KanaScript
