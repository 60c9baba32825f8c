import KanaScript.Proofs.Grammar.Program
import KanaScript.Proofs.Grammar.ProgramPrediction

/-! The tokens that a program is read from: number tokens have their number, and none ends the
tokens. -/

namespace KanaScript

/-- A token that the grammar can take. -/
def Token.IsTaken (t : Token) : Prop := t.IsProper ∧ t.kind ≠ .eof

namespace Grammar

open KanaScript.Grammar.Action (isWord_kind)

def AllProper (ts : List Token) : Prop := ∀ t ∈ ts, t.IsProper

theorem AllProper.tail {t : Token} {ts : List Token} (h : AllProper (t :: ts)) : AllProper ts :=
  fun u hu => h u (List.mem_cons_of_mem t hu)

theorem AllProper.suffix {ts us : List Token} (h : AllProper ts) (hus : us <:+ ts) :
    AllProper us :=
  fun t ht => h t (hus.mem ht)

def AllTaken (ts : List Token) : Prop := ∀ t ∈ ts, t.IsTaken

theorem AllTaken.allProper {ts : List Token} (h : AllTaken ts) : AllProper ts :=
  fun t ht => (h t ht).1

@[simp]
theorem allTaken_nil : AllTaken [] := nofun

@[simp]
theorem allTaken_cons {t : Token} {ts : List Token} :
    AllTaken (t :: ts) ↔ t.IsTaken ∧ AllTaken ts := List.forall_mem_cons

@[simp]
theorem allTaken_append {a b : List Token} : AllTaken (a ++ b) ↔ AllTaken a ∧ AllTaken b :=
  List.forall_mem_append

theorem isTaken_of_kind {t : Token} {kind : TokenKind} (h : t.kind = kind)
    (hnumber : kind ≠ .number) (heof : kind ≠ .eof) : t.IsTaken :=
  ⟨fun hk => absurd (h.symm.trans hk) hnumber, h ▸ heof⟩

theorem isTaken_of_isWord {t : Token} {kind : TokenKind} {text : String}
    (h : t.isWord kind text = true) (hnumber : kind ≠ .number) (heof : kind ≠ .eof) : t.IsTaken :=
  isTaken_of_kind (isWord_kind h) hnumber heof

theorem isTaken_of_isOperator {t : Token} {ops : List String} (h : isOperator ops t = true) :
    t.IsTaken :=
  isTaken_of_kind (isOperator_iff.mp h).1 nofun nofun

theorem isTaken_of_isName {t : Token} (h : IsName t) : t.IsTaken := by
  rcases h with h | h <;> exact isTaken_of_kind h nofun nofun

section Expressions

mutual

theorem Derives.allTaken : ∀ {tier : Tier} {ts : List Token} {e : Expr}, Derives tier ts e →
    AllTaken ts
  | _, _, _, .assign left sign right => by
    simp [left.allTaken, right.allTaken, isTaken_of_isWord sign]
  | _, _, _, .unassigned whole => whole.allTaken
  | _, _, _, .operate first sign second => by
    simp [first.allTaken, second.allTaken, isTaken_of_isOperator sign]
  | _, _, _, .tighter whole => whole.allTaken
  | _, _, _, .operand whole => whole.allTaken
  | _, _, _, .before sign operand => by simp [operand.allTaken, isTaken_of_isOperator sign]
  | _, _, _, .unprefixed whole => whole.allTaken
  | _, _, _, .call function opening arguments closing => by
    simp [function.allTaken, arguments.allTaken, isTaken_of_kind opening,
      isTaken_of_kind closing]
  | _, _, _, .index indexed opening inner closing => by
    simp [indexed.allTaken, inner.allTaken, isTaken_of_kind opening, isTaken_of_kind closing]
  | _, _, _, .after operand sign => by simp [operand.allTaken, isTaken_of_isOperator sign]
  | _, _, _, .unsuffixed whole => whole.allTaken
  | _, _, _, .number kind payload => by simp [Token.IsTaken, Token.IsProper, kind, payload]
  | _, _, _, .string kind => by simp [isTaken_of_kind kind]
  | _, _, _, .char kind => by simp [isTaken_of_kind kind]
  | _, _, _, .name kind => by
    rcases kind with kind | kind | kind <;> simp [isTaken_of_kind kind]
  | _, _, _, .group opening inner closing => by
    simp [inner.allTaken, isTaken_of_kind opening, isTaken_of_kind closing]

theorem DerivesList.allTaken : ∀ {ts : List Token} {es : List Expr}, DerivesList ts es →
    AllTaken ts
  | _, _, .none => allTaken_nil
  | _, _, .last only => only.allTaken
  | _, _, .more first comma others => by
    simp [first.allTaken, others.allTaken, isTaken_of_kind comma]

end

end Expressions

section Statements

variable {ts : List Token}

theorem Terminator.allTaken (h : Terminator ts) : AllTaken ts := by
  cases h with
  | none => exact allTaken_nil
  | one kind => simp [isTaken_of_kind kind]

theorem DerivesSize.allTaken {suffix : String} (h : DerivesSize ts suffix) : AllTaken ts := by
  cases h with
  | none => exact allTaken_nil
  | empty opening closing => simp [isTaken_of_kind opening, isTaken_of_kind closing]
  | sized opening inner closing =>
    simp [inner.allTaken, isTaken_of_kind opening, isTaken_of_kind closing]

theorem DerivesInit.allTaken {e : Option Expr} (h : DerivesInit ts e) : AllTaken ts := by
  cases h with
  | none => exact allTaken_nil
  | some sign value => simp [value.allTaken, isTaken_of_isWord sign]

theorem DerivesVariable.allTaken {v : Variable} (h : DerivesVariable ts v) : AllTaken ts := by
  obtain ⟨type, name, size, value⟩ := h
  simp [size.allTaken, value.allTaken, isTaken_of_kind type, isTaken_of_isName name]

theorem DerivesOptional.allTaken {e : Option Expr} (h : DerivesOptional ts e) :
    AllTaken ts := by
  cases h with
  | none => exact allTaken_nil
  | some whole => exact whole.allTaken

theorem DerivesForInit.allTaken {init : Option ForInit} (h : DerivesForInit ts init) :
    AllTaken ts := by
  cases h with
  | none => exact allTaken_nil
  | declare whole => exact whole.allTaken
  | expression whole => exact whole.allTaken

theorem DerivesForHead.allTaken {head : ForHead} (h : DerivesForHead ts head) :
    AllTaken ts := by
  cases h with
  | clauses opening first comma second comma' third closing =>
    simp [first.allTaken, second.allTaken, third.allTaken, isTaken_of_kind opening,
      isTaken_of_kind comma, isTaken_of_kind comma', isTaken_of_kind closing]
  | condition whole => exact whole.allTaken

mutual

theorem DerivesStatement.allTaken : ∀ {ts : List Token} {s : Stmt}, DerivesStatement ts s →
    AllTaken ts
  | _, _, .block whole => whole.allTaken
  | _, _, .ifOnly word test body => by
    simp [test.allTaken, body.allTaken, isTaken_of_isWord word]
  | _, _, .ifElse word test body word' other => by
    simp [test.allTaken, body.allTaken, other.allTaken, isTaken_of_isWord word,
      isTaken_of_isWord word']
  | _, _, .whileLoop word test body => by
    simp [test.allTaken, body.allTaken, isTaken_of_isWord word]
  | _, _, .forLoop word clauses body => by
    simp [clauses.allTaken, body.allTaken, isTaken_of_isWord word]
  | _, _, .switch word value opening clauses closing => by
    simp [value.allTaken, clauses.allTaken, isTaken_of_isWord word, isTaken_of_kind opening,
      isTaken_of_kind closing]
  | _, _, .returns word value => by simp [value.allTaken, isTaken_of_isWord word]
  | _, _, .breaks word => by simp [isTaken_of_isWord word]
  | _, _, .continues word => by simp [isTaken_of_isWord word]
  | _, _, .declare whole => whole.allTaken
  | _, _, .expression whole => whole.allTaken

theorem DerivesBody.allTaken : ∀ {ts : List Token} {s : Stmt}, DerivesBody ts s → AllTaken ts
  | _, _, .intro whole ending => by simp [whole.allTaken, ending.allTaken]

theorem DerivesStatements.allTaken : ∀ {ts : List Token} {ss : List Stmt},
    DerivesStatements ts ss → AllTaken ts
  | _, _, .none => allTaken_nil
  | _, _, .more first others => by simp [first.allTaken, others.allTaken]

theorem DerivesBlock.allTaken : ∀ {ts : List Token} {b : Block}, DerivesBlock ts b → AllTaken ts
  | _, _, .intro opening inner closing => by
    simp [inner.allTaken, isTaken_of_kind opening, isTaken_of_kind closing]

theorem DerivesClauses.allTaken : ∀ {ts : List Token} {cases : List Clause}
    {fallback : Option (List Stmt)}, DerivesClauses ts cases fallback → AllTaken ts
  | _, _, _, .none => allTaken_nil
  | _, _, _, .case word label colon inner others => by
    simp [label.allTaken, inner.allTaken, others.allTaken, isTaken_of_isWord word,
      isTaken_of_kind colon]
  | _, _, _, .default word colon inner others => by
    simp [inner.allTaken, others.allTaken, isTaken_of_isWord word, isTaken_of_kind colon]

end

end Statements

section Programs

variable {ts : List Token} {ps : List Parameter}

theorem DerivesParameter.allTaken {p : Parameter} (h : DerivesParameter ts p) :
    AllTaken ts := by
  obtain ⟨type, name⟩ := h
  simp [isTaken_of_kind type, isTaken_of_isName name]

theorem DerivesParameters.allTaken (h : DerivesParameters ts ps) : AllTaken ts := by
  induction h with
  | last only => exact only.allTaken
  | more first comma others ih => simp [first.allTaken, ih, isTaken_of_kind comma]

theorem DerivesGroup.allTaken (h : DerivesGroup ts ps) : AllTaken ts := by
  cases h with
  | empty opening closing => simp [isTaken_of_kind opening, isTaken_of_kind closing]
  | void opening word closing =>
    simp [isTaken_of_kind opening, isTaken_of_isWord word, isTaken_of_kind closing]
  | list opening inner closing =>
    simp [inner.allTaken, isTaken_of_kind opening, isTaken_of_kind closing]

theorem DerivesBare.allTaken (h : DerivesBare ts ps) : AllTaken ts := by
  induction h with
  | type type => simp [isTaken_of_kind type]
  | last only => exact only.allTaken
  | more first comma others ih => simp [first.allTaken, ih, isTaken_of_kind comma]

theorem DerivesMarked.allTaken (h : DerivesMarked ts ps) : AllTaken ts := by
  cases h with
  | group whole => exact whole.allTaken
  | void word => simp [isTaken_of_isWord word]
  | bare whole => exact whole.allTaken
  | none => exact allTaken_nil

theorem DerivesDeclaration.allTaken {d : Declaration} (h : DerivesDeclaration ts d) :
    AllTaken ts := by
  cases h with
  | marked marker type name list inner =>
    simp [list.allTaken, inner.allTaken, isTaken_of_isWord marker, isTaken_of_kind type,
      isTaken_of_isName name]
  | typed type name list inner =>
    simp [list.allTaken, inner.allTaken, isTaken_of_kind type, isTaken_of_isName name]
  | global whole => exact whole.allTaken
  | statement whole => exact whole.allTaken

theorem DerivesProgram.allTaken {program : Program} (h : DerivesProgram ts program) :
    AllTaken ts := by
  induction h with
  | none => exact allTaken_nil
  | more first ending others ih => simp [first.allTaken, ending.allTaken, ih]

end Programs

end Grammar

end KanaScript
