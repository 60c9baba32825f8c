import KanaScript.Proofs.C.ProgramTokens
import KanaScript.Proofs.Grammar.KnownParts
import KanaScript.Token.Scan

/-! C reads the text of a program as the program it was made from, with every `else` at the same
`if`, exactly if no branch before an `else` would take it and no name that leads a statement is
reserved. -/

namespace KanaScript

open C

section Scanning

/-- A type that the lexeme stands for is one of the vocabulary. -/
def Lexeme.HasKnownType (lexeme : Lexeme) : Prop :=
  lexeme.kind = .typeKeyword → lexeme.payload.text?.getD "" ∈ typeSpellings

theorem spelling_of_keyword? {word spelling : String}
    (h : Vocabulary.keyword? word = some (.typeKeyword, spelling)) : spelling ∈ typeSpellings := by
  unfold Vocabulary.keyword? at h
  split at h
  · rename_i hlookup
    cases h
    obtain ⟨before, after, htable, -⟩ := List.lookup_eq_some_iff.mp hlookup
    refine List.mem_map.mpr ⟨(word, spelling), ?_, rfl⟩
    rw [htable]
    exact List.mem_append_right before List.mem_cons_self
  · split at h
    · cases h
    · simp at h

theorem spelling_of_classify {word : String} (h : (Lexeme.classify word).1 = .typeKeyword) :
    (Lexeme.classify word).2.text?.getD "" ∈ typeSpellings := by
  have nonempty : ∀ spelling ∈ typeSpellings, spelling.isEmpty = false := by decide
  unfold Lexeme.classify at h ⊢
  split at h
  · rename_i kind spelling hk
    obtain rfl : kind = .typeKeyword := h
    have hs := spelling_of_keyword? hk
    simpa [nonempty spelling hs, Payload.text?] using hs
  · split at h
    · cases h
    · split at h
      · cases h
      · cases h

theorem Lexeme.hasKnownType_word (c : Char) (cs : List Char) : (word c cs).HasKnownType := by
  have bracket : ∀ b ∈ Vocabulary.brackets, b.kind ≠ .typeKeyword := by decide
  unfold word
  split
  · rename_i found hb
    exact fun hkind => absurd hkind (bracket found (List.mem_of_find?_eq_some hb))
  · exact fun hkind => spelling_of_classify hkind

theorem Lexeme.hasKnownType_first (c : Char) (cs : List Char) : (first c cs).HasKnownType := by
  have punctuation : ∀ found ∈ Vocabulary.punctuation? c, found.1 ≠ .typeKeyword := by
    unfold Vocabulary.punctuation?
    split <;> simp
  unfold first
  split
  · rename_i hp
    exact fun hkind => absurd hkind (punctuation _ hp)
  split
  · exact nofun
  split
  · exact nofun
  split
  · exact hasKnownType_word c cs
  split
  · exact nofun
  split
  · exact nofun
  · exact nofun

theorem hasKnownType_pieces (k : Nat) : ∀ {layout cs : List Char}, cs.length = k →
    ∀ piece ∈ (piecesAfter layout cs).1, piece.lexeme.HasKnownType := by
  induction k using Nat.strongRecOn with
  | _ k ih =>
    intro layout cs hk
    cases cs with
    | nil => simp [piecesAfter]
    | cons c cs =>
      rw [piecesAfter]
      refine List.forall_mem_cons.mpr ⟨Lexeme.hasKnownType_first c cs, ?_⟩
      exact ih _ (by simp only [List.length_drop, List.length_cons] at *; omega) rfl

theorem hasKnownTypes_place {found : List Piece} :
    ∀ {position : Position}, (∀ piece ∈ found, piece.lexeme.HasKnownType) →
      Grammar.HasKnownTypes (Scanner.place position found).1 := by
  induction found with
  | nil => exact fun _ => List.forall_mem_nil _
  | cons piece found ih =>
    intro position h
    obtain ⟨hp, hothers⟩ := List.forall_mem_cons.mp h
    exact List.forall_mem_cons.mpr ⟨hp, ih hothers⟩

/-- The scanner makes only types of the vocabulary. -/
theorem hasKnownTypes_tokenize (source : String) : Grammar.HasKnownTypes (tokenize source) := by
  intro t ht
  rcases List.mem_append.mp ht with ht | ht
  · exact hasKnownTypes_place (hasKnownType_pieces _ rfl) t ht
  · rw [List.mem_singleton.mp ht]
    exact nofun

end Scanning

/-- For a program that was read, C reads its text as the program and as nothing else exactly if each
branch of an `if` leaves it its `else`, and no reserved word leads an expression. -/
theorem readsProgram_parsed_iff_keepsElse {ts : List Token} {program : Program}
    (types : Grammar.HasKnownTypes ts) (parsed : parse ts = .ok program) :
    (∀ externals, ReadsProgram program.code externals ↔ externals = program.outline) ↔
      ∀ s ∈ program.statements, s.keepsElse = true := by
  have known := hasKnownParts_of_parse types parsed
  have tokens := Program.tokens?_code known
  -- The text is cut into the tokens of the outline, so that it is read so if the outline is sound.
  rw [← Program.sound_iff known]
  constructor
  · intro reads
    obtain ⟨us, -, takes⟩ := (reads program.outline).mpr rfl
    exact (takesAll_iff.mp takes).2
  · intro sound externals
    have takes : TakesAll _ program.outline := takesAll_iff.mpr ⟨rfl, sound⟩
    constructor
    · rintro ⟨us, hus, others⟩
      obtain rfl : _ = us := Option.some.inj (tokens.symm.trans hus)
      exact others.unique takes
    · rintro rfl
      exact ⟨_, tokens, takes⟩

/-- In `if a if b c;; else d` the second terminator ends the inner `if`, so that the outer one gets
the `else`; in the text nothing ends it. -/
theorem not_readsProgram_dangling_else :
    ∃ program, parse (tokenize "ジョウベン ガ ジョウベン ダ ザ。。ゾバ バ") = .ok program ∧
      ¬∀ externals, ReadsProgram program.code externals ↔ externals = program.outline := by
  have tokens : tokenize "ジョウベン ガ ジョウベン ダ ザ。。ゾバ バ" =
      [⟨.controlKeyword, .text "if", ⟨1, 1⟩⟩, ⟨.identifier, .text "ガ", ⟨1, 7⟩⟩,
        ⟨.controlKeyword, .text "if", ⟨1, 9⟩⟩, ⟨.identifier, .text "ダ", ⟨1, 15⟩⟩,
        ⟨.identifier, .text "ザ", ⟨1, 17⟩⟩, ⟨.semicolon, .text ";", ⟨1, 18⟩⟩,
        ⟨.semicolon, .text ";", ⟨1, 19⟩⟩, ⟨.controlKeyword, .text "else", ⟨1, 20⟩⟩,
        ⟨.identifier, .text "バ", ⟨1, 23⟩⟩, ⟨.eof, .none, ⟨1, 24⟩⟩] := by decide +kernel
  have parsed : parse (tokenize "ジョウベン ガ ジョウベン ダ ザ。。ゾバ バ") = .ok [.statement
      (.ifElse (.name "ガ" ⟨1, 7⟩)
        (.ifElse (.name "ダ" ⟨1, 15⟩) (.expression (.name "ザ" ⟨1, 17⟩) ⟨1, 17⟩) none ⟨1, 9⟩)
        (some (.expression (.name "バ" ⟨1, 23⟩) ⟨1, 23⟩)) ⟨1, 1⟩)] := by
    rw [tokens]
    cbv
  refine ⟨_, parsed, fun reads => ?_⟩
  have kept := (readsProgram_parsed_iff_keepsElse (hasKnownTypes_tokenize _) parsed).mp reads
  have outer := kept _ (List.mem_flatMap.mpr ⟨_, List.mem_cons_self, by
    rw [Declaration.nodes, Stmt.nodes]
    exact List.mem_cons_self⟩)
  exact absurd outer (by decide)

end KanaScript
