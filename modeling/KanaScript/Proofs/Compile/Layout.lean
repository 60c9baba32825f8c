import KanaScript.Compile
import KanaScript.Proofs.Grammar.Relocation
import KanaScript.Proofs.Token.Seam

/-! Layout has no part in compilation: white space and comments put in front of a token change
neither the C text nor the reason for a failure. -/

namespace KanaScript

open Layout (IsLayout)

/-- Both succeed with the same text, or both fail for the same reason and at the same token, which
may stand at different positions. -/
def SameOutcome : (first second : Except ParseError String) → Prop
  | .ok code, .ok other => code = other
  | .error error, .error other => error.detail = other.detail ∧
      error.token.kind = other.token.kind ∧ error.token.payload = other.token.payload
  | _, _ => False

/-- What is wrong is said without positions. -/
theorem ParseError.detail_move (f : Position → Position) (error : ParseError) :
    (error.move f).detail = error.detail := by
  obtain ⟨problem, token⟩ := error
  cases problem <;> rfl

/-- Sources with the same tokens, wherever these stand, compile in the same way. -/
theorem sameOutcome_of_unplaced {source other : String}
    (h : (tokenize source).map Token.unplaced = (tokenize other).map Token.unplaced) :
    SameOutcome (compile source) (compile other) := by
  have hsource := parse_move (fun _ => .start) (exists_eof_tokenize source)
  have hother := parse_move (fun _ => .start) (exists_eof_tokenize other)
  have hsame := (hsource.symm.trans (congrArg parse h)).trans hother
  unfold compile
  cases hp : parse (tokenize source) with
  | ok program =>
    cases hq : parse (tokenize other) with
    | error error => simp [hp, hq, Except.map, Except.mapError] at hsame
    | ok program' =>
      simp only [hp, hq, Except.map, Except.mapError, Except.ok.injEq] at hsame
      show program.code = program'.code
      rw [← Program.code_move (fun _ => .start), hsame, Program.code_move]
  | error error =>
    cases hq : parse (tokenize other) with
    | ok program => simp [hp, hq, Except.map, Except.mapError] at hsame
    | error error' =>
      simp only [hp, hq, Except.map, Except.mapError, Except.error.injEq] at hsame
      refine ⟨?_, ?_, ?_⟩
      · rw [← ParseError.detail_move (fun _ => .start), hsame, ParseError.detail_move]
      · exact congrArg (fun error => error.token.kind) hsame
      · exact congrArg (fun error => error.token.payload) hsame

/-- White space and complete comments, white space first, may be put in front of any token. -/
theorem compile_insert_layout (source : String) (before rest inserted : List Char) (token : Token)
    (hsource : source.toList = before ++ rest) (htoken : token ∈ tokenize source)
    (hkind : token.kind ≠ .eof) (hposition : token.position = .after before)
    (hinserted : IsLayout rest inserted) (hblank : ∀ c ∈ inserted.head?, Text.isBlank c = true) :
    SameOutcome (compile source) (compile (String.ofList (before ++ inserted ++ rest))) :=
  sameOutcome_of_unplaced
    (tokenize_insert hsource htoken hkind hposition hinserted hblank).symm

/-- The braces stand in one run of katakana, and a comment goes between them. -/
theorem compile_insert_layout_glued :
    (⟨.closeBrace, .text "\x7d", ⟨1, 4⟩⟩ : Token) ∈ tokenize "ザジレゴパシ" ∧
      SameOutcome (compile "ザジレゴパシ") (compile "ザジレ ゴゴ ガ\nゴパシ") := by
  have htoken : (⟨.closeBrace, .text "\x7d", ⟨1, 4⟩⟩ : Token) ∈ tokenize "ザジレゴパシ" := by
    decide +kernel
  have hcompile := compile_insert_layout "ザジレゴパシ" "ザジレ".toList "ゴパシ".toList
    " ゴゴ ガ\n".toList _ (by decide) htoken (by simp) rfl
    (.blank rfl (@IsLayout.line _ [' ', 'ガ'] [] (by decide) (.blank rfl .nil)))
    (fun c hc => by cases hc; rfl)
  exact ⟨htoken, hcompile⟩

end KanaScript
