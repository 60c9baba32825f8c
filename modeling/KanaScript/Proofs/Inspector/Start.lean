import KanaScript.Proofs.Inspector.Range
import KanaScript.Proofs.Number.Rounding

/-! Where a session starts.  If the source does not compile, the session looks for the token of the
error among the tokens of the source.  It finds the one at which the parser stopped, since no two
tokens stand at one place and since every token is equal to itself: no source writes a double that is
not a number. -/

namespace KanaScript

section Equality

/-- The payload is not a double that is no number. -/
def Payload.IsNumeric (payload : Payload) : Prop :=
  ∀ x, payload = .number (.real x) → x.parts ≠ .nan

theorem Double.same_self {x : Double} (h : x.parts ≠ .nan) : x.same x = true := by
  unfold same
  cases hparts : x.parts with
  | nan => exact absurd hparts h
  | infinite negative => exact beq_self_eq_true negative
  | finite negative mantissa exponent => simp

theorem Payload.same_self {payload : Payload} (h : payload.IsNumeric) :
    payload.same payload = true := by
  unfold same
  split
  · exact Double.same_self (h _ rfl)
  · exact beq_self_eq_true payload

theorem Token.same_self {t : Token} (h : t.payload.IsNumeric) : t.same t = true := by
  simp [same, Payload.same_self h]

theorem Token.position_eq_of_same {t u : Token} (h : t.same u = true) :
    t.position = u.position := by
  simp only [same, Bool.and_eq_true, beq_iff_eq] at h
  exact h.2

end Equality

section Lexed

theorem Double.parts_ofRatio (n : Nat) {d : Nat} (hd : 0 < d) : (ofRatio n d).parts ≠ .nan := by
  intro hnan
  cases rounds_ofRatio n hd with
  | finite hparts => cases hnan.symm.trans hparts
  | infinite hparts => cases hnan.symm.trans hparts

theorem Number.isNumeric_ofLiteral (literal : List Char) :
    (Payload.number (.ofLiteral literal)).IsNumeric := by
  intro x hx
  unfold ofLiteral at hx
  dsimp only at hx
  split at hx
  · cases hx
  · cases hx
    exact Double.parts_ofRatio _ (Nat.pow_pos (by decide))

theorem Lexeme.isNumeric_classify (word : String) : (classify word).2.IsNumeric := by
  intro x hx
  unfold classify at hx
  split at hx
  · cases hx
  split at hx
  · cases hx
  split at hx <;> cases hx

theorem Lexeme.Spelled.isNumeric {lexeme : Lexeme} {rest : List Char} (h : lexeme.Spelled rest) :
    lexeme.payload.IsNumeric := by
  cases h with
  | @word c cs kind payload hc run unbracketed meaning =>
    have hword := isNumeric_classify (String.ofList (c :: cs))
    rwa [meaning] at hword
  | number hc run => exact Number.isNumeric_ofLiteral _
  | _ => exact nofun

variable {before rest : List Char} {tokens : List Token}

/-- No token of a source carries a double that is not a number. -/
theorem Scans.isNumeric (h : Scans before rest tokens) : ∀ t ∈ tokens, t.payload.IsNumeric := by
  induction h with
  | last hgap => exact List.forall_mem_singleton.mpr nofun
  | token hgap hstarts spelled others ih =>
    exact List.forall_mem_cons.mpr ⟨spelled.isNumeric, ih⟩

/-- The tokens of a source stand at places of their own. -/
theorem Scans.pairwise_position (h : Scans before rest tokens) :
    tokens.Pairwise fun t u => t.position ≠ u.position := by
  induction h with
  | last hgap => exact List.pairwise_singleton _ _
  | token hgap hstarts spelled others ih =>
    exact List.pairwise_cons.mpr ⟨fun u hu => (others.position_ne spelled u hu).symm, ih⟩

theorem position_lt_of_mem_tokenize {source : String} (hsize : source.length < 2 ^ 32 - 1)
    {t : Token} (h : t ∈ tokenize source) :
    t.position.line < 2 ^ 32 ∧ t.position.column < 2 ^ 32 := by
  obtain ⟨front, hfront, hposition⟩ := (scans_tokenize source).exists_position t h
  have hlength : front.length ≤ source.length := hfront.length_le
  have hline := Position.after_line_le front
  have hcolumn := Position.after_column_le front
  rw [hposition, List.nil_append]
  omega

end Lexed

section Cursor

/-- The number of tokens in front of the one at which the parser stops. -/
def cursor (tokens : List Token) : Nat :=
  let stream := TokenStream.ofTokens tokens
  stream.pending.length - stream.program.2.pending.length

theorem problem_ne_malformedNumber {tokens : List Token} {error : ParseError}
    (proper : ∀ t ∈ tokens, t.IsProper) (failed : parse tokens = .error error) :
    ∀ t, error.problem ≠ .malformedNumber t := by
  obtain ⟨rest, hfailed, -⟩ := Grammar.parse_failed failed
  have hproper : ∀ t ∈ tokens.takeWhile Grammar.isInner, t.IsProper :=
    fun t ht => proper t ((List.takeWhile_prefix _).subset ht)
  obtain ⟨used, -, placed, -⟩ :=
    Grammar.declarations_stuck _ (Nat.lt_succ_self _) hproper hfailed
  exact placed

/-- The parser stops in front of the token of the error, and at its place stands no earlier one. -/
theorem exists_split_cursor {source : String} {error : ParseError}
    (h : parse (tokenize source) = .error error) :
    ∃ used others, tokenize source = used ++ error.token :: others ∧
      cursor (tokenize source) = used.length ∧
      ∀ t ∈ used, t.position ≠ error.token.position := by
  have hscans := scans_tokenize source
  obtain ⟨used, others, htokens, hinner, hpending, -⟩ :=
    Grammar.parse_stuck (exists_eof_tokenize source) hscans.isProper h
  refine ⟨used, others, htokens, ?_, ?_⟩
  · have hbefore : (TokenStream.ofTokens (tokenize source)).pending =
        used ++ (error.token :: others).takeWhile Grammar.isInner := by
      rw [← Grammar.takeWhile_inner_append hinner, ← htokens]
      rfl
    show List.length _ - List.length _ = _
    rw [hpending, hbefore, List.length_append, Nat.add_sub_cancel]
  · have hpairwise := hscans.pairwise_position
    rw [htokens, List.pairwise_append] at hpairwise
    exact fun t ht => hpairwise.2.2 t ht error.token List.mem_cons_self

theorem findIdx?_split {p : Token → Bool} {used others : List Token} {t : Token} (ht : p t = true)
    (hused : ∀ u ∈ used, p u = false) :
    (used ++ t :: others).findIdx? p = some used.length := by
  rw [List.findIdx?_append, List.findIdx?_eq_none_iff.mpr hused, List.findIdx?_cons, if_pos ht]
  simp

end Cursor

namespace Inspector.Session

theorem start_of_error {source : String} {error : ParseError}
    (h : parse (tokenize source) = .error error) :
    (start source).output = .error error ∧ (start source).tokens = tokenize source ∧
      (start source).selected = ((tokenize source).findIdx? (·.same error.token)).getD 0 := by
  simp only [start, h, and_self]

/-- If the source does not compile, the session starts at the very token at which the parser stopped:
the one of the error, whose place no earlier token has, so that it is the first that is equal to it.
The line of the selection is the line of the error, and the error is never that of a malformed
number.  Positions are words of 32 bits as long as the source has fewer than `2 ^ 32 - 1`
characters. -/
theorem start_selected {source : String} {error : ParseError}
    (h : parse (tokenize source) = .error error) :
    let session := start source
    session.output = .error error ∧ session.tokens = tokenize source ∧
    session.selected = cursor session.tokens ∧
    session.tokens[session.selected]? = some error.token ∧
    (∀ t ∈ session.tokens.take session.selected, t.position ≠ error.token.position) ∧
    session.tokens.findIdx? (·.same error.token) = some session.selected ∧
    session.errorLine? = some session.selectedLine ∧
    (∀ t, error.problem ≠ .malformedNumber t) ∧
    (source.length < 2 ^ 32 - 1 →
      ∀ t ∈ session.tokens, t.position.line < 2 ^ 32 ∧ t.position.column < 2 ^ 32) := by
  intro session
  have hscans := scans_tokenize source
  obtain ⟨houtput, hall, hselected⟩ := start_of_error h
  obtain ⟨used, others, htokens, hcursor, hplaces⟩ := exists_split_cursor h
  have hsame : (tokenize source).findIdx? (·.same error.token) = some used.length := by
    have hself := Token.same_self (hscans.isNumeric _ (error_mem_tokenize h))
    rw [htokens]
    refine findIdx?_split hself fun t ht => Bool.eq_false_iff.mpr fun hsame => ?_
    exact hplaces t ht (Token.position_eq_of_same hsame)
  have htoken : (tokenize source)[used.length]? = some error.token := by
    rw [htokens, List.getElem?_append_right le_rfl, Nat.sub_self, List.getElem?_cons_zero]
  rw [hsame, Option.getD_some] at hselected
  refine ⟨houtput, hall, ?_⟩
  rw [errorLine?, selectedLine, houtput, hall, hselected, htoken]
  refine ⟨hcursor.symm, rfl, ?_, hsame, rfl, problem_ne_malformedNumber hscans.isProper h, ?_⟩
  · rwa [htokens, List.take_left]
  · exact fun hsize t ht => position_lt_of_mem_tokenize hsize ht

/-- The second of two parentheses that close is selected, and not the first. -/
theorem start_selected_closed :
    ∃ error, parse (tokenize "(ガ))") = .error error ∧
      (start "(ガ))").output = .error error ∧
      (start "(ガ))").selected = cursor (tokenize "(ガ))") ∧
      (tokenize "(ガ))")[(start "(ガ))").selected]? = some error.token ∧
      (∀ t ∈ (tokenize "(ガ))").take (start "(ガ))").selected,
        t.position ≠ error.token.position) ∧
      (tokenize "(ガ))").findIdx? (·.same error.token) = some (start "(ガ))").selected ∧
      (start "(ガ))").errorLine? = some (start "(ガ))").selectedLine ∧
      (∀ t, error.problem ≠ .malformedNumber t) ∧
      ∀ t ∈ tokenize "(ガ))", t.position.line < 2 ^ 32 ∧ t.position.column < 2 ^ 32 := by
  have tokens : tokenize "(ガ))" = [⟨.openParen, .text "(", ⟨1, 1⟩⟩,
      ⟨.identifier, .text "ガ", ⟨1, 2⟩⟩, ⟨.closeParen, .text ")", ⟨1, 3⟩⟩,
      ⟨.closeParen, .text ")", ⟨1, 4⟩⟩, ⟨.eof, .none, ⟨1, 5⟩⟩] := by decide +kernel
  have failed : parse (tokenize "(ガ))") =
      .error ⟨.unexpectedToken, ⟨.closeParen, .text ")", ⟨1, 4⟩⟩⟩ := by
    rw [tokens]
    cbv
  obtain ⟨houtput, htokens, hselected, htoken, hplaces, hsame, hline, hproblem, hwords⟩ :=
    start_selected failed
  rw [htokens] at hselected htoken hplaces hsame hwords
  exact ⟨_, failed, houtput, hselected, htoken, hplaces, hsame, hline, hproblem,
    hwords (by decide)⟩

end Inspector.Session

end KanaScript
