import KanaScript.Proofs.Grammar.ProgramPrediction
import KanaScript.Token.Scan

/-! Where reading a program fails: at the earliest token that no program allows there. -/

namespace KanaScript.Grammar

/-- Whether a token is none that ends the tokens. -/
abbrev isInner (t : Token) : Bool := t.kind != .eof

theorem takeWhile_inner_append {used : List Token} (h : ∀ t ∈ used, t.kind ≠ .eof)
    (others : List Token) :
    (used ++ others).takeWhile isInner = used ++ others.takeWhile isInner :=
  List.takeWhile_append_of_pos (by simpa using h)

/-- The tokens before the first end token, and that token. -/
theorem exists_split_end {tokens : List Token} (h : ∃ t ∈ tokens, t.kind = .eof) :
    ∃ last more, tokens = tokens.takeWhile isInner ++ last :: more ∧ last.kind = .eof ∧
      tokens.find? (fun t => t.kind == .eof) = some last := by
  obtain ⟨t, ht, hk⟩ := h
  induction tokens with
  | nil => cases ht
  | cons u us ih =>
    by_cases hu : u.kind = .eof
    · exact ⟨u, us, by simp [hu], hu, by simp [hu]⟩
    · have hmem : t ∈ us := by
        rcases List.mem_cons.mp ht with rfl | hmem
        · exact absurd hk hu
        · exact hmem
      obtain ⟨last, more, hsplit, hlast, hfind⟩ := ih hmem
      refine ⟨last, more, ?_, hlast, by simpa [hu] using hfind⟩
      rw [List.takeWhile_cons_of_pos (by simpa using hu), List.cons_append, ← hsplit]

/-- A problem is reported at the token that follows those that were read. -/
theorem parse_failed {tokens : List Token} {error : ParseError} (h : parse tokens = .error error) :
    ∃ rest, declarations (tokens.takeWhile isInner) = .error (error.problem, rest) ∧
      error.token = (TokenStream.ofTokens tokens).offending error.problem rest ∧
      (TokenStream.ofTokens tokens).program.2.pending = rest := by
  rw [parse] at h
  rw [TokenStream.program] at h ⊢
  show ∃ rest, declarations (TokenStream.ofTokens tokens).pending = _ ∧ _
  cases hd : declarations (TokenStream.ofTokens tokens).pending with
  | ok program => simp [hd] at h
  | error failure =>
    obtain ⟨problem, rest⟩ := failure
    simp only [hd, Except.error.injEq] at h
    subst h
    exact ⟨rest, rfl, rfl, rfl⟩

/-- A program that cannot be read is stuck at the token of the error: what stands before it can be
completed, and nothing that goes on with it is a program. -/
theorem parse_stuck {tokens : List Token} {error : ParseError}
    (ended : ∃ t ∈ tokens, t.kind = .eof) (proper : ∀ t ∈ tokens, t.IsProper)
    (failed : parse tokens = .error error) :
    ∃ used others, tokens = used ++ error.token :: others ∧ (∀ t ∈ used, t.kind ≠ .eof) ∧
      (TokenStream.ofTokens tokens).program.2.pending =
        (error.token :: others).takeWhile isInner ∧
      (∃ more program, (∀ t ∈ more, t.kind ≠ .eof) ∧ declarations (used ++ more) = .ok program) ∧
      ∀ more program, parse (used ++ error.token :: more) ≠ .ok program := by
  obtain ⟨rest, hfailed, htoken, hpending⟩ := parse_failed failed
  obtain ⟨last, tail, hsplit, hlast, hfind⟩ := exists_split_end ended
  have hproper : ∀ t ∈ tokens.takeWhile isInner, t.IsProper :=
    fun t ht => proper t ((List.takeWhile_prefix _).subset ht)
  obtain ⟨used, hused, placed, settled, more, program, -, hmore, hread⟩ :=
    declarations_stuck _ (Nat.lt_succ_self _) hproper hfailed
  have hinner : ∀ t ∈ used ++ rest, t.kind ≠ .eof := by
    rw [← hused]
    intro t ht
    simpa using List.all_eq_true.mp List.all_takeWhile t ht
  rw [List.forall_mem_append] at hinner
  have htoken : error.token = rest.head?.getD last := by
    have hstream : (TokenStream.ofTokens tokens).last = last := by
      rw [TokenStream.ofTokens, hfind, Option.getD_some]
    rw [htoken, TokenStream.offending, hstream]
    exact fun t h => placed t h
  obtain ⟨others, hothers⟩ : ∃ others, rest ++ last :: tail = error.token :: others := by
    rw [htoken]
    cases rest with
    | nil => exact ⟨tail, rfl⟩
    | cons t us => exact ⟨us ++ last :: tail, rfl⟩
  refine ⟨used, others, ?_, hinner.1, ?_, ⟨more, program, hmore, hread⟩, ?_⟩
  · rw [← hothers, ← List.append_assoc, ← hused, ← hsplit]
  · rw [hpending, ← hothers, takeWhile_inner_append hinner.2]
    simp [hlast]
  · intro more' program' hread'
    -- among the tokens before the end, the next one is as in the tokens that failed
    have hhead : ((error.token :: more').takeWhile isInner).head? = rest.head? := by
      rw [htoken]
      cases rest with
      | nil => simp [hlast]
      | cons t us => simp [hinner.2 t List.mem_cons_self]
    rw [parse_eq_ok_iff, takeWhile_inner_append hinner.1, settled _ hhead] at hread'
    cases hread'

/-- A program that cannot be read fails at the earliest token: what stands before it can be
continued to a program, and with it no program starts. -/
theorem parse_error_earliest (tokens : List Token) (error : ParseError)
    (ended : ∃ t ∈ tokens, t.kind = .eof) (proper : ∀ t ∈ tokens, t.IsProper)
    (failed : parse tokens = .error error) :
    ∃ k, tokens[k]? = some error.token ∧ (∀ t ∈ tokens.take k, t.kind ≠ .eof) ∧
      (TokenStream.ofTokens tokens).program.2.pending = (tokens.drop k).takeWhile isInner ∧
      (∃ more program, parse (tokens.take k ++ (more ++ [.sample .eof])) = .ok program) ∧
      ∀ more program, parse (tokens.take (k + 1) ++ more) ≠ .ok program := by
  obtain ⟨used, others, htokens, hused, hpending, ⟨more, program, hmore, hread⟩, hno⟩ :=
    parse_stuck ended proper failed
  have htake : tokens.take used.length = used := by rw [htokens, List.take_left]
  have htake' : tokens.take (used.length + 1) = used ++ [error.token] := by
    rw [htokens, List.take_append, List.take_of_length_le (Nat.le_succ _),
      Nat.add_sub_cancel_left]
    rfl
  refine ⟨used.length, ?_, ?_, ?_, ?_, ?_⟩
  · rw [htokens, List.getElem?_append_right (Nat.le_refl _), Nat.sub_self]
    rfl
  · rw [htake]
    exact hused
  · rw [hpending, htokens, List.drop_left]
  · refine ⟨more, program, parse_eq_ok_iff.mpr ?_⟩
    rw [htake, takeWhile_inner_append hused, takeWhile_inner_append hmore]
    simpa using hread
  · intro more' program'
    rw [htake', List.append_assoc]
    exact hno more' program'

/-- In `a b )` the first two tokens start a program, and none goes on with the parenthesis. -/
theorem parse_error_earliest_unopened :
    ∃ error k, parse (tokenize "ガ ダ )") = .error error ∧
      (tokenize "ガ ダ )")[k]? = some error.token ∧
      (∃ more program,
        parse ((tokenize "ガ ダ )").take k ++ (more ++ [.sample .eof])) = .ok program) ∧
      ∀ more program, parse ((tokenize "ガ ダ )").take (k + 1) ++ more) ≠ .ok program := by
  have tokens : tokenize "ガ ダ )" = [⟨.identifier, .text "ガ", ⟨1, 1⟩⟩,
      ⟨.identifier, .text "ダ", ⟨1, 3⟩⟩, ⟨.closeParen, .text ")", ⟨1, 5⟩⟩,
      ⟨.eof, .none, ⟨1, 6⟩⟩] := by decide +kernel
  have failed : parse (tokenize "ガ ダ )") =
      .error ⟨.unexpectedToken, ⟨.closeParen, .text ")", ⟨1, 5⟩⟩⟩ := by
    rw [tokens]
    cbv
  obtain ⟨k, hk, -, -, hmore, hno⟩ := parse_error_earliest _ _ (by simp [tokens])
    (by simp [tokens, Token.IsProper]) failed
  exact ⟨_, k, failed, hk, hmore, hno⟩

end KanaScript.Grammar
