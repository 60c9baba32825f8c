import KanaScript.Proofs.Token.Seam

/-! Texts one below the other.  A line feed ends every token and every line comment, so that the
tokens of a text follow those of the one above it; only a literal and a block comment go on below if
they lack their end. -/

namespace KanaScript

open Layout (IsLayout EndsOpen)

section Below

variable {a : String}

/-- The tokens of a text on the lines below another one follow those of the other. -/
theorem tokenize_below {b : String} (hliteral : ¬EndsInLiteral [] a.toList)
    (hcomment : ¬EndsInComment a.toList) :
    tokenize (a ++ "\n" ++ b) =
      (tokenize a).dropLast ++ (tokenize b).map (Token.move (.down (a.toList.count '\n' + 1))) := by
  obtain ⟨gap, front, htokens, hfront⟩ := (scans_tokenize a).exists_scansTo
  have hopen : ¬EndsOpen gap := fun h => hcomment ⟨gap, front, hfront, h⟩
  have hextended : ScansTo b.toList (gap ++ ['\n']) [] (a.toList ++ ['\n']) front := by
    refine hfront.change ?_ (fun hgap => hgap.append_lineFeed hopen _) fun _ => hliteral
    simpa using Lexeme.breaks_of_isBlank (c := '\n') rfl
  have hjoined := hextended.join (scans_run _ rfl)
  rw [List.nil_append, Position.after_lineFeed, Scanner.run_down] at hjoined
  have htext : a ++ "\n" ++ b = String.ofList (a.toList ++ ['\n'] ++ b.toList) :=
    String.toList_inj.mp (by simp)
  rw [htext, tokenize_of_scans hjoined, htokens, List.dropLast_concat]
  rfl

end Below

section Literals

open Vocabulary

variable {kind : TokenKind} {opening closing : Char} {gap before front body : List Char}
  {tokens : List Token}

theorem breaks_of_literalMarks (marks : (kind, opening, closing) ∈ literalMarks) :
    Lexeme.Breaks opening := by
  have hall : ∀ marks ∈ literalMarks, Text.continuesWord marks.2.1 = false ∧
      Text.continuesName marks.2.1 = false ∧ Lexeme.continuesNumber marks.2.1 = false := by decide
  obtain ⟨hword, hname, hnumber⟩ := hall _ marks
  exact ⟨hword, hname, hnumber⟩

theorem not_starts_literal (marks : (kind, opening, closing) ∈ literalMarks) (cs : List Char) :
    ¬Layout.Starts (opening :: cs) := by
  have hall : ∀ marks ∈ literalMarks, Text.isBlank marks.2.1 = false ∧ marks.2.1 ≠ 'ゴ' := by decide
  exact Layout.not_starts_cons (hall _ marks).1 (hall _ marks).2

/-- An open literal takes in whatever follows it but its closing mark. -/
theorem ScansTo.openLiteral (h : ScansTo (opening :: body) gap before front tokens)
    (marks : (kind, opening, closing) ∈ literalMarks) (more : List Char)
    (hmore : closing ∉ body ++ more) :
    ∃ eof, Scans before (front ++ opening :: (body ++ more)) (tokens ++
      [⟨kind, .text (String.ofList (body ++ more)), .after (before ++ front)⟩, eof]) := by
  have hfront : ScansTo (opening :: (body ++ more)) (gap ++ []) before (front ++ []) tokens := by
    refine h.change ?_ (fun hgap => ?_) nofun
    · simpa using breaks_of_literalMarks marks
    · rw [List.append_nil]
      exact hgap.change nofun
  rw [List.append_nil, List.append_nil] at hfront
  have hlast := @Scans.token (before ++ front) [] []
    ⟨kind, .text (String.ofList (body ++ more)), opening :: (body ++ more)⟩ _ .nil
    (not_starts_literal marks _) (.unclosed marks hmore rfl) (.last .nil)
  simp only [List.nil_append, List.append_nil] at hlast
  exact ⟨_, hfront.join hlast⟩

/-- The last token of a text that ends inside a literal is that literal. -/
theorem EndsInLiteral.exists_last {a : String} (h : EndsInLiteral [] a.toList) :
    ∃ t ∈ (tokenize a).dropLast.getLast?, ∃ marks ∈ literalMarks, t.kind = marks.1 := by
  obtain ⟨front, body, kind, opening, closing, htext, marks, hbody, gap, tokens, hfront⟩ := h
  obtain ⟨eof, hscans⟩ := hfront.openLiteral marks [] (by simpa using hbody)
  rw [List.append_nil, ← htext] at hscans
  have htokens := tokenize_of_scans hscans
  rw [String.ofList_toList] at htokens
  have hlast : (tokenize a).dropLast.getLast? =
      some ⟨kind, .text (String.ofList body), .after ([] ++ front)⟩ := by
    rw [htokens]
    simp
  exact ⟨_, hlast, _, marks, rfl⟩

end Literals

section Exactness

variable {a : String}

/-- No text at all below an open literal leaves it as it is: it takes in the line feed. -/
theorem EndsInLiteral.tokenize_ne (h : EndsInLiteral [] a.toList) (k : Nat) :
    tokenize (a ++ "\n" ++ "") ≠
      (tokenize a).dropLast ++ (tokenize "").map (Token.move (.down k)) := by
  obtain ⟨front, body, kind, opening, closing, htext, marks, hbody, gap, tokens, hfront⟩ := h
  have hclosing : closing ≠ '\n' := by
    have hall : ∀ marks ∈ Vocabulary.literalMarks, marks.2.2 ≠ '\n' := by decide
    exact hall _ marks
  obtain ⟨eof, habove⟩ := hfront.openLiteral marks [] (by simpa using hbody)
  obtain ⟨eof', hbelow⟩ := hfront.openLiteral marks ['\n']
    (by simpa using ⟨hbody, hclosing⟩)
  have ha : a = String.ofList (front ++ opening :: (body ++ [])) :=
    String.toList_inj.mp (by simpa using htext)
  have hline : a ++ "\n" ++ "" = String.ofList (front ++ opening :: (body ++ ['\n'])) :=
    String.toList_inj.mp (by simp [htext])
  intro heq
  rw [hline, tokenize_of_scans hbelow, ha, tokenize_of_scans habove] at heq
  have hempty : tokenize "" = [⟨.eof, .none, .start⟩] := by cbv
  simp [hempty] at heq

theorem not_infix_append {body more : List Char} (h : ¬['ビ', 'ゴ'] <:+: body) (hmore : 'ゴ' ∉ more) :
    ¬['ビ', 'ゴ'] <:+: body ++ more := by
  rintro ⟨s, t, heq⟩
  rcases List.append_eq_append_iff.mp heq with ⟨rest, hbody, -⟩ | ⟨rest, hbody, hrest⟩
  · exact h ⟨s, rest, hbody.symm⟩
  -- the mark would end in what was added
  · rcases List.eq_nil_or_concat rest with rfl | ⟨rest, c, rfl⟩
    · exact h ⟨s, [], by simpa using hbody⟩
    · have hlast := congrArg List.getLast? hbody
      rw [List.concat_eq_append, ← List.append_assoc, List.getLast?_concat] at hlast
      obtain rfl : 'ゴ' = c := by simpa using hlast
      exact hmore (by simp [hrest])

/-- A bracket below an open comment is none of the tokens. -/
theorem EndsInComment.tokenize_ne (hliteral : ¬EndsInLiteral [] a.toList)
    (h : EndsInComment a.toList) (k : Nat) :
    tokenize (a ++ "\n" ++ "(") ≠
      (tokenize a).dropLast ++ (tokenize "(").map (Token.move (.down k)) := by
  obtain ⟨gap, tokens, hscans, front, body, rfl, hfront, hbody⟩ := h
  have hextended : ScansTo [] (front ++ 'ゴ' :: 'ビ' :: body ++ ['\n', '(']) []
      (a.toList ++ ['\n', '(']) tokens := by
    refine hscans.change ?_ (fun _ => ?_) fun _ => hliteral
    · simpa using Lexeme.breaks_of_isBlank (c := '\n') rfl
    · rw [List.append_assoc]
      exact (hfront.change nofun).append (.lastBlock rfl (not_infix_append hbody (by decide)))
  have habove := tokenize_of_scans (hscans.join (.last .nil))
  have hbelow := tokenize_of_scans (hextended.join (.last .nil))
  rw [List.append_nil, String.ofList_toList] at habove
  have hline : a ++ "\n" ++ "(" = String.ofList (a.toList ++ ['\n', '('] ++ []) :=
    String.toList_inj.mp (by simp)
  have hbracket : (tokenize "(").length = 2 := by cbv
  intro heq
  rw [hline, hbelow, habove, List.dropLast_concat] at heq
  have hlength := congrArg List.length heq
  simp [hbracket] at hlength

end Exactness

/-- The tokens of every text on the lines below `a` follow those of `a`, with their lines counted
from there, exactly if `a` ends neither inside a literal nor inside a block comment. -/
theorem tokenize_below_iff (a : String) :
    (∀ b : String, tokenize (a ++ "\n" ++ b) =
        (tokenize a).dropLast ++ (tokenize b).map (Token.move (.down (a.toList.count '\n' + 1)))) ↔
      ¬EndsInLiteral [] a.toList ∧ ¬EndsInComment a.toList := by
  constructor
  · intro h
    have hliteral : ¬EndsInLiteral [] a.toList := fun hopen => hopen.tokenize_ne _ (h "")
    exact ⟨hliteral, fun hopen => hopen.tokenize_ne hliteral _ (h "(")⟩
  · rintro ⟨hliteral, hcomment⟩ b
    exact tokenize_below hliteral hcomment

end KanaScript
