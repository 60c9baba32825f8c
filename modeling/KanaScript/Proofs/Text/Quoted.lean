import KanaScript.Proofs.Text.Digits
import KanaScript.Proofs.Text.Lines
import KanaScript.Proofs.Text.Run
import KanaScript.Text.Quoted
import Mathlib.Tactic.SplitIfs

/-! Reading quoted text back.  Every way to write a character between quotes is read as that
character alone, and none starts with a quote, so that a quoted text ends at its closing quote and
tells what was quoted; and it never has a line end in it. -/

namespace KanaScript.Text

/-- The character that a text written between quotes starts with, and the rest of the text. -/
def unquoteChar? : List Char → Option (Char × List Char)
  | '\\' :: '0' :: rest => some ('\x00', rest)
  | '\\' :: 't' :: rest => some ('\t', rest)
  | '\\' :: 'r' :: rest => some ('\r', rest)
  | '\\' :: 'n' :: rest => some ('\n', rest)
  | '\\' :: 'u' :: '\x7b' :: rest =>
    let digits := rest.takeWhile (· != '\x7d')
    some (Char.ofNat (hexValue digits), rest.drop (digits.length + 1))
  | '\\' :: c :: rest => some (c, rest)
  | c :: rest => some (c, rest)
  | [] => none

theorem unquoteChar?_codePointEscape (c : Char) (rest : List Char) :
    unquoteChar? (codePointEscape c ++ rest) = some (c, rest) := by
  have hrun : IsRun (· != '\x7d') (Nat.toDigits 16 c.toNat) ('\x7d' :: rest) :=
    isRun_until (not_mem_toDigits_hex _ (by decide)) rest
  have htext : codePointEscape c ++ rest =
      '\\' :: 'u' :: '\x7b' :: (Nat.toDigits 16 c.toNat ++ '\x7d' :: rest) := by
    simp [codePointEscape]
  rw [htext, unquoteChar?]
  simp only [hrun.takeWhile_append, hexValue_toDigits, Char.ofNat_toNat]
  simp

/-- Each character is read back from the way it is written. -/
theorem unquoteChar?_quoteChar (c : Char) (rest : List Char) :
    unquoteChar? (quoteChar c ++ rest) = some (c, rest) := by
  unfold quoteChar
  split_ifs with hnull htab hreturn hfeed hquote hbackslash hprintable
  · rw [hnull]; rfl
  · rw [htab]; rfl
  · rw [hreturn]; rfl
  · rw [hfeed]; rfl
  · rw [hquote]; rfl
  · rw [hbackslash]; rfl
  · rw [List.singleton_append, unquoteChar?]
    all_goals simp [hbackslash]
  · exact unquoteChar?_codePointEscape c rest

theorem isLine_codePoint (n : Nat) : IsLine ('u' :: '\x7b' :: (Nat.toDigits 16 n ++ ['\x7d'])) := by
  have hfeed := not_mem_toDigits_hex n (c := '\n') (by decide)
  have hreturn := not_mem_toDigits_hex n (c := '\r') (by decide)
  simp [IsLine, hfeed, hreturn]

/-- A character is written as it is or behind a backslash, without a line end. -/
theorem quoteChar_cases (c : Char) : (quoteChar c = [c] ∧ c ≠ '"' ∧ IsLine [c]) ∨
    ∃ tail, quoteChar c = '\\' :: tail ∧ IsLine tail := by
  unfold quoteChar
  split_ifs with hnull htab hreturn hfeed hquote hbackslash hprintable
  · exact .inr ⟨_, rfl, by decide⟩
  · exact .inr ⟨_, rfl, by decide⟩
  · exact .inr ⟨_, rfl, by decide⟩
  · exact .inr ⟨_, rfl, by decide⟩
  · exact .inr ⟨_, rfl, by decide⟩
  · exact .inr ⟨_, rfl, by decide⟩
  · exact .inl ⟨rfl, hquote, by simp [IsLine, Ne.symm hfeed, Ne.symm hreturn]⟩
  · exact .inr ⟨_, rfl, isLine_codePoint _⟩

theorem quoteChar_append_ne (c : Char) (cs rest : List Char) : quoteChar c ++ cs ≠ '"' :: rest := by
  intro h
  rcases quoteChar_cases c with ⟨hself, hquote, -⟩ | ⟨tail, hescaped, -⟩
  · rw [hself] at h
    exact hquote (List.cons.inj h).1
  · rw [hescaped] at h
    exact absurd (List.cons.inj h).1 (by decide)

theorem isLine_quoteChar (c : Char) : IsLine (quoteChar c) := by
  rcases quoteChar_cases c with ⟨hself, -, hline⟩ | ⟨tail, hescaped, hline⟩
  · rwa [hself]
  · rw [hescaped, isLine_cons]
    exact ⟨by decide, hline⟩

/-- A quoted text ends at its closing quote. -/
theorem quoted_append_inj : ∀ {s t rest more : List Char},
    s.flatMap quoteChar ++ '"' :: rest = t.flatMap quoteChar ++ '"' :: more → s = t ∧ rest = more
  | [], [], _, _, h => ⟨rfl, (List.cons.inj h).2⟩
  | [], c :: t, _, _, h => by
    rw [List.flatMap_cons, List.append_assoc] at h
    exact absurd h.symm (quoteChar_append_ne _ _ _)
  | c :: s, [], _, _, h => by
    rw [List.flatMap_cons, List.append_assoc] at h
    exact absurd h (quoteChar_append_ne _ _ _)
  | c :: s, d :: t, _, _, h => by
    rw [List.flatMap_cons, List.flatMap_cons, List.append_assoc, List.append_assoc] at h
    have hread := congrArg unquoteChar? h
    rw [unquoteChar?_quoteChar, unquoteChar?_quoteChar] at hread
    obtain ⟨rfl, hrest⟩ := Prod.mk.inj (Option.some.inj hread)
    obtain ⟨rfl, hmore⟩ := quoted_append_inj hrest
    exact ⟨rfl, hmore⟩

theorem isLine_quote (s : String) : IsLine (quote s).toList := by
  have hbody : IsLine (s.toList.flatMap quoteChar) := by
    induction s.toList with
    | nil => exact isLine_nil
    | cons c cs ih => exact isLine_append.mpr ⟨isLine_quoteChar c, ih⟩
  rw [quote, String.toList_ofList, isLine_append, isLine_cons]
  exact ⟨⟨by decide, hbody⟩, by decide⟩

/-- What follows a quoted text is told from it. -/
theorem quote_append_inj {s t : String} {rest more : List Char}
    (h : (quote s).toList ++ rest = (quote t).toList ++ more) : s = t ∧ rest = more := by
  simp only [quote, String.toList_ofList, List.cons_append, List.append_assoc, List.nil_append,
    List.cons.injEq, true_and] at h
  obtain ⟨htext, hrest⟩ := quoted_append_inj h
  exact ⟨String.toList_inj.mp htext, hrest⟩

end KanaScript.Text
