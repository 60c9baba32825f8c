import KanaScript.Proofs.C.Spelling

/-! Escapes are undone.  What a literal stands for is the text it was made from, a character at a
time, and the body of a literal has nothing in it that would end the literal or the line. -/

namespace KanaScript.C

section Unescaping

/-- What a character stands for after a backslash. -/
def escapes : List (Char × Char) :=
  [('\\', '\\'), ('"', '"'), ('\'', '\''), ('n', '\n'), ('t', '\t'), ('r', '\r')]

/-- The text that the body of a literal stands for. -/
def unescape? : List Char → Option (List Char)
  | [] => some []
  | '\\' :: d :: cs => (escapes.lookup d).bind fun c => (unescape? cs).map fun text => c :: text
  | c :: cs => if c = '\\' then none else (unescape? cs).map fun text => c :: text

/-- The character that the body of a character literal stands for. -/
def charValue? (body : List Char) : Option Char :=
  if body = ['\\', '0'] then some '\x00'
  else
    match unescape? body with
    | some [c] => some c
    | _ => none

/-- The characters that stand for `c` between quotes `quote`: itself, or an escape. -/
inductive StandsFor (quote c : Char) : List Char → Prop
  | plain (h : c ∉ [quote, '\\', '\n', '\t', '\r']) : StandsFor quote c [c]
  | escape {d : Char} (h : escapes.lookup d = some c) : StandsFor quote c ['\\', d]

theorem standsFor_escapeInString (c : Char) : StandsFor '"' c (escapeInString c) := by
  unfold escapeInString
  split
  · subst c
    exact .escape rfl
  split
  · subst c
    exact .escape rfl
  split
  · subst c
    exact .escape rfl
  split
  · subst c
    exact .escape rfl
  split
  · subst c
    exact .escape rfl
  · exact .plain (by simp [*])

theorem standsFor_escapeAsChar (c : Char) : StandsFor '\'' c (escapeAsChar c) := by
  unfold escapeAsChar
  split
  · subst c
    exact .escape rfl
  split
  · subst c
    exact .escape rfl
  split
  · subst c
    exact .escape rfl
  split
  · subst c
    exact .escape rfl
  split
  · subst c
    exact .escape rfl
  · exact .plain (by simp [*])

section Pieces

variable {quote c : Char} {cs : List Char}

theorem StandsFor.unescape?_append (h : StandsFor quote c cs) (rest : List Char) :
    unescape? (cs ++ rest) = (unescape? rest).map fun text => c :: text := by
  cases h with
  | plain hc =>
    have hb : c ≠ '\\' := fun heq => hc (by simp [heq])
    rw [List.singleton_append, unescape?.eq_3]
    · simp [hb]
    · rintro d more hcons -
      exact hb hcons
  | escape hd => simp [unescape?, hd]

/-- An escape is written with a character that needs none. -/
theorem StandsFor.control_not_mem (h : StandsFor quote c cs) :
    ∀ d ∈ ['\n', '\t', '\r'], d ∉ cs := by
  cases h with
  | plain hc =>
    intro d hd hmem
    rw [List.mem_singleton.mp hmem] at hd
    exact hc (List.mem_cons_of_mem _ (List.mem_cons_of_mem _ hd))
  | escape hc =>
    have harmless : ∀ entry ∈ escapes, entry.1 ∉ ['\n', '\t', '\r'] := by simp [escapes]
    obtain ⟨before, after, htable, -⟩ := List.lookup_eq_some_iff.mp hc
    intro d hd hmem
    rcases List.mem_cons.mp hmem with rfl | hmem
    · exact absurd hd (by decide)
    · rw [List.mem_singleton.mp hmem] at hd
      exact harmless _ (htable ▸ List.mem_append_right _ List.mem_cons_self) hd

/-- A quote belongs to an escape. -/
theorem StandsFor.before_quote {before more : List Char} (h : StandsFor '"' c cs)
    (heq : cs = before ++ '"' :: more) : before = ['\\'] := by
  cases h with
  | plain hc =>
    have hquote : '"' ∈ [c] := heq ▸ List.mem_append_right _ List.mem_cons_self
    exact absurd (List.mem_singleton.mp hquote ▸ List.mem_cons_self) hc
  | escape hd =>
    match before with
    | [] => simp at heq
    | [b] => simpa using (List.cons.inj heq).1.symm
    | b :: b' :: before => simp at heq

end Pieces

theorem unescape?_flatMap {quote : Char} {escape : Char → List Char}
    (h : ∀ c, StandsFor quote c (escape c)) (text : List Char) :
    unescape? (text.flatMap escape) = some text := by
  induction text with
  | nil => rfl
  | cons c text ih => rw [List.flatMap_cons, (h c).unescape?_append, ih, Option.map_some]

theorem charValue?_charBody (text : String) :
    charValue? (charBody text).toList = some (text.toList.headD '\x00') := by
  unfold charBody
  split
  · rename_i htext
    rw [htext]
    rfl
  · rename_i c cs htext
    rw [htext, String.toList_ofList]
    have hvalue : unescape? (escapeAsChar c) = some [c] := by
      simpa using unescape?_flatMap standsFor_escapeAsChar [c]
    have hnull : escapeAsChar c ≠ ['\\', '0'] := by
      intro heq
      rw [heq] at hvalue
      cases hvalue
    simp [charValue?, hnull, hvalue]

end Unescaping

section Quotes

/-- How many backslashes the text ends with. -/
def trailingBackslashes (cs : List Char) : Nat := (cs.reverse.takeWhile (· == '\\')).length

/-- A character that was written whole leaves what follows as it is: it ends in no backslash, or in
two. -/
theorem StandsFor.trailingBackslashes_append {quote c : Char} {cs : List Char}
    (h : StandsFor quote c cs) (rest : List Char) :
    trailingBackslashes (cs ++ rest) % 2 = trailingBackslashes rest % 2 := by
  have reach : ∀ d : Char, ((['\\', d].reverse.takeWhile (· == '\\')).length) % 2 = 0 := by
    intro d
    by_cases hd : d = '\\'
    · simp [hd]
    · simp [hd]
  unfold trailingBackslashes
  rw [List.reverse_append, List.takeWhile_append]
  split
  · rename_i hall
    rw [List.length_append, hall]
    cases h with
    | plain hc =>
      have hb : c ≠ '\\' := fun heq => hc (by simp [heq])
      simp [hb]
    | @escape d hd =>
      have := reach d
      omega
  · rfl

/-- A quote in an escaped text has a backslash of its own before it. -/
theorem odd_trailingBackslashes {text before after : List Char}
    (h : text.flatMap escapeInString = before ++ '"' :: after) :
    trailingBackslashes before % 2 = 1 := by
  induction text generalizing before with
  | nil => simp at h
  | cons c text ih =>
    rw [List.flatMap_cons, List.append_eq_append_iff] at h
    rcases h with ⟨more, rfl, hmore⟩ | ⟨more, hmore, hrest⟩
    · rw [(standsFor_escapeInString c).trailingBackslashes_append]
      exact ih hmore
    · cases more with
      | nil =>
        -- The quote is the first character of what follows.
        exact absurd (@ih [] hrest.symm) (by decide)
      | cons d more =>
        obtain ⟨rfl, -⟩ := List.cons.inj hrest
        rw [(standsFor_escapeInString c).before_quote hmore]
        rfl

/-- The body of a string literal that stands for `text`. -/
structure IsBody (text body : List Char) : Prop where
  value : unescape? body = some text
  noLineFeed : '\n' ∉ body
  noReturn : '\r' ∉ body
  noTab : '\t' ∉ body
  /-- An odd number of backslashes right before a quote: the last one escapes it. -/
  quotesEscaped : ∀ before after, body = before ++ '"' :: after →
    trailingBackslashes before % 2 = 1
  /-- Whatever follows the closing quote, the literal ends there. -/
  closes : ∀ rest, literalTail? '"' false (body ++ '"' :: rest) = some (body ++ ['"'])

theorem isBody_stringBody (text : String) : IsBody text.toList (stringBody text).toList := by
  have control : ∀ d ∈ ['\n', '\t', '\r'], d ∉ text.toList.flatMap escapeInString := by
    intro d hd hmem
    obtain ⟨c, -, hc⟩ := List.mem_flatMap.mp hmem
    exact (standsFor_escapeInString c).control_not_mem d hd hc
  have pieces : ∀ piece ∈ text.toList.map escapeInString, Piece '"' piece :=
    List.forall_mem_map.mpr fun c _ => piece_escapeInString c
  rw [stringBody, String.toList_ofList]
  exact {
    value := unescape?_flatMap standsFor_escapeInString text.toList
    noLineFeed := control _ (by decide)
    noReturn := control _ (by decide)
    noTab := control _ (by decide)
    quotesEscaped := fun _ _ h => odd_trailingBackslashes h
    closes := by
      rw [List.flatMap_def]
      exact literalTail?_pieces (by decide) (by decide) pieces }

end Quotes

section Replacement

/-- The text with `c` replaced wherever it stands. -/
def replaceChar (c : Char) (new text : List Char) : List Char :=
  text.flatMap fun d => if d = c then new else [d]

/-- The escapes may be put in one kind after the other, if the backslash comes first. -/
theorem stringBody_eq_replaceChar (text : String) :
    (stringBody text).toList =
      replaceChar '\r' ['\\', 'r'] (replaceChar '\t' ['\\', 't'] (replaceChar '\n' ['\\', 'n']
        (replaceChar '"' ['\\', '"'] (replaceChar '\\' ['\\', '\\'] text.toList)))) := by
  rw [stringBody, String.toList_ofList]
  simp only [replaceChar, List.flatMap_assoc]
  congr 1
  funext c
  unfold escapeInString
  split
  · simp [*]
  split
  · simp [*]
  split
  · simp [*]
  split
  · simp [*]
  split
  · simp [*]
  · simp [*]

end Replacement

end KanaScript.C
