import KanaScript.C.Literal
import KanaScript.C.Name
import KanaScript.Number.Basic
import KanaScript.Proofs.C.Lexer
import KanaScript.Proofs.Text.Digits
import KanaScript.Proofs.Text.Run

/-! How the pieces of an emitted text are cut: blanks, names, numbers, literals and operators, each
with whatever text may follow it. -/

namespace KanaScript.C

/-- The text with `rest` after it is cut into `ts` and then what `rest` is cut into. -/
def Cuts (text : List Char) (ts : List Token) (rest : List Char) : Prop :=
  tokens? false (text ++ rest) = (tokens? false rest).map fun others => ts ++ others

theorem Cuts.nil {rest : List Char} : Cuts [] [] rest := by
  simp [Cuts]

theorem Cuts.append {a b rest : List Char} {xs ys : List Token} (first : Cuts a xs (b ++ rest))
    (second : Cuts b ys rest) : Cuts (a ++ b) (xs ++ ys) rest := by
  unfold Cuts at *
  rw [List.append_assoc, first, second, Option.map_map]
  simp [Function.comp_def]

/-- A token that the text starts with is cut off. -/
theorem cuts_token {c : Char} {cs rest : List Char} {token : Token} (hs : isSpace c = false)
    (hc : comment (c :: cs ++ rest) = []) (ht : first? c (cs ++ rest) = some token)
    (hl : token.text = String.ofList (c :: cs)) : Cuts (c :: cs) [token] rest := by
  have hc : comment (c :: (cs ++ rest)) = [] := hc
  rw [Cuts, List.cons_append, tokens?]
  simp [hs, hc, ht, hl]

theorem cuts_space {rest : List Char} : Cuts [' '] [] rest := by
  rw [Cuts, List.cons_append, tokens?]
  simp [isSpace]

theorem comment_eq_nil {c : Char} {cs : List Char} (h : c ≠ '/') : comment (c :: cs) = [] := by
  rw [comment.eq_3]
  · simp_all
  · simp_all

/-- The text starts with a token, and with no directive. -/
def Leads (cs : List Char) : Prop :=
  ∃ c more, cs = c :: more ∧ isSpace c = false ∧ c ≠ '#' ∧ c ≠ '/'

theorem Leads.append {a : List Char} (h : Leads a) (b : List Char) : Leads (a ++ b) := by
  obtain ⟨c, more, rfl, hc⟩ := h
  exact ⟨c, more ++ b, rfl, hc⟩

/-- Where no directive starts, it does not matter whether the line is fresh. -/
theorem Leads.tokens?_eq {cs : List Char} (h : Leads cs) : tokens? true cs = tokens? false cs := by
  obtain ⟨c, more, rfl, hs, hh, hc⟩ := h
  rw [tokens?, tokens?]
  simp [hs, hh, comment_eq_nil hc]

/-- Nothing in front could go on with a word or a number. -/
def Ends (rest : List Char) : Prop := ∀ c ∈ rest.head?, Text.continuesName c = false ∧ c ≠ '.'

/-! ### Names -/

/-- No character of a class that has no white space is one. -/
theorem isSpace_eq_false {p : Char → Bool} {c : Char} (h : p c = true)
    (hp : [' ', '\t', '\n', '\r', '\x0b', '\x0c'].any p = false) : isSpace c = false := by
  rw [Bool.eq_false_iff]
  intro hs
  have hmem : c ∈ [' ', '\t', '\n', '\r', '\x0b', '\x0c'] := List.contains_iff_mem.mp hs
  exact List.any_eq_false.mp hp c hmem h

theorem ne_of_class {p : Char → Bool} {c d : Char} (h : p c = true) (hd : p d = false) :
    c ≠ d := by
  rintro rfl
  rw [h] at hd
  cases hd

theorem cuts_word {text rest : List Char} (h : Text.isIdentifier text = true) (hr : Ends rest) :
    Cuts text [.word (String.ofList text)] rest := by
  cases text with
  | nil => simp [Text.isIdentifier] at h
  | cons c cs =>
    simp only [Text.isIdentifier, Bool.and_eq_true, List.all_eq_true] at h
    obtain ⟨hc, hcs⟩ := h
    have htail : (cs ++ rest).takeWhile Text.continuesName = cs :=
      Text.IsRun.takeWhile_append ⟨hcs, fun c hc => (hr c hc).1⟩
    have hslash : c ≠ '/' := by
      rintro rfl
      exact absurd hc (by decide)
    refine cuts_token (isSpace_eq_false hc (by decide)) (comment_eq_nil hslash) ?_ rfl
    simp [first?, hc, htail]

theorem continuesName_of_startsName {c : Char} (h : Text.startsName c = true) :
    Text.continuesName c = true := by
  simp only [Text.startsName, Text.continuesName, Char.isAlphanum, Bool.or_eq_true] at h ⊢
  rcases h with h | h
  · exact .inl (.inl h)
  · exact .inr h

theorem startsName_of_isDigit {c : Char} (h : c.isDigit = true) : Text.startsName c = false := by
  refine Bool.eq_false_iff.mpr fun hname => ?_
  have hdigit : c.toNat ≤ '9'.toNat := (Char.isDigit_iff_toNat.mp h).2
  exact absurd (Nat.lt_of_lt_of_le (Text.lt_of_startsName hname).1 hdigit) (by decide)

/-- Letters and underscores, at least one. -/
def Letters (cs : List Char) : Prop := cs ≠ [] ∧ ∀ c ∈ cs, Text.startsName c = true

instance (cs : List Char) : Decidable (Letters cs) :=
  have : Decidable (∀ c ∈ cs, Text.startsName c = true) := List.decidableBAll _ cs
  inferInstanceAs (Decidable (_ ∧ _))

theorem Letters.isIdentifier : ∀ {cs : List Char}, Letters cs → Text.isIdentifier cs = true
  | [], h => absurd rfl h.1
  | c :: cs, h => by
    simp only [Text.isIdentifier, Bool.and_eq_true, List.all_eq_true]
    exact ⟨h.2 c List.mem_cons_self, fun d hd =>
      continuesName_of_startsName (h.2 d (List.mem_cons_of_mem c hd))⟩

theorem letters_of_lookup {α : Type} [BEq α] [LawfulBEq α] {table : List (α × String)} {key : α}
    {letters : String} (ht : ∀ pair ∈ table, Letters pair.2.toList)
    (h : table.lookup key = some letters) : Letters letters.toList := by
  obtain ⟨before, after, rfl, -⟩ := List.lookup_eq_some_iff.mp h
  exact ht (key, letters) (by simp)

theorem letters_syllable (c : Char) : Letters (syllable c) := by
  have hs : ∀ pair ∈ syllables, Letters pair.2.toList := by decide
  unfold syllable
  cases h : syllables.lookup c with
  | none => simpa using (by decide : Letters "_".toList)
  | some letters => exact letters_of_lookup hs h

theorem Letters.append {a b : List Char} (ha : Letters a) (hb : ∀ c ∈ b, Text.startsName c = true) :
    Letters (a ++ b) := by
  refine ⟨by simp [ha.1], fun c hc => ?_⟩
  rcases List.mem_append.mp hc with hc | hc
  · exact ha.2 c hc
  · exact hb c hc

theorem romanize_letters (cs : List Char) :
    (∀ c ∈ romanize cs, Text.startsName c = true) ∧ (cs ≠ [] → romanize cs ≠ []) := by
  have hd : ∀ pair ∈ digraphs, Letters pair.2.toList := by decide
  fun_induction romanize cs with
  | case1 => simp
  | case2 c => exact ⟨(letters_syllable c).2, fun _ => (letters_syllable c).1⟩
  | case3 c d cs letters h ih =>
    have hl := (letters_of_lookup hd h).append ih.1
    exact ⟨hl.2, fun _ => hl.1⟩
  | case4 c d cs h ih =>
    have hl := (letters_syllable c).append ih.1
    exact ⟨hl.2, fun _ => hl.1⟩

/-- No name is romanized to a digit in front, and only the empty one to nothing. -/
theorem romanName_eq (name : List Char) :
    romanName name = if name.isEmpty then placeholder else romanize name := by
  obtain ⟨hletters, hne⟩ := romanize_letters name
  have hdigit : (romanize name).head?.any Char.isDigit = false := by
    cases hroman : romanize name with
    | nil => rfl
    | cons c letters =>
      have hc := hletters c (hroman ▸ List.mem_cons_self)
      exact Bool.eq_false_iff.mpr fun hdigit =>
        Bool.false_ne_true ((startsName_of_isDigit hdigit).symm.trans hc)
  rw [romanName, hdigit]
  cases name with
  | nil => rfl
  | cons c cs => simp [hne]

/-- The reserved names are identifiers themselves. -/
theorem identifier_eq (name : String) : identifier name =
    if Text.isIdentifier name.toList then name else String.ofList (romanName name.toList) := by
  have hreserved : ∀ name ∈ reservedNames, Text.isIdentifier name.toList = true := by decide
  rw [identifier]
  by_cases hmem : name ∈ reservedNames
  · simp [hreserved name hmem]
  · simp [hmem]

/-- Every name is written as an identifier. -/
theorem isIdentifier_identifier (name : String) :
    Text.isIdentifier (identifier name).toList = true := by
  rw [identifier_eq]
  split
  · assumption
  · rw [String.toList_ofList, romanName_eq]
    split
    · decide
    · rename_i h
      obtain ⟨hl, hn⟩ := romanize_letters name.toList
      exact Letters.isIdentifier ⟨hn (by simpa using h), hl⟩

/-! ### Operators and brackets -/

/-- Whether a token that starts with `c` is an operator or a bracket. -/
def startsMark (c : Char) : Bool :=
  !isSpace c && !Text.startsName c && !c.isDigit && !(['.', '"', '\''].contains c)

theorem cuts_mark {c : Char} {cs rest : List Char} {m : String} (hm : m.toList = c :: cs)
    (hs : startsMark c = true) (hc : comment (c :: cs ++ rest) = [])
    (h : mark? (c :: cs ++ rest) = some m) : Cuts m.toList [.mark m] rest := by
  simp only [startsMark, Bool.and_eq_true, Bool.not_eq_true', List.contains_eq_mem,
    decide_eq_false_iff_not, List.mem_cons, List.not_mem_nil, or_false, not_or] at hs
  obtain ⟨⟨⟨hspace, hname⟩, hdigit⟩, hpoint, hquote, hapostrophe⟩ := hs
  rw [hm]
  refine cuts_token hspace hc ?_ (by rw [← hm, String.ofList_toList]; rfl)
  have h : mark? (c :: (cs ++ rest)) = some m := h
  simp [first?, hname, hdigit, hpoint, hquote, hapostrophe, h]

/-- A bracket or a comma is cut off whatever follows. -/
theorem cuts_bracket {m : String} (hm : m ∈ ["(", ")", "[", "]", ",", ";", "\x7b", "\x7d"])
    (rest : List Char) : Cuts m.toList [.mark m] rest := by
  simp only [List.mem_cons, List.not_mem_nil, or_false] at hm
  rcases hm with rfl | rfl | rfl | rfl | rfl | rfl | rfl | rfl <;>
    exact cuts_mark rfl (by decide) rfl rfl

theorem cuts_doubled {m : String} (hm : m ∈ ["++", "--"]) (rest : List Char) :
    Cuts m.toList [.mark m] rest := by
  simp only [List.mem_cons, List.not_mem_nil, or_false] at hm
  rcases hm with rfl | rfl <;> exact cuts_mark rfl (by decide) rfl rfl

/-- An operator with a blank after it is cut off. -/
theorem cuts_spaced {m : String} (hm : m ∈ ["=", "||", "&&", "==", "!=", "<", ">", "<=", ">=", "+",
    "-", "*", "/", "%"]) (rest : List Char) : Cuts m.toList [.mark m] (' ' :: rest) := by
  simp only [List.mem_cons, List.not_mem_nil, or_false] at hm
  rcases hm with rfl | rfl | rfl | rfl | rfl | rfl | rfl | rfl | rfl | rfl | rfl | rfl | rfl |
      rfl <;>
    exact cuts_mark rfl (by decide) rfl rfl

theorem cuts_not {c : Char} {rest : List Char} (h : c ≠ '=') :
    Cuts "!".toList [.mark "!"] (c :: rest) := by
  have hm : mark? ('!' :: c :: rest) = some "!" := by
    simp [mark?, marks, List.isPrefixOf, h.symm]
  exact cuts_mark rfl (by decide) rfl hm

theorem cuts_minus {c : Char} {rest : List Char} (h : c ∉ ['-', '=', '>']) :
    Cuts "-".toList [.mark "-"] (c :: rest) := by
  simp only [List.mem_cons, List.not_mem_nil, or_false, not_or] at h
  have hm : mark? ('-' :: c :: rest) = some "-" := by
    simp [mark?, marks, List.isPrefixOf, Ne.symm h.1, Ne.symm h.2.1, Ne.symm h.2.2]
  exact cuts_mark rfl (by decide) rfl hm

/-! ### Numbers -/

/-- Digits and points, a digit first. -/
def Decimal (cs : List Char) : Prop :=
  ∃ c more, cs = c :: more ∧ c.isDigit = true ∧ ∀ d ∈ more, d.isDigit = true ∨ d = '.'

theorem Decimal.append {cs more : List Char} (h : Decimal cs)
    (hm : ∀ d ∈ more, d.isDigit = true ∨ d = '.') : Decimal (cs ++ more) := by
  obtain ⟨c, cs, rfl, hc, hcs⟩ := h
  refine ⟨c, cs ++ more, rfl, hc, fun d hd => ?_⟩
  rcases List.mem_append.mp hd with hd | hd
  · exact hcs d hd
  · exact hm d hd

theorem decimal_repr (n : Nat) : Decimal (Nat.repr n).toList := by
  cases h : (Nat.repr n).toList with
  | nil => exact absurd (String.toList_injective (h.trans rfl)) (Nat.repr_ne_empty)
  | cons c more =>
    have hd : ∀ d ∈ c :: more, d.isDigit = true := fun d hd =>
      Text.isDigit_of_mem_repr (h ▸ hd)
    exact ⟨c, more, rfl, hd c List.mem_cons_self,
      fun d hm => .inl (hd d (List.mem_cons_of_mem c hm))⟩

theorem isDigit_of_mem_pushn {n : Nat} {c : Char} (h : c ∈ ("".pushn '0' n).toList) :
    c.isDigit = true := by
  rw [String.pushn_eq_repeat_push] at h
  induction n with
  | zero => simp [Nat.repeat] at h
  | succ n ih =>
    simp only [Nat.repeat, String.toList_push, List.mem_append, List.mem_singleton] at h
    rcases h with h | rfl
    · exact ih h
    · decide

theorem decimal_pointed (n places : Nat) : Decimal (Double.pointed n places).toList := by
  simp only [Double.pointed, String.toList_append, List.append_assoc]
  refine (decimal_repr _).append fun d hd => ?_
  rcases List.mem_append.mp hd with hd | hd
  · exact .inr (by simpa using hd)
  · rcases List.mem_append.mp hd with hd | hd
    · exact .inl (isDigit_of_mem_pushn hd)
    · exact .inl (Text.isDigit_of_mem_repr hd)

theorem decimal_magnitudeText (mantissa : Nat) (exponent : Int) :
    Decimal (Double.magnitudeText mantissa exponent).toList := by
  have point : ∀ d ∈ ".0".toList, d.isDigit = true ∨ d = '.' := by simp
  unfold Double.magnitudeText
  dsimp only
  split
  · rw [String.toList_append]
    exact (decimal_repr _).append point
  · split
    · rw [String.toList_append]
      exact (decimal_repr _).append point
    · exact decimal_pointed _ _

theorem startsName_of_exponent {c : Char} (h : ['e', 'E', 'p', 'P'].contains c = true) :
    Text.startsName c = true := by
  simp only [List.contains_eq_mem, List.mem_cons, List.not_mem_nil, or_false,
    decide_eq_true_eq] at h
  rcases h with rfl | rfl | rfl | rfl <;> decide

theorem numberTail_of_ends {rest : List Char} (hr : Ends rest) : numberTail rest = [] := by
  cases rest with
  | nil => rfl
  | cons c more =>
    obtain ⟨hn, hp⟩ := hr c rfl
    have hc : (Text.continuesName c || c == '.') = false := by simp [hn, hp]
    have he : ['e', 'E', 'p', 'P'].contains c = false := by
      rw [Bool.eq_false_iff]
      intro he
      rw [continuesName_of_startsName (startsName_of_exponent he)] at hn
      exact absurd hn (by decide)
    cases more with
    | nil => simp only [numberTail, hc, Bool.false_eq_true, if_false]
    | cons sign more =>
      simp only [numberTail, he, hc, Bool.false_and, Bool.false_eq_true, if_false]

theorem numberTail_append {cs rest : List Char} (h : ∀ d ∈ cs, d.isDigit = true ∨ d = '.')
    (hr : Ends rest) : numberTail (cs ++ rest) = cs := by
  induction cs with
  | nil => exact numberTail_of_ends hr
  | cons c cs ih =>
    have ih := ih fun d hd => h d (List.mem_cons_of_mem c hd)
    have hd := h c List.mem_cons_self
    have hc : (Text.continuesName c || c == '.') = true := by
      rcases hd with hd | rfl
      · simp [Text.continuesName, Char.isAlphanum, hd]
      · decide
    have he : ['e', 'E', 'p', 'P'].contains c = false := by
      rw [Bool.eq_false_iff]
      intro he
      have hn := startsName_of_exponent he
      rcases hd with hd | rfl
      · rw [startsName_of_isDigit hd] at hn
        exact absurd hn (by decide)
      · exact absurd hn (by decide)
    rw [List.cons_append]
    cases hm : cs ++ rest with
    | nil =>
      rw [hm] at ih
      rw [← ih]
      simp only [numberTail, hc, if_true]
    | cons sign more =>
      rw [hm] at ih
      simp only [numberTail, he, hc, Bool.false_and, Bool.false_eq_true, if_false, if_true, ih]

/-- A number without its sign, or a word that stands for what is no number. -/
def Unsigned (cs : List Char) : Prop := Decimal cs ∨ cs = "inf".toList ∨ cs = "NaN".toList

def unsignedToken (cs : List Char) : Token :=
  if startsWithDigit cs then .number (String.ofList cs) else .word (String.ofList cs)

theorem cuts_unsigned {cs rest : List Char} (h : Unsigned cs) (hr : Ends rest) :
    Cuts cs [unsignedToken cs] rest := by
  rcases h with ⟨c, more, rfl, hc, hm⟩ | rfl | rfl
  · refine cuts_token (isSpace_eq_false hc (by decide))
      (comment_eq_nil (ne_of_class hc (by decide))) ?_ ?_
    · simp [first?, startsName_of_isDigit hc, hc, numberTail_append hm hr, unsignedToken,
        startsWithDigit]
    · simp [unsignedToken, startsWithDigit, hc, Token.text]
  · exact cuts_word (by decide) hr
  · exact cuts_word (by decide) hr

/-- A number is written as its digits, or as one of two words, with or without a sign. -/
theorem number_text (value : Number) : ∃ cs, Unsigned cs ∧
    (value.text.toList = cs ∨ value.text.toList = '-' :: cs) := by
  cases value with
  | int n =>
    simp only [Number.text, Int.repr_eq_if]
    split
    · exact ⟨_, .inl (decimal_repr n.toNat), .inl rfl⟩
    · exact ⟨_, .inl (decimal_repr (-n).toNat), .inr (by simp)⟩
  | real x =>
    simp only [Number.text, Double.text]
    split
    · exact ⟨_, .inr (.inr rfl), .inl rfl⟩
    · split
      · exact ⟨_, .inr (.inl rfl), .inr rfl⟩
      · exact ⟨_, .inr (.inl rfl), .inl rfl⟩
    · rename_i mantissa exponent _
      refine ⟨_, .inl (decimal_magnitudeText mantissa exponent), ?_⟩
      split
      · exact .inr (by simp)
      · exact .inl (by simp)

/-! ### Literals -/

/-- One character of a literal as it is written between quotes `quote`: as itself, or escaped. -/
inductive Piece (quote : Char) : List Char → Prop
  | plain {c : Char} (hq : c ≠ quote) (hn : c ≠ '\n') (hb : c ≠ '\\') : Piece quote [c]
  | escaped {c : Char} (hn : c ≠ '\n') : Piece quote ['\\', c]

theorem literalTail?_pieces {quote : Char} {pieces : List (List Char)} (hq : quote ≠ '\\')
    (hl : quote ≠ '\n') (h : ∀ piece ∈ pieces, Piece quote piece) (rest : List Char) :
    literalTail? quote false (pieces.flatten ++ quote :: rest) =
      some (pieces.flatten ++ [quote]) := by
  induction pieces with
  | nil => simp [literalTail?, hl]
  | cons piece pieces ih =>
    have ih := ih fun piece hp => h piece (List.mem_cons_of_mem _ hp)
    rw [List.flatten_cons, List.append_assoc]
    cases h piece List.mem_cons_self with
    | plain hc hn hb => simp [literalTail?, hc, hn, beq_false_of_ne hb, ih]
    | escaped hn => simp [literalTail?, hq.symm, hn, ih]

theorem cuts_literal {quote : Char} {text : String} {pieces : List (List Char)}
    (hq : quote = '"' ∨ quote = '\'') (h : ∀ piece ∈ pieces, Piece quote piece)
    (ht : text.toList = quote :: (pieces.flatten ++ [quote])) (rest : List Char) :
    Cuts text.toList [.literal text] rest := by
  have hb : quote ≠ '\\' := by rcases hq with rfl | rfl <;> decide
  have hl : quote ≠ '\n' := by rcases hq with rfl | rfl <;> decide
  have hs : quote ≠ '/' := by rcases hq with rfl | rfl <;> decide
  have hspace : isSpace quote = false := by rcases hq with rfl | rfl <;> decide
  have hname : Text.startsName quote = false := by rcases hq with rfl | rfl <;> decide
  have hdigit : quote.isDigit = false := by rcases hq with rfl | rfl <;> decide
  have hpoint : quote ≠ '.' := by rcases hq with rfl | rfl <;> decide
  have hof : String.ofList (quote :: (pieces.flatten ++ [quote])) = text := by
    rw [← ht, String.ofList_toList]
  rw [ht]
  refine cuts_token hspace (comment_eq_nil hs) ?_ hof.symm
  simp [first?, hname, hdigit, hpoint, hq, literalTail?_pieces hb hl h, -String.ofList_cons,
    -String.ofList_append, hof]

theorem piece_escapeInString (c : Char) : Piece '"' (escapeInString c) := by
  unfold escapeInString
  split
  · exact .escaped (by decide)
  split
  · exact .escaped (by decide)
  split
  · exact .escaped (by decide)
  split
  · exact .escaped (by decide)
  split
  · exact .escaped (by decide)
  · exact .plain ‹_› ‹_› ‹_›

theorem piece_escapeAsChar (c : Char) : Piece '\'' (escapeAsChar c) := by
  unfold escapeAsChar
  split
  · exact .escaped (by decide)
  split
  · exact .escaped (by decide)
  split
  · exact .escaped (by decide)
  split
  · exact .escaped (by decide)
  split
  · exact .escaped (by decide)
  · exact .plain ‹_› ‹_› ‹_›

theorem exists_pieces_stringLiteral (text : String) : ∃ pieces : List (List Char),
    (∀ piece ∈ pieces, Piece '"' piece) ∧
      (stringLiteral text).toList = '"' :: (pieces.flatten ++ ['"']) := by
  refine ⟨text.toList.map escapeInString, fun piece hp => ?_, ?_⟩
  · obtain ⟨c, -, rfl⟩ := List.mem_map.mp hp
    exact piece_escapeInString c
  · simp [stringLiteral, stringBody, List.flatMap_def]

theorem exists_pieces_charLiteral (text : String) : ∃ pieces : List (List Char),
    (∀ piece ∈ pieces, Piece '\'' piece) ∧
      (charLiteral text).toList = '\'' :: (pieces.flatten ++ ['\'']) := by
  unfold charLiteral charBody
  split
  · exact ⟨[['\\', '0']], by simpa using .escaped (by decide), rfl⟩
  · rename_i c cs _
    exact ⟨[escapeAsChar c], by simpa using piece_escapeAsChar c, by simp⟩

theorem cuts_stringLiteral (text : String) (rest : List Char) :
    Cuts (stringLiteral text).toList [.literal (stringLiteral text)] rest := by
  obtain ⟨pieces, hpieces, htext⟩ := exists_pieces_stringLiteral text
  exact cuts_literal (.inl rfl) hpieces htext rest

theorem cuts_charLiteral (text : String) (rest : List Char) :
    Cuts (charLiteral text).toList [.literal (charLiteral text)] rest := by
  obtain ⟨pieces, hpieces, htext⟩ := exists_pieces_charLiteral text
  exact cuts_literal (.inr rfl) hpieces htext rest

end KanaScript.C
