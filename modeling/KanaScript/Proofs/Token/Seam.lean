import KanaScript.Proofs.Token.Cut

/-! Scanning up to a place in a text.  White space at that place keeps the tokens before it apart
from what follows: layout can be put between tokens, and the tokens are the same. -/

namespace KanaScript

open Layout (IsLayout Starts EndsOpen)

namespace Vocabulary

theorem bracket?_eq_none_of_append {text rest : List Char} (h : bracket? (text ++ rest) = none) :
    bracket? text = none := by
  rw [bracket?, List.find?_eq_none] at h ⊢
  intro bracket hmem hbegins
  have htext := List.isPrefixOf_iff_prefix.mp hbegins
  refine h bracket hmem (List.isPrefixOf_iff_prefix.mpr ?_)
  exact htext.trans (List.prefix_append text rest)

theorem bracket?_eq_some_of_append {text rest : List Char} {found : Bracket}
    (h : bracket? (text ++ rest) = some found) (hword : found.word <+: text) :
    bracket? text = some found := by
  rw [bracket?, List.find?_eq_some_iff_append] at h ⊢
  obtain ⟨-, longer, shorter, hbrackets, hlonger⟩ := h
  refine ⟨List.isPrefixOf_iff_prefix.mpr hword, longer, shorter, hbrackets, fun other hmem => ?_⟩
  have hother := hlonger other hmem
  rw [Bool.not_eq_true', ← Bool.not_eq_true, List.isPrefixOf_iff_prefix] at hother ⊢
  exact fun hbegins => hother (hbegins.trans (List.prefix_append text rest))

end Vocabulary

namespace Lexeme

open Vocabulary

/-- No word, name or number goes on with the character. -/
structure Breaks (c : Char) : Prop where
  word : Text.continuesWord c = false
  name : Text.continuesName c = false
  number : continuesNumber c = false

theorem breaks_of_isBlank {c : Char} (h : Text.isBlank c = true) : Breaks c := by
  simp only [Text.isBlank, Bool.or_eq_true, beq_iff_eq] at h
  rcases h with ((rfl | rfl) | rfl) | rfl <;> exact ⟨by decide, by decide, by decide⟩

/-- What follows a lexeme may be changed after a character that breaks it off, unless it is a
literal that only the end of the text has ended. -/
theorem Spelled.change {lexeme : Lexeme} {text rest other : List Char}
    (h : lexeme.Spelled (text ++ rest)) (hother : ∀ c ∈ other.head?, Breaks c)
    (hclosed : text ++ rest = [] → ∀ marks ∈ literalMarks, ∀ body : List Char,
      marks.2.2 ∉ body → lexeme.spelling ≠ marks.2.1 :: body) :
    lexeme.Spelled (text ++ other) := by
  have hword : ∀ c ∈ other.head?, Text.continuesWord c = false := fun c hc => (hother c hc).word
  cases h with
  | punctuation h => exact .punctuation h
  | closed marks hbody => exact .closed marks hbody
  | unclosed marks hbody last => exact absurd rfl (hclosed last _ marks _ hbody)
  | @bracket found h =>
    refine .bracket ?_
    rw [← List.append_assoc] at h ⊢
    rw [bracket?_append hword]
    exact bracket?_eq_some_of_append h (List.prefix_append _ _)
  | @word c cs kind payload hc run unbracketed meaning =>
    refine .word hc (run.change hword) ?_ meaning
    rw [← List.append_assoc] at unbracketed ⊢
    rw [bracket?_append hword]
    exact bracket?_eq_none_of_append unbracketed
  | name hc run => exact .name hc (run.change fun c hc => (hother c hc).name)
  | number hc run => exact .number hc (run.change fun c hc => (hother c hc).number)
  | unknown unmarked unquoted hkatakana hname hdigit =>
    exact .unknown unmarked unquoted hkatakana hname hdigit

end Lexeme

section Seam

variable {before text rest gap : List Char} {tokens : List Token}

/-- The tokens of `text`, which stands after `before` and in front of `rest`, with layout before
each of them and `gap` after the last. -/
inductive ScansTo (rest gap : List Char) : (before text : List Char) → List Token → Prop
  | gap {before : List Char} (hgap : IsLayout rest gap) : ScansTo rest gap before gap []
  | token {before lead text : List Char} {lexeme : Lexeme} {tokens : List Token}
      (hlead : IsLayout (lexeme.spelling ++ (text ++ rest)) lead)
      (hstarts : ¬Starts (lexeme.spelling ++ (text ++ rest)))
      (spelled : lexeme.Spelled (text ++ rest))
      (others : ScansTo rest gap (before ++ lead ++ lexeme.spelling) text tokens) :
      ScansTo rest gap before (lead ++ (lexeme.spelling ++ text))
        (⟨lexeme.kind, lexeme.payload, .after (before ++ lead)⟩ :: tokens)

theorem ScansTo.kind_ne_eof (h : ScansTo rest gap before text tokens) :
    ∀ t ∈ tokens, t.kind ≠ .eof := by
  induction h with
  | gap => exact nofun
  | token hlead hstarts spelled others ih =>
    exact List.forall_mem_cons.mpr ⟨spelled.kind_ne_eof, ih⟩

/-- The text, which stands after `before`, ends inside a literal: the text in front of a mark that
opens one is scanned up to there, and the mark that closes it does not follow. -/
def EndsInLiteral (before text : List Char) : Prop :=
  ∃ front body kind opening closing, text = front ++ opening :: body ∧
    (kind, opening, closing) ∈ Vocabulary.literalMarks ∧ closing ∉ body ∧
    ∃ gap tokens, ScansTo (opening :: body) gap before front tokens

/-- The tokens before a character that breaks off are the same whatever follows it, unless the text
ends inside a literal. -/
theorem ScansTo.change {more other : List Char} (h : ScansTo rest gap before text tokens)
    (hbreaks : ∀ c ∈ (more ++ other).head?, Lexeme.Breaks c)
    (hgap : IsLayout rest gap → IsLayout other (gap ++ more))
    (hclosed : rest = [] → ¬EndsInLiteral before text) :
    ScansTo other (gap ++ more) before (text ++ more) tokens := by
  induction h with
  | gap h => exact .gap (hgap h)
  | @token before lead text lexeme tokens hlead hstarts spelled others ih =>
    have hne : lexeme.spelling ++ (text ++ rest) ≠ [] :=
      fun h => spelled.ne_nil (List.append_eq_nil_iff.mp h).1
    have hlast : text ++ rest = [] → ∀ marks ∈ Vocabulary.literalMarks, ∀ body : List Char,
        marks.2.2 ∉ body → lexeme.spelling ≠ marks.2.1 :: body := by
      intro hnil marks hmarks body hbody hspelling
      obtain ⟨rfl, rfl⟩ := List.append_eq_nil_iff.mp hnil
      refine hclosed rfl ⟨lead, body, _, _, _, ?_, hmarks, hbody, lead, [], .gap ?_⟩
      · rw [hspelling, List.append_nil]
      · rwa [hspelling, List.append_nil, List.append_nil] at hlead
    have hothers : rest = [] → ¬EndsInLiteral (before ++ lead ++ lexeme.spelling) text := by
      rintro rfl ⟨front, body, kind, opening, closing, rfl, marks, hbody, gap', front', hfront⟩
      rw [List.append_nil] at hlead hstarts spelled
      refine hclosed rfl ⟨lead ++ (lexeme.spelling ++ front), body, _, _, _, by simp, marks, hbody,
        gap', _, .token hlead hstarts spelled hfront⟩
    rw [List.append_assoc, List.append_assoc]
    refine .token (hlead.change hne) ?_ ?_ (ih hothers)
    · rw [List.append_assoc, ← List.append_assoc]
      rw [← List.append_assoc] at hstarts
      exact Layout.not_starts_append (by simp [spelled.ne_nil]) hstarts
        fun c hc => (hbreaks c hc).word
    · rw [List.append_assoc]
      exact spelled.change hbreaks hlast

/-- Layout goes with the layout before it. -/
theorem Scans.prepend (hgap : IsLayout rest gap) (h : Scans (before ++ gap) rest tokens) :
    Scans before (gap ++ rest) tokens := by
  cases h with
  | @last _ more hmore =>
    rw [List.append_assoc]
    rw [← List.append_nil rest] at hgap
    exact .last (hgap.append hmore)
  | @token _ more rest lexeme tokens hmore hstarts spelled others =>
    rw [← List.append_assoc, List.append_assoc before]
    rw [List.append_assoc before] at others
    exact .token (hgap.append hmore) hstarts spelled others

/-- What is scanned up to a place and from there on is scanned together. -/
theorem ScansTo.join {last : List Token} (h : ScansTo rest gap before text tokens)
    (hlast : Scans (before ++ text) rest last) : Scans before (text ++ rest) (tokens ++ last) := by
  induction h with
  | gap hgap => exact hlast.prepend hgap
  | @token before lead text lexeme tokens hlead hstarts spelled others ih =>
    rw [List.append_assoc, List.append_assoc]
    refine .token hlead hstarts spelled (ih ?_)
    rwa [List.append_assoc, List.append_assoc]

/-- The whole text is scanned up to its end. -/
theorem Scans.exists_scansTo (h : Scans before text tokens) : ∃ gap front,
    tokens = front ++ [⟨.eof, .none, .after (before ++ text)⟩] ∧
      ScansTo [] gap before text front := by
  induction h with
  | @last before gap hgap => exact ⟨gap, [], rfl, .gap hgap⟩
  | @token before lead rest lexeme tokens hlead hstarts spelled others ih =>
    obtain ⟨gap, front, rfl, hfront⟩ := ih
    refine ⟨gap, _ :: front, ?_, .token ?_ ?_ ?_ hfront⟩
    · rw [List.append_assoc, List.append_assoc]
      rfl
    · rwa [List.append_nil]
    · rwa [List.append_nil]
    · rwa [List.append_nil]

theorem Scans.exists_position (h : Scans before text tokens) :
    ∀ t ∈ tokens, ∃ front, front <+: text ∧ t.position = .after (before ++ front) := by
  induction h with
  | @last before gap hgap =>
    intro t ht
    rw [List.eq_of_mem_singleton ht]
    exact ⟨gap, List.prefix_rfl, rfl⟩
  | @token before lead rest lexeme tokens hlead hstarts spelled others ih =>
    refine List.forall_mem_cons.mpr ⟨⟨lead, List.prefix_append _ _, rfl⟩, fun t ht => ?_⟩
    obtain ⟨front, hfront, hposition⟩ := ih t ht
    refine ⟨lead ++ (lexeme.spelling ++ front), ?_, ?_⟩
    · simpa [List.prefix_append_right_inj] using hfront
    · rw [hposition, List.append_assoc, List.append_assoc]

/-- No token that follows a lexeme stands where the lexeme does. -/
theorem Scans.position_ne {lexeme : Lexeme} (spelled : lexeme.Spelled rest)
    (others : Scans (before ++ lexeme.spelling) rest tokens) :
    ∀ t ∈ tokens, t.position ≠ .after before := by
  intro t ht heq
  obtain ⟨front, -, hfront⟩ := others.exists_position t ht
  rw [heq, List.append_assoc] at hfront
  have hnil := Position.eq_nil_of_after_append_eq hfront.symm
  exact spelled.ne_nil (List.append_eq_nil_iff.mp hnil).1

/-- No two tokens stand at the same place. -/
theorem Scans.eq_of_position_eq (h : Scans before text tokens) {t u : Token} (ht : t ∈ tokens)
    (hu : u ∈ tokens) (hposition : t.position = u.position) : t = u := by
  induction h with
  | last hgap => rw [List.eq_of_mem_singleton ht, List.eq_of_mem_singleton hu]
  | token hlead hstarts spelled others ih =>
    rcases List.mem_cons.mp ht with rfl | ht <;> rcases List.mem_cons.mp hu with rfl | hu
    · rfl
    · exact absurd hposition.symm (others.position_ne spelled u hu)
    · exact absurd hposition (others.position_ne spelled t ht)
    · exact ih ht hu

/-- A token but the last is spelled where it stands. -/
theorem Scans.exists_spelled (h : Scans before text tokens) {t : Token} (ht : t ∈ tokens)
    (hkind : t.kind ≠ .eof) : ∃ front spelling rest, text = front ++ (spelling ++ rest) ∧
      t.position = .after (before ++ front) ∧
      Lexeme.Spelled rest ⟨t.kind, t.payload, spelling⟩ := by
  induction h with
  | last hgap =>
    rw [List.eq_of_mem_singleton ht] at hkind
    exact absurd rfl hkind
  | @token before lead rest lexeme tokens hlead hstarts spelled others ih =>
    rcases List.mem_cons.mp ht with rfl | ht
    · exact ⟨lead, lexeme.spelling, rest, rfl, rfl, spelled⟩
    · obtain ⟨front, spelling, rest, rfl, hposition, hspelled⟩ := ih ht
      refine ⟨lead ++ (lexeme.spelling ++ front), spelling, rest, by simp, ?_, hspelled⟩
      rw [hposition, List.append_assoc, List.append_assoc]

/-- Where a token stands, the text can be cut in two. -/
theorem Scans.exists_cut_at {all : List Char} (h : Scans before all tokens)
    (hall : all = text ++ rest) {token : Token} (htoken : token ∈ tokens)
    (hkind : token.kind ≠ .eof) (hposition : token.position = .after (before ++ text)) :
    rest ≠ [] ∧ ∃ gap front last, tokens = front ++ last ∧ ScansTo rest gap before text front ∧
      Scans (before ++ text) rest last := by
  induction h generalizing text with
  | last hgap =>
    rw [List.eq_of_mem_singleton htoken] at hkind
    exact absurd rfl hkind
  | @token before lead after lexeme tokens hlead hstarts spelled others ih =>
    have htext : text <+: lead ++ (lexeme.spelling ++ after) := hall ▸ List.prefix_append text rest
    rcases List.mem_cons.mp htoken with rfl | htoken
    · obtain rfl := Position.eq_of_after_eq (List.prefix_append lead _) htext hposition
      obtain rfl := (List.append_right_inj lead).mp hall
      refine ⟨fun h => spelled.ne_nil (List.append_eq_nil_iff.mp h).1, lead, [], _, rfl,
        .gap hlead, ?_⟩
      have hscans := @Scans.token (before ++ lead) [] after lexeme tokens .nil hstarts spelled
        (by rwa [List.append_nil])
      rwa [List.append_nil] at hscans
    · obtain ⟨front, hfront, hafter⟩ := others.exists_position token htoken
      obtain ⟨after, rfl⟩ := hfront
      -- the place is behind the first token, and the rest of the way there leads to it
      obtain rfl : text = lead ++ (lexeme.spelling ++ front) := by
        refine Position.eq_of_after_eq htext (by simp) (hposition.symm.trans ?_)
        rw [hafter, List.append_assoc, List.append_assoc]
      obtain rfl : after = rest := by simpa using hall
      obtain ⟨hne, gap, front', last, rfl, hfront, hlast⟩ := ih rfl htoken hafter
      refine ⟨hne, gap, _ :: front', last, rfl, .token hlead hstarts spelled hfront, ?_⟩
      rwa [List.append_assoc, List.append_assoc] at hlast

end Seam

section Placing

variable {found : List Piece}

/-- The token but for its position. -/
def Token.unplaced (token : Token) : Token := token.move fun _ => .start

theorem Scanner.unplaced_place (position : Position) :
    (place position found).1.map Token.unplaced =
      found.map fun piece => ⟨piece.lexeme.kind, piece.lexeme.payload, .start⟩ := by
  induction found generalizing position with
  | nil => rfl
  | cons piece found ih => exact congrArg _ (ih _)

/-- What the tokens of a text are does not depend on where the text starts. -/
theorem Scanner.unplaced_run (rest : List Char) (first other : Position) :
    (run ⟨rest, first⟩).1.map Token.unplaced = (run ⟨rest, other⟩).1.map Token.unplaced := by
  unfold run
  rw [List.map_append, List.map_append, unplaced_place, unplaced_place]
  rfl

theorem Scanner.place_down (k : Nat) (position : Position) :
    place (.down k position) found =
      ((place position found).1.map (Token.move (.down k)), .down k (place position found).2) := by
  induction found generalizing position with
  | nil => rfl
  | cons piece found ih =>
    simp only [place, Position.advance_down, ih]
    rfl

/-- A text that starts `k` lines below has its tokens there. -/
theorem Scanner.run_down (k : Nat) (rest : List Char) (position : Position) :
    (run ⟨rest, .down k position⟩).1 = (run ⟨rest, position⟩).1.map (Token.move (.down k)) := by
  simp only [run, place_down, Position.advance_down, List.map_append]
  rfl

end Placing

theorem exists_eof_tokenize (source : String) : ∃ t ∈ tokenize source, t.kind = .eof := by
  obtain ⟨gap, front, htokens, -⟩ := (scans_tokenize source).exists_scansTo
  exact ⟨_, htokens ▸ List.mem_append_right _ List.mem_cons_self, rfl⟩

/-- Layout that starts with white space can be put in front of any token. -/
theorem tokenize_insert {source : String} {before rest inserted : List Char} {token : Token}
    (hsource : source.toList = before ++ rest) (htoken : token ∈ tokenize source)
    (hkind : token.kind ≠ .eof) (hposition : token.position = .after before)
    (hinserted : IsLayout rest inserted) (hblank : ∀ c ∈ inserted.head?, Text.isBlank c = true) :
    (tokenize (String.ofList (before ++ inserted ++ rest))).map Token.unplaced =
      (tokenize source).map Token.unplaced := by
  cases inserted with
  | nil => rw [List.append_nil, ← hsource, String.ofList_toList]
  | cons c inserted =>
    obtain ⟨hne, gap, front, last, htokens, hfront, hlast⟩ :=
      (scans_tokenize source).exists_cut_at hsource htoken hkind hposition
    have hextended : ScansTo rest (gap ++ c :: inserted) [] (before ++ c :: inserted) front := by
      refine hfront.change (fun c hc => Lexeme.breaks_of_isBlank (hblank c hc)) (fun hgap => ?_)
        fun hrest => absurd hrest hne
      exact (hgap.change hne).append hinserted
    have hjoined := hextended.join (scans_run _ rfl)
    rw [tokenize_of_scans hjoined, htokens, ← hlast.run_eq, List.map_append, List.map_append,
      Scanner.unplaced_run]

/-- The text ends inside a block comment that lacks its end mark. -/
def EndsInComment (text : List Char) : Prop :=
  ∃ gap tokens, ScansTo [] gap [] text tokens ∧ EndsOpen gap

/-- What is left over after the last token is the layout that the scanner finds there. -/
theorem ScansTo.trailing_eq {gap before text : List Char} {tokens : List Token}
    (h : ScansTo [] gap before text tokens) : (pieces text).2 = gap := by
  induction h with
  | gap hgap =>
    have hpieces := pieces_append hgap nofun
    rw [List.append_nil] at hpieces
    rw [hpieces, piecesAfter]
  | @token before lead text lexeme tokens hlead hstarts spelled others ih =>
    rw [List.append_nil] at hlead hstarts spelled
    rw [pieces_append hlead hstarts, piecesAfter_of_spelled spelled, ih]

theorem endsInComment_iff {text : List Char} : EndsInComment text ↔ EndsOpen (pieces text).2 := by
  constructor
  · rintro ⟨gap, tokens, hscans, hopen⟩
    rwa [hscans.trailing_eq]
  · intro hopen
    obtain ⟨gap, front, -, hscans⟩ := (@scans_run _ [] text rfl).exists_scansTo
    exact ⟨gap, front, hscans, hscans.trailing_eq ▸ hopen⟩

end KanaScript
