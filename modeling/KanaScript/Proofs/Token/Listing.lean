import KanaScript.Proofs.Text.Quoted
import KanaScript.Token.Basic
import Mathlib

/-! The listing of tokens.  Each token has a line of its own, which tells its kind, its payload and
its position, so that no two lists of tokens have the same listing.  Tokens with doubles are left
out. -/

namespace KanaScript

open Text (IsLine isRun_until)

section Kinds

/-- The kinds of tokens. -/
def TokenKind.all : List TokenKind :=
  [.typeKeyword, .controlKeyword, .otherKeyword, .operator, .number, .identifier, .stringLiteral,
    .charLiteral, .openBrace, .closeBrace, .openParen, .closeParen, .openBracket, .closeBracket,
    .comma, .semicolon, .colon, .eof, .unknown]

theorem TokenKind.find?_name (kind : TokenKind) :
    all.find? (fun other => other.name == kind.name) = some kind := by
  cases kind <;> decide

theorem TokenKind.name_injective {kind other : TokenKind} (h : kind.name = other.name) :
    kind = other := by
  have hfound := find?_name kind
  rw [h, find?_name other] at hfound
  exact (Option.some.inj hfound).symm

theorem TokenKind.name_plain (kind : TokenKind) :
    ',' ∉ kind.name.toList ∧ IsLine kind.name.toList := by
  cases kind <;> decide

end Kinds

section Payloads

/-- The payload is no double. -/
def Payload.IsDiscrete (payload : Payload) : Prop := ∀ x, payload ≠ .number (.real x)

namespace Payload

variable {p q : Payload} {rest more : List Char}

/-- A text stands between quotes; any other payload has neither a quote nor a comma. -/
theorem display_cases (h : p.IsDiscrete) : (∃ s, p = .text s) ∨
    ',' ∉ p.display.toList ∧ '"' ∉ p.display.toList ∧ IsLine p.display.toList := by
  rcases p with _ | s | n | x
  · exact .inr (by decide)
  · exact .inl ⟨s, rfl⟩
  · have hfree : ∀ c : Char, c.isDigit = false ∧ c ≠ '-' → c ∉ n.repr.toList := by
      rintro c ⟨hdigit, hsign⟩ hmem
      rcases Text.mem_intRepr hmem with hc | hc
      · rw [hc] at hdigit
        cases hdigit
      · exact hsign hc
    exact .inr ⟨hfree _ (by decide), hfree _ (by decide), hfree _ (by decide), hfree _ (by decide)⟩
  · exact absurd rfl (h x)

theorem isLine_display (h : p.IsDiscrete) : IsLine p.display.toList := by
  rcases display_cases h with ⟨s, rfl⟩ | ⟨-, -, hline⟩
  · exact Text.isLine_quote s
  · exact hline

theorem intRepr_ne_none (n : Int) : n.repr ≠ "none" := by
  intro h
  have hmem : 'n' ∈ n.repr.toList := by
    rw [h]
    decide
  rcases Text.mem_intRepr hmem with hc | hc <;> cases hc

/-- Payloads without quotes show what they are. -/
theorem eq_of_display_eq (hp : p.IsDiscrete) (hq : q.IsDiscrete) (hquote : '"' ∉ p.display.toList)
    (h : p.display = q.display) : p = q := by
  have hquoted : ∀ s, '"' ∈ (Payload.text s).display.toList := fun s => by
    rw [display, Text.quote, String.toList_ofList]
    exact List.mem_cons_self
  rcases p with _ | s | m | x
  · rcases q with _ | t | n | y
    · rfl
    · exact absurd (hquoted t) (h ▸ hquote)
    · exact absurd h.symm (intRepr_ne_none n)
    · exact absurd rfl (hq y)
  · exact absurd (hquoted s) hquote
  · rcases q with _ | t | n | y
    · exact absurd h (intRepr_ne_none m)
    · exact absurd (hquoted t) (h ▸ hquote)
    · rw [Int.repr_injective h]
    · exact absurd rfl (hq y)
  · exact absurd rfl (hp x)

/-- What a payload without quotes shows does not start like a quoted text. -/
theorem quote_append_ne (hquote : '"' ∉ p.display.toList) (s : String) :
    (Text.quote s).toList ++ rest ≠ p.display.toList ++ ',' :: more := by
  intro h
  rw [Text.quote, String.toList_ofList] at h
  cases hdisplay : p.display.toList with
  | nil =>
    rw [hdisplay] at h
    exact absurd (List.cons.inj h).1 (by decide)
  | cons c cs =>
    rw [hdisplay] at h hquote
    exact hquote ((List.cons.inj h).1 ▸ List.mem_cons_self)

/-- A payload in front of a comma is told from what follows. -/
theorem display_append_inj (hp : p.IsDiscrete) (hq : q.IsDiscrete)
    (h : p.display.toList ++ ',' :: rest = q.display.toList ++ ',' :: more) :
    p = q ∧ rest = more := by
  rcases display_cases hp with ⟨s, rfl⟩ | ⟨hcomma, hquote, -⟩
  · rcases display_cases hq with ⟨t, rfl⟩ | ⟨-, hquote, -⟩
    · obtain ⟨rfl, hrest⟩ := Text.quote_append_inj h
      exact ⟨rfl, (List.cons.inj hrest).2⟩
    · exact absurd h (quote_append_ne hquote s)
  · rcases display_cases hq with ⟨t, rfl⟩ | ⟨hcomma', -, -⟩
    · exact absurd h.symm (quote_append_ne hquote t)
    · obtain ⟨hdisplay, hrest⟩ := (isRun_until hcomma rest).unique (isRun_until hcomma' more) h
      exact ⟨eq_of_display_eq hp hq hquote (String.toList_inj.mp hdisplay),
        (List.cons.inj hrest).2⟩

end Payload

end Payloads

namespace Token

/-- A number and the mark behind it are told from what follows. -/
theorem natRepr_append_inj {m n : Nat} {d : Char} (hd : d.isDigit = false) {rest more : List Char}
    (h : (Nat.repr m).toList ++ d :: rest = (Nat.repr n).toList ++ d :: more) :
    m = n ∧ rest = more := by
  have hfree : ∀ k : Nat, d ∉ (Nat.repr k).toList := fun k hmem => by
    rw [Text.isDigit_of_mem_repr hmem] at hd
    cases hd
  obtain ⟨hrepr, hrest⟩ := (isRun_until (hfree m) rest).unique (isRun_until (hfree n) more) h
  exact ⟨Nat.repr_injective (String.toList_inj.mp hrepr), (List.cons.inj hrest).2⟩

theorem toList_listing (t : Token) : t.listing.toList =
    "Token(".toList ++ (t.kind.name.toList ++ ',' :: ' ' :: (t.payload.display.toList ++
      ',' :: ' ' :: 'L' :: ((Nat.repr t.position.line).toList ++
        ':' :: ((Nat.repr t.position.column).toList ++ [')'])))) := by
  simp [listing]

theorem isLine_natRepr (n : Nat) : IsLine (Nat.repr n).toList := by
  constructor <;> exact fun h => absurd (Text.isDigit_of_mem_repr h) (by decide)

theorem isLine_listing {t : Token} (h : t.payload.IsDiscrete) : IsLine t.listing.toList := by
  have hkind := t.kind.name_plain.2
  have hpayload := Payload.isLine_display h
  have hline := isLine_natRepr t.position.line
  have hcolumn := isLine_natRepr t.position.column
  simp [toList_listing, hkind, hpayload, hline, hcolumn, -Nat.toList_repr]

/-- The line of a token tells the token. -/
theorem listing_injective {t u : Token} (ht : t.payload.IsDiscrete) (hu : u.payload.IsDiscrete)
    (h : t.listing = u.listing) : t = u := by
  have hline := congrArg String.toList h
  rw [toList_listing, toList_listing] at hline
  obtain ⟨hname, hline⟩ := (isRun_until t.kind.name_plain.1 _).unique
    (isRun_until u.kind.name_plain.1 _) (List.append_cancel_left hline)
  simp only [List.cons.injEq, true_and] at hline
  obtain ⟨hpayload, hline⟩ := Payload.display_append_inj ht hu hline
  simp only [List.cons.injEq, true_and] at hline
  obtain ⟨hrow, hline⟩ := natRepr_append_inj rfl hline
  obtain ⟨hcolumn, -⟩ := natRepr_append_inj rfl hline
  have hkind := TokenKind.name_injective (String.toList_inj.mp hname)
  have hposition : t.position = u.position := Position.mk.injEq .. ▸ ⟨hrow, hcolumn⟩
  cases t
  cases u
  simp_all

/-- The lines of a listing are those of its tokens, one for each. -/
theorem lines_listings {tokens : List Token} (h : ∀ t ∈ tokens, t.payload.IsDiscrete) :
    Text.lines (listings tokens).toList = tokens.map fun t => t.listing.toList :=
  Text.lines_join fun t ht => isLine_listing (h t ht)

theorem eq_of_map_listing : ∀ {tokens others : List Token},
    (∀ t ∈ tokens, t.payload.IsDiscrete) → (∀ t ∈ others, t.payload.IsDiscrete) →
    (tokens.map fun t => t.listing.toList) = (others.map fun t => t.listing.toList) →
    tokens = others
  | [], [], _, _, _ => rfl
  | t :: tokens, u :: others, h, hothers, heq => by
    obtain ⟨ht, htokens⟩ := List.forall_mem_cons.mp h
    obtain ⟨hu, hothers⟩ := List.forall_mem_cons.mp hothers
    obtain ⟨hfirst, hrest⟩ := List.cons.inj heq
    rw [listing_injective ht hu (String.toList_inj.mp hfirst),
      eq_of_map_listing htokens hothers hrest]

/-- Tokens without doubles have a line each in their listing, and no other tokens have the same
listing. -/
theorem listings_eq_iff {tokens others : List Token} (h : ∀ t ∈ tokens, t.payload.IsDiscrete)
    (hothers : ∀ t ∈ others, t.payload.IsDiscrete) :
    (listings tokens = listings others ↔ tokens = others) ∧
      Text.lines (listings tokens).toList = tokens.map fun t => t.listing.toList := by
  refine ⟨⟨fun heq => ?_, congrArg listings⟩, lines_listings h⟩
  refine eq_of_map_listing h hothers ?_
  rw [← lines_listings h, heq, lines_listings hothers]

/-- A text that looks like the end of its line and like another line stays within its line. -/
theorem listings_eq_iff_feigned :
    ∃ feigned : Token, feigned.payload = .text "\", L1:1)\nToken(eof, none" ∧
      listings [feigned] ≠
        listings [⟨.stringLiteral, .text "", ⟨1, 1⟩⟩, ⟨.eof, .none, ⟨1, 2⟩⟩] ∧
      Text.lines (listings [feigned]).toList = [feigned.listing.toList] := by
  refine ⟨⟨.stringLiteral, _, ⟨1, 2⟩⟩, rfl, ?_⟩
  obtain ⟨heq, hlines⟩ := @listings_eq_iff
    [⟨.stringLiteral, .text "\", L1:1)\nToken(eof, none", ⟨1, 2⟩⟩]
    [⟨.stringLiteral, .text "", ⟨1, 1⟩⟩, ⟨.eof, .none, ⟨1, 2⟩⟩]
    (by simp [Payload.IsDiscrete]) (by simp [Payload.IsDiscrete])
  refine ⟨fun h => ?_, hlines⟩
  have hlength := congrArg List.length (heq.mp h)
  simp at hlength

end Token

end KanaScript
