import KanaScript.Proofs.C.Segments
import KanaScript.Proofs.Grammar.Spans

/-! The tokens behind the names of a program: a name in an expression of a program that was read is
one of its tokens, with the text of the token and at its place. -/

namespace KanaScript.Grammar

variable {text : String} {position : Position}

/-- One of the tokens has the text and stands at the place. -/
def HasToken (ts : List Token) (text : String) (position : Position) : Prop :=
  ∃ t ∈ ts, t.text = text ∧ t.position = position

theorem HasToken.mono {ts us : List Token} (h : HasToken ts text position) (hsub : ts ⊆ us) :
    HasToken us text position := by
  obtain ⟨t, ht, hpair⟩ := h
  exact ⟨t, hsub ht, hpair⟩

/-- A name is derived from its token, perhaps in parentheses. -/
theorem Derives.exists_nameToken : ∀ {tier : Tier} {ts : List Token} {e : Expr}, Derives tier ts e →
    e = .name text position → ∃ t ∈ ts,
      (t.kind = .identifier ∨ t.kind = .otherKeyword ∨ t.kind = .controlKeyword) ∧
      t.text = text ∧ t.position = position
  | _, _, _, @Derives.name t kind, h => by
    obtain ⟨htext, hposition⟩ := Expr.name.inj h
    exact ⟨t, List.mem_singleton_self t, kind, htext, hposition⟩
  | _, _, _, .group _ inner _, h => by
    obtain ⟨t, ht, htoken⟩ := inner.exists_nameToken h
    exact ⟨t, List.mem_cons_of_mem _ (List.mem_append_left _ ht), htoken⟩
  | _, _, _, .unassigned whole, h => whole.exists_nameToken h
  | _, _, _, .tighter whole, h => whole.exists_nameToken h
  | _, _, _, .operand whole, h => whole.exists_nameToken h
  | _, _, _, .unprefixed whole, h => whole.exists_nameToken h
  | _, _, _, .unsuffixed whole, h => whole.exists_nameToken h
  | _, _, _, .assign .., h => Expr.noConfusion h
  | _, _, _, .operate .., h => Expr.noConfusion h
  | _, _, _, .before .., h => Expr.noConfusion h
  | _, _, _, .call .., h => Expr.noConfusion h
  | _, _, _, .index .., h => Expr.noConfusion h
  | _, _, _, .after .., h => Expr.noConfusion h
  | _, _, _, .number .., h => Expr.noConfusion h
  | _, _, _, .string .., h => Expr.noConfusion h
  | _, _, _, .char .., h => Expr.noConfusion h

theorem Derives.hasToken {tier : Tier} {ts : List Token} {e : Expr} (h : Derives tier ts e)
    (hname : e = .name text position) : HasToken ts text position := by
  obtain ⟨t, ht, -, hpair⟩ := h.exists_nameToken hname
  exact ⟨t, ht, hpair⟩

/-- A name in a program that was read is one of its tokens. -/
theorem hasToken_of_parse {tokens : List Token} {program : Program}
    (parsed : parse tokens = .ok program) (hname : NamedIn program.statements text position) :
    HasToken tokens text position := by
  have hderives := derivesProgram_of_declarations _ (Nat.lt_succ_self _) (parse_eq_ok_iff.mp parsed)
  obtain ⟨s, hs, e, he, hx⟩ := hname
  obtain ⟨d, hd, hs⟩ := List.mem_flatMap.mp hs
  obtain ⟨us, hus, tier, hspan⟩ := (hderives.within hd).bind fun _ hdeclaration =>
    (hdeclaration.nodes_within hs).bind fun _ hstatement =>
      (hstatement.expressions_within he).bind fun _ hexpression => hexpression.nodes_within _ hx
  exact (hspan.hasToken rfl).mono (List.Subset.trans hus.subset (List.takeWhile_subset _))

end KanaScript.Grammar
