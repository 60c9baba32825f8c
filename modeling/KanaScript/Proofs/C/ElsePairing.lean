import KanaScript.Proofs.C.Outline

/-! Which outlines are read back from their own tokens: those in which no `if` with an `else` has a
branch that would take the `else` for itself. -/

namespace KanaScript.C

/-- Whether an `else` right after the statement would belong to an `if` in it. -/
def Outline.takesElse : Outline → Bool
  | ifOnly _ _ => true
  | ifElse _ _ alternative => alternative.takesElse
  | headed _ _ body => body.takesElse
  | _ => false

mutual

/-- The parts are what they stand for, and every `else` is out of reach of the branch before it. -/
def Outline.Sound : Outline → Prop
  | .simple tokens => IsSimple tokens
  | .block items => itemsSound items
  | .ifOnly head consequent => IsGroup head ∧ consequent.Sound
  | .ifElse head consequent alternative => IsGroup head ∧ consequent.Sound ∧
    consequent.takesElse = false ∧ alternative.Sound
  | .headed word head body => word ∈ ["while", "for", "switch"] ∧ IsGroup head ∧ body.Sound
  | .doWhile body head => body.Sound ∧ IsGroup head

def Item.Sound : Item → Prop
  | .label tokens => IsLabel tokens
  | .statement outline => outline.Sound

def itemsSound : List Item → Prop
  | [] => True
  | item :: items => item.Sound ∧ itemsSound items

end

def External.Sound : External → Prop
  | function header items => header ≠ [] ∧ IsSimple header ∧ itemsSound items
  | statement outline => outline.Sound

/-- An `else` does not lead the rest, if the statement before could take it. -/
def Follows (o : Outline) (rest : List Token) : Prop :=
  o.takesElse = true → rest.head? ≠ some (.word "else")

section Read

mutual

/-- Nothing is lost in reading, and what is read is sound. -/
theorem Takes.sound : ∀ {ts rest : List Token} {o : Outline}, Takes ts o rest →
    ts = o.tokens ++ rest ∧ o.Sound ∧ Follows o rest
  | _, _, _, .simple whole => by
    simp only [Outline.tokens, Outline.Sound, Follows, Outline.takesElse]
    exact ⟨by simp, whole, nofun⟩
  | _, _, _, .block inner => by
    obtain ⟨hts, hs⟩ := inner.sound
    simp only [Outline.tokens, Outline.Sound, Follows, Outline.takesElse]
    exact ⟨by simp [hts], hs, nofun⟩
  | _, _, _, .ifOnly group inner last => by
    obtain ⟨hts, hs, -⟩ := inner.sound
    simp only [Outline.tokens, Outline.Sound, Follows, Outline.takesElse]
    exact ⟨by simp [hts], ⟨group, hs⟩, fun _ => last⟩
  | _, _, _, @Takes.ifElse _ _ _ _ consequent _ group inner other => by
    obtain ⟨hts, hs, hf⟩ := inner.sound
    obtain ⟨hus, hs', hf'⟩ := other.sound
    -- What follows the branch is the `else` itself, so the branch could not take it.
    have hclosed : consequent.takesElse = false := by
      rw [Bool.eq_false_iff]
      exact fun htakes => hf htakes rfl
    simp only [Outline.tokens, Outline.Sound]
    exact ⟨by simp [hts, hus], ⟨group, hs, hclosed, hs'⟩, hf'⟩
  | _, _, _, .headed known group inner => by
    obtain ⟨hts, hs, hf⟩ := inner.sound
    simp only [Outline.tokens, Outline.Sound]
    exact ⟨by simp [hts], ⟨known, group, hs⟩, hf⟩
  | _, _, _, .doWhile inner group => by
    obtain ⟨hts, hs, -⟩ := inner.sound
    simp only [Outline.tokens, Outline.Sound, Follows, Outline.takesElse]
    exact ⟨by simp [hts], ⟨hs, group⟩, nofun⟩

theorem TakesItems.sound : ∀ {ts rest : List Token} {items : List Item}, TakesItems ts items rest →
    ts = itemsTokens items ++ rest ∧ itemsSound items
  | _, _, _, .none => by simp [itemsTokens, itemsSound]
  | _, _, _, .label whole others => by
    obtain ⟨hus, hs⟩ := others.sound
    simp only [itemsTokens, Item.tokens, itemsSound, Item.Sound]
    exact ⟨by simp [hus], whole, hs⟩
  | _, _, _, .statement first others => by
    obtain ⟨hts, hs, -⟩ := first.sound
    obtain ⟨hus, hs'⟩ := others.sound
    simp only [itemsTokens, Item.tokens, itemsSound, Item.Sound]
    exact ⟨by simp [hts, hus], hs, hs'⟩

end

/-- No sound statement starts with `else`. -/
theorem Outline.Sound.head_ne_else : ∀ {o : Outline}, o.Sound → ∀ rest : List Token,
    (o.tokens ++ rest).head? ≠ some (.word "else")
  | .simple tokens, h, rest => by
    rw [Outline.Sound] at h
    rw [Outline.tokens]
    cases tokens with
    | nil => exact nofun
    | cons t tokens => exact fun ht => h.2 "else" (by decide) ht
  | .block _, _, _ => by simp [Outline.tokens]
  | .ifOnly _ _, _, _ => by simp [Outline.tokens]
  | .ifElse _ _ _, _, _ => by simp [Outline.tokens]
  | .headed word _ _, h, _ => by
    rw [Outline.Sound] at h
    rw [Outline.tokens]
    intro hword
    obtain rfl : word = "else" := by simpa using hword
    exact absurd h.1 (by decide)
  | .doWhile _ _, _, _ => by simp [Outline.tokens]

theorem head_items_ne_else {items : List Item} (h : itemsSound items) (rest : List Token) :
    (itemsTokens items ++ .mark "\x7d" :: rest).head? ≠ some (.word "else") := by
  match items with
  | [] => exact nofun
  | .label tokens :: items =>
    simp only [itemsSound, Item.Sound] at h
    obtain ⟨w, hw, hhead⟩ := h.1.2
    simp only [itemsTokens, Item.tokens]
    cases tokens with
    | nil => cases hhead
    | cons t tokens =>
      obtain rfl := Option.some.inj hhead
      intro helse
      obtain rfl : w = "else" := by simpa using helse
      exact absurd hw (by decide)
  | .statement o :: items =>
    simp only [itemsSound, Item.Sound] at h
    simp only [itemsTokens, Item.tokens, List.append_assoc]
    exact h.1.head_ne_else _

theorem head_externals_ne_else {xs : List External} (h : ∀ x ∈ xs, x.Sound) :
    (xs.flatMap External.tokens).head? ≠ some (.word "else") := by
  cases xs with
  | nil => exact nofun
  | cons x xs =>
    rw [List.flatMap_cons]
    have hx := h x List.mem_cons_self
    cases x with
    | function header items =>
      obtain ⟨nonempty, whole, -⟩ := hx
      cases header with
      | nil => exact absurd rfl nonempty
      | cons t header => exact fun ht => whole.2 "else" (by decide) ht
    | statement o => exact Outline.Sound.head_ne_else hx _

mutual

/-- What is sound is read back from its tokens. -/
theorem Outline.Sound.takes : ∀ {o : Outline}, o.Sound → ∀ {rest : List Token}, Follows o rest →
    Takes (o.tokens ++ rest) o rest
  | .simple tokens, h, rest, _ => by
    rw [Outline.Sound] at h
    rw [Outline.tokens, List.append_assoc]
    exact .simple h
  | .block items, h, rest, _ => by
    rw [Outline.Sound] at h
    rw [Outline.tokens, List.cons_append, List.append_assoc]
    exact .block (takesItems_of_sound h rest)
  | .ifOnly head consequent, h, rest, hf => by
    rw [Outline.Sound] at h
    have last := hf rfl
    rw [Outline.tokens, List.cons_append, List.append_assoc]
    exact .ifOnly h.1 (h.2.takes fun _ => last) last
  | .ifElse head consequent alternative, h, rest, hf => by
    rw [Outline.Sound] at h
    obtain ⟨group, hs, hclosed, hs'⟩ := h
    have inner : Takes (consequent.tokens ++ .word "else" :: (alternative.tokens ++ rest))
        consequent (.word "else" :: (alternative.tokens ++ rest)) :=
      hs.takes fun htakes => by rw [hclosed] at htakes; cases htakes
    have h := Takes.ifElse group inner (hs'.takes hf)
    rw [Outline.tokens]
    simpa using h
  | .headed word head body, h, rest, hf => by
    rw [Outline.Sound] at h
    rw [Outline.tokens, List.cons_append, List.append_assoc]
    exact .headed h.1 h.2.1 (h.2.2.takes hf)
  | .doWhile body head, h, rest, _ => by
    rw [Outline.Sound] at h
    have inner : Takes (body.tokens ++ .word "while" :: (head ++ .mark ";" :: rest)) body
        (.word "while" :: (head ++ .mark ";" :: rest)) := h.1.takes fun _ => by simp
    rw [Outline.tokens]
    simpa using Takes.doWhile inner h.2

theorem takesItems_of_sound : ∀ {items : List Item}, itemsSound items → ∀ rest : List Token,
    TakesItems (itemsTokens items ++ .mark "\x7d" :: rest) items (.mark "\x7d" :: rest)
  | [], _, rest => by
    rw [itemsTokens]
    exact .none
  | .label tokens :: items, h, rest => by
    simp only [itemsSound, Item.Sound] at h
    have h := TakesItems.label h.1 (takesItems_of_sound h.2 rest)
    simpa [itemsTokens, Item.tokens] using h
  | .statement o :: items, h, rest => by
    simp only [itemsSound, Item.Sound] at h
    have first := h.1.takes fun _ => head_items_ne_else h.2 rest
    have h := TakesItems.statement first (takesItems_of_sound h.2 rest)
    simpa [itemsTokens, Item.tokens] using h

end

/-- A text is read as its outline exactly if the outline is sound. -/
theorem takesAll_iff {ts : List Token} {xs : List External} :
    TakesAll ts xs ↔ ts = xs.flatMap External.tokens ∧ ∀ x ∈ xs, x.Sound := by
  constructor
  · intro h
    induction h with
    | none => simp
    | function nonempty whole inner others ih =>
      obtain ⟨hts, hs⟩ := inner.sound
      rw [List.flatMap_cons, List.forall_mem_cons]
      exact ⟨by simp [External.tokens, hts, ih.1], ⟨nonempty, whole, hs⟩, ih.2⟩
    | statement first others ih =>
      obtain ⟨hts, hs, -⟩ := first.sound
      rw [List.flatMap_cons, List.forall_mem_cons]
      exact ⟨by simp [External.tokens, hts, ih.1], hs, ih.2⟩
  · rintro ⟨rfl, hs⟩
    induction xs with
    | nil => exact .none
    | cons x xs ih =>
      rw [List.forall_mem_cons] at hs
      rw [List.flatMap_cons]
      cases x with
      | function header items =>
        obtain ⟨⟨nonempty, whole, hi⟩, hs⟩ := hs
        have h := TakesAll.function nonempty whole (takesItems_of_sound hi _) (ih hs)
        simpa [External.tokens] using h
      | statement o =>
        refine .statement (Outline.Sound.takes hs.1 fun _ => ?_) (ih hs.2)
        exact head_externals_ne_else hs.2

end Read

end KanaScript.C
