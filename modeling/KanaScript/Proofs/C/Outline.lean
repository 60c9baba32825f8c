import KanaScript.Proofs.C.Grouping

/-! How C reads statements: which statement is the body of which, and which `if` an `else` belongs
to.  The tokens of conditions and of simple statements are kept as they are.  An `else` goes with
the last `if` before it that can take it, and a body without braces is one statement. -/

namespace KanaScript.C

mutual

/-- A statement as C reads it. -/
inductive Outline
  /-- An expression, a declaration or a jump, without its semicolon. -/
  | simple (tokens : List Token)
  | block (items : List Item)
  | ifOnly (head : List Token) (consequent : Outline)
  | ifElse (head : List Token) (consequent alternative : Outline)
  /-- A `while`, a `for` or a `switch` with its body. -/
  | headed (word : String) (head : List Token) (body : Outline)
  | doWhile (body : Outline) (head : List Token)

inductive Item
  /-- A `case` or a `default`, without its colon. -/
  | label (tokens : List Token)
  | statement (outline : Outline)

end

inductive External
  | function (header : List Token) (items : List Item)
  | statement (outline : Outline)

mutual

def Outline.tokens : Outline → List Token
  | .simple tokens => tokens ++ [.mark ";"]
  | .block items => .mark "\x7b" :: (itemsTokens items ++ [.mark "\x7d"])
  | .ifOnly head consequent => .word "if" :: (head ++ consequent.tokens)
  | .ifElse head consequent alternative =>
    .word "if" :: (head ++ (consequent.tokens ++ .word "else" :: alternative.tokens))
  | .headed word head body => .word word :: (head ++ body.tokens)
  | .doWhile body head => .word "do" :: (body.tokens ++ .word "while" :: (head ++ [.mark ";"]))

def Item.tokens : Item → List Token
  | .label tokens => tokens ++ [.mark ":"]
  | .statement outline => outline.tokens

def itemsTokens : List Item → List Token
  | [] => []
  | item :: items => item.tokens ++ itemsTokens items

end

def External.tokens : External → List Token
  | function header items => header ++ .mark "\x7b" :: (itemsTokens items ++ [.mark "\x7d"])
  | statement outline => outline.tokens

/-- The words that start a statement with a body, or a label. -/
def reserved : List String := ["if", "else", "while", "for", "do", "switch", "case", "default"]

/-- Whether the token ends or opens a statement. -/
def Token.bounds (token : Token) : Bool :=
  [.mark ";", .mark "\x7b", .mark "\x7d"].contains token

/-- The tokens may stand for a simple statement: they are all within it, and no reserved word leads
them. -/
def IsSimple (ts : List Token) : Prop :=
  (∀ t ∈ ts, t.bounds = false) ∧ ∀ w ∈ reserved, ts.head? ≠ some (.word w)

def IsLabel (ts : List Token) : Prop :=
  (∀ t ∈ ts, t.bounds = false ∧ t ≠ .mark ":") ∧
    ∃ w ∈ ["case", "default"], ts.head? = some (.word w)

def IsGroup (ts : List Token) : Prop :=
  ∃ inner, ts = .mark "(" :: (inner ++ [.mark ")"]) ∧ Balanced inner

mutual

/-- The tokens start with the statement, and the rest follows it. -/
inductive Takes : List Token → Outline → List Token → Prop
  | simple {body rest : List Token} (whole : IsSimple body) :
      Takes (body ++ .mark ";" :: rest) (.simple body) rest
  | block {ts rest : List Token} {items : List Item}
      (inner : TakesItems ts items (.mark "\x7d" :: rest)) :
      Takes (.mark "\x7b" :: ts) (.block items) rest
  | ifOnly {head ts rest : List Token} {consequent : Outline} (group : IsGroup head)
      (inner : Takes ts consequent rest) (last : rest.head? ≠ some (.word "else")) :
      Takes (.word "if" :: (head ++ ts)) (.ifOnly head consequent) rest
  | ifElse {head ts us rest : List Token} {consequent alternative : Outline} (group : IsGroup head)
      (inner : Takes ts consequent (.word "else" :: us)) (other : Takes us alternative rest) :
      Takes (.word "if" :: (head ++ ts)) (.ifElse head consequent alternative) rest
  | headed {head ts rest : List Token} {word : String} {body : Outline}
      (known : word ∈ ["while", "for", "switch"]) (group : IsGroup head)
      (inner : Takes ts body rest) :
      Takes (.word word :: (head ++ ts)) (.headed word head body) rest
  | doWhile {head ts rest : List Token} {body : Outline}
      (inner : Takes ts body (.word "while" :: (head ++ .mark ";" :: rest)))
      (group : IsGroup head) : Takes (.word "do" :: ts) (.doWhile body head) rest

/-- The tokens start with the items of a block, and its closing brace follows them. -/
inductive TakesItems : List Token → List Item → List Token → Prop
  | none {rest : List Token} : TakesItems (.mark "\x7d" :: rest) [] (.mark "\x7d" :: rest)
  | label {ts us rest : List Token} {items : List Item} (whole : IsLabel ts)
      (others : TakesItems us items rest) :
      TakesItems (ts ++ .mark ":" :: us) (.label ts :: items) rest
  | statement {ts us rest : List Token} {outline : Outline} {items : List Item}
      (first : Takes ts outline us) (others : TakesItems us items rest) :
      TakesItems ts (.statement outline :: items) rest

end

/-- The tokens are those of the functions, the declarations and the statements. -/
inductive TakesAll : List Token → List External → Prop
  | none : TakesAll [] []
  | function {header ts us : List Token} {items : List Item} {externals : List External}
      (nonempty : header ≠ []) (whole : IsSimple header)
      (inner : TakesItems ts items (.mark "\x7d" :: us)) (others : TakesAll us externals) :
      TakesAll (header ++ .mark "\x7b" :: ts) (.function header items :: externals)
  | statement {ts us : List Token} {outline : Outline} {externals : List External}
      (first : Takes ts outline us) (others : TakesAll us externals) :
      TakesAll ts (.statement outline :: externals)

/-- C reads the text as the functions, the declarations and the statements. -/
def ReadsProgram (text : String) (externals : List External) : Prop :=
  ∃ ts, tokens? true text.toList = some ts ∧ TakesAll ts externals

section Uniqueness

/-- The rule that a reading ended with. -/
def Shape (ts rest : List Token) : Outline → Prop
  | .simple body => ts = body ++ .mark ";" :: rest ∧ IsSimple body
  | .block items =>
    ∃ us, ts = .mark "\x7b" :: us ∧ TakesItems us items (.mark "\x7d" :: rest)
  | .ifOnly head consequent => ∃ us, ts = .word "if" :: (head ++ us) ∧ IsGroup head ∧
    Takes us consequent rest ∧ rest.head? ≠ some (.word "else")
  | .ifElse head consequent alternative => ∃ us vs, ts = .word "if" :: (head ++ us) ∧
    IsGroup head ∧ Takes us consequent (.word "else" :: vs) ∧ Takes vs alternative rest
  | .headed word head body => ∃ us, ts = .word word :: (head ++ us) ∧
    word ∈ ["while", "for", "switch"] ∧ IsGroup head ∧ Takes us body rest
  | .doWhile body head => ∃ us, ts = .word "do" :: us ∧
    Takes us body (.word "while" :: (head ++ .mark ";" :: rest)) ∧ IsGroup head

theorem Takes.shape {ts rest : List Token} {o : Outline} (h : Takes ts o rest) :
    Shape ts rest o := by
  cases h with
  | simple whole => exact ⟨rfl, whole⟩
  | block inner => exact ⟨_, rfl, inner⟩
  | ifOnly group inner last => exact ⟨_, rfl, group, inner, last⟩
  | ifElse group inner other => exact ⟨_, _, rfl, group, inner, other⟩
  | headed known group inner => exact ⟨_, rfl, known, group, inner⟩
  | doWhile inner group => exact ⟨_, rfl, inner, group⟩

def ItemsShape (ts rest : List Token) : List Item → Prop
  | [] => ∃ us, ts = .mark "\x7d" :: us ∧ rest = .mark "\x7d" :: us
  | .label l :: items => ∃ us, ts = l ++ .mark ":" :: us ∧ IsLabel l ∧ TakesItems us items rest
  | .statement o :: items => ∃ us, Takes ts o us ∧ TakesItems us items rest

theorem TakesItems.shape {ts rest : List Token} {items : List Item} (h : TakesItems ts items rest) :
    ItemsShape ts rest items := by
  cases h with
  | none => exact ⟨_, rfl, rfl⟩
  | label whole others => exact ⟨_, rfl, whole, others⟩
  | statement first others => exact ⟨_, first, others⟩

/-- Lists that agree are cut alike at their first token of a kind. -/
theorem cut_unique {p : Token → Bool} : ∀ {a a' b b' : List Token} {t t' : Token},
    (∀ x ∈ a, p x = false) → (∀ x ∈ a', p x = false) → p t = true → p t' = true →
    a ++ t :: b = a' ++ t' :: b' → a = a' ∧ t = t' ∧ b = b'
  | [], [], _, _, _, _, _, _, _, _, h => by
    simpa using h
  | [], x :: _, _, _, _, _, _, ha', ht, _, h => by
    obtain ⟨rfl, -⟩ := List.cons.inj h
    rw [ha' _ List.mem_cons_self] at ht
    cases ht
  | x :: _, [], _, _, _, _, ha, _, _, ht', h => by
    obtain ⟨rfl, -⟩ := List.cons.inj h
    rw [ha _ List.mem_cons_self] at ht'
    cases ht'
  | x :: a, y :: a', _, _, _, _, ha, ha', ht, ht', h => by
    obtain ⟨rfl, htail⟩ := List.cons.inj h
    obtain ⟨rfl, rfl, rfl⟩ := cut_unique (fun z hz => ha z (List.mem_cons_of_mem _ hz))
      (fun z hz => ha' z (List.mem_cons_of_mem _ hz)) ht ht' htail
    exact ⟨rfl, rfl, rfl⟩

theorem IsGroup.balanced {ts : List Token} (h : IsGroup ts) : Balanced ts := by
  obtain ⟨inner, rfl, hi⟩ := h
  exact hi.group

theorem IsGroup.unique {a a' b b' : List Token} (h : IsGroup a) (h' : IsGroup a')
    (hab : a ++ b = a' ++ b') : a = a' ∧ b = b' := by
  have key : ∀ {a a' b b' : List Token}, IsGroup a → IsGroup a' → ∀ c, a' = a ++ c →
      b = c ++ b' → c = [] := by
    intro a a' b b' h h' c hc _
    cases c with
    | nil => rfl
    | cons t c =>
      obtain ⟨inner, rfl, hi⟩ := h'
      have hne : a ≠ [] := by
        obtain ⟨inner, rfl, -⟩ := h
        simp
      exact absurd hc.symm (append_ne_group h.balanced.total hne (by simp) hi)
  exact eq_of_append_eq hab (key h h') (key h' h)

/-- Whether a statement that starts with the token is no simple one. -/
def Token.opens (token : Token) : Bool :=
  token == .mark "\x7b" || reserved.any fun w => token == .word w

/-- The token that opens a statement, unless it is a simple one. -/
def Outline.opening : Outline → Option Token
  | simple _ => none
  | block _ => some (.mark "\x7b")
  | ifOnly _ _ => some (.word "if")
  | ifElse _ _ _ => some (.word "if")
  | headed word _ _ => some (.word word)
  | doWhile _ _ => some (.word "do")

theorem IsSimple.lead {body rest ts : List Token} {t : Token} (h : IsSimple body)
    (hts : t :: ts = body ++ .mark ";" :: rest) : t.opens = false ∧ t ≠ .mark "\x7d" := by
  cases body with
  | nil =>
    obtain ⟨rfl, -⟩ := List.cons.inj hts
    decide
  | cons first body =>
    obtain ⟨rfl, -⟩ := List.cons.inj hts
    have hb := h.1 t List.mem_cons_self
    have hr : ∀ w ∈ reserved, t ≠ .word w := fun w hw ht => h.2 w hw (by rw [ht]; rfl)
    simp only [Token.bounds, List.contains_eq_mem, List.mem_cons, List.not_mem_nil, or_false,
      decide_eq_false_iff_not, not_or] at hb
    refine ⟨?_, hb.2.2⟩
    simp only [Token.opens, hb.2.1, beq_eq_false_iff_ne.mpr, ne_eq, not_false_eq_true,
      Bool.false_or, List.any_eq_false, beq_iff_eq]
    exact hr

/-- The first token tells what kind of statement is read. -/
theorem Takes.opening {ts rest : List Token} {o : Outline} (h : Takes ts o rest) :
    ts.head?.filter Token.opens = o.opening := by
  cases h with
  | @simple body rest whole =>
    cases hts : body ++ .mark ";" :: rest with
    | nil => rfl
    | cons t ts => simp [Outline.opening, (whole.lead hts.symm).1]
  | headed known group inner =>
    have known : ∀ w ∈ ["while", "for", "switch"], (Token.word w).opens = true := by decide
    simp [Outline.opening, known _ ‹_›]
  | _ => rfl

theorem Takes.opening_eq {ts rest rest' : List Token} {o o' : Outline} (h : Takes ts o rest)
    (h' : Takes ts o' rest') : o.opening = o'.opening :=
  h.opening.symm.trans h'.opening

theorem Takes.head_ne_close {us rest : List Token} {o : Outline} :
    ¬Takes (.mark "\x7d" :: us) o rest := by
  intro h
  have hopen : none = o.opening := h.opening
  have hs := h.shape
  cases o with
  | simple body => exact absurd rfl (hs.2.lead hs.1).2
  | _ => cases hopen

theorem IsLabel.ne_close {ts us vs : List Token} (h : IsLabel ts) :
    .mark "\x7d" :: us ≠ ts ++ .mark ":" :: vs := by
  obtain ⟨w, -, hhead⟩ := h.2
  cases ts with
  | nil => cases hhead
  | cons t ts =>
    obtain rfl := Option.some.inj hhead
    simp

theorem IsLabel.unique {a a' b b' : List Token} (h : IsLabel a) (h' : IsLabel a')
    (hab : a ++ .mark ":" :: b = a' ++ .mark ":" :: b') : a = a' ∧ b = b' := by
  have colon : ∀ {a}, IsLabel a → ∀ x ∈ a, (x == Token.mark ":") = false := by
    intro a h x hx
    simpa using (h.1 x hx).2
  obtain ⟨ha, -, hb⟩ := cut_unique (colon h) (colon h') rfl rfl hab
  exact ⟨ha, hb⟩

theorem IsLabel.not_takes {ts us rest : List Token} {o : Outline} (h : IsLabel ts) :
    ¬Takes (ts ++ .mark ":" :: us) o rest := by
  intro ho
  obtain ⟨w, hw, hhead⟩ := h.2
  obtain ⟨more, rfl⟩ : ∃ more, ts = .word w :: more := by
    cases ts with
    | nil => cases hhead
    | cons t more => exact ⟨more, by rw [Option.some.inj hhead]⟩
  have opens : ∀ w ∈ ["case", "default"], (Token.word w).opens = true := by decide
  have hopen : some (Token.word w) = o.opening := by
    rw [← ho.opening]
    simp [Option.filter, opens w hw]
  have other : ∀ w ∈ ["case", "default"], w ∉ ["if", "do", "while", "for", "switch"] := by decide
  have hs := ho.shape
  cases o with
  | headed word head body =>
    obtain ⟨us, -, known, -⟩ := hs
    obtain rfl : w = word := by simpa [Outline.opening] using hopen
    exact other w hw (List.mem_cons_of_mem _ (List.mem_cons_of_mem _ known))
  | simple body => cases hopen
  | block items => cases hopen
  | ifOnly head s =>
    obtain rfl : w = "if" := by simpa [Outline.opening] using hopen
    exact other _ hw (by decide)
  | ifElse head s s' =>
    obtain rfl : w = "if" := by simpa [Outline.opening] using hopen
    exact other _ hw (by decide)
  | doWhile body head =>
    obtain rfl : w = "do" := by simpa [Outline.opening] using hopen
    exact other _ hw (by decide)

section Inversion

variable {us rest : List Token} {o : Outline}

theorem Takes.of_simple {body : List Token} (whole : IsSimple body) {rest' : List Token}
    (h : Takes (body ++ .mark ";" :: rest) o rest') : o = .simple body ∧ rest = rest' := by
  have hopen : none = o.opening := (Takes.simple whole).opening_eq h
  have hs := h.shape
  cases o with
  | simple body' =>
    obtain ⟨rfl, -, rfl⟩ := cut_unique whole.1 hs.2.1 rfl rfl hs.1
    exact ⟨rfl, rfl⟩
  | _ => cases hopen

theorem Takes.of_block (h : Takes (.mark "\x7b" :: us) o rest) :
    ∃ items, o = .block items ∧ TakesItems us items (.mark "\x7d" :: rest) := by
  generalize hts : .mark "\x7b" :: us = ts at h
  cases h with
  | simple whole => exact absurd (whole.lead hts).1 (by decide)
  | block inner =>
    obtain rfl := (List.cons.inj hts).2
    exact ⟨_, rfl, inner⟩
  | _ => cases hts

theorem Takes.of_if (h : Takes (.word "if" :: us) o rest) :
    (∃ head ts consequent, o = .ifOnly head consequent ∧ us = head ++ ts ∧ IsGroup head ∧
      Takes ts consequent rest ∧ rest.head? ≠ some (.word "else")) ∨
    ∃ head ts vs consequent alternative, o = .ifElse head consequent alternative ∧
      us = head ++ ts ∧ IsGroup head ∧ Takes ts consequent (.word "else" :: vs) ∧
      Takes vs alternative rest := by
  generalize hts : .word "if" :: us = ts at h
  cases h with
  | simple whole => exact absurd (whole.lead hts).1 (by decide)
  | block => cases hts
  | ifOnly group inner last =>
    exact .inl ⟨_, _, _, rfl, (List.cons.inj hts).2, group, inner, last⟩
  | ifElse group inner other =>
    exact .inr ⟨_, _, _, _, _, rfl, (List.cons.inj hts).2, group, inner, other⟩
  | headed known =>
    cases hts
    exact absurd known (by decide)
  | doWhile => simp at hts

theorem Takes.of_headed {word : String} (known : word ∈ ["while", "for", "switch"])
    (h : Takes (.word word :: us) o rest) :
    ∃ head ts body, o = .headed word head body ∧ us = head ++ ts ∧ IsGroup head ∧
      Takes ts body rest := by
  have opens : ∀ w ∈ ["while", "for", "switch"], (Token.word w).opens = true := by decide
  generalize hts : .word word :: us = ts at h
  cases h with
  | simple whole => exact absurd (whole.lead hts).1 (by rw [opens _ known]; decide)
  | headed known' group inner =>
    obtain ⟨hword, htail⟩ := List.cons.inj hts
    cases hword
    exact ⟨_, _, _, rfl, htail, group, inner⟩
  | block => cases hts
  | _ =>
    -- The word is none of the other three that open a statement.
    cases hts
    exact absurd known (by decide)

theorem Takes.of_do (h : Takes (.word "do" :: us) o rest) :
    ∃ head body, o = .doWhile body head ∧ IsGroup head ∧
      Takes us body (.word "while" :: (head ++ .mark ";" :: rest)) := by
  generalize hts : .word "do" :: us = ts at h
  cases h with
  | simple whole => exact absurd (whole.lead hts).1 (by decide)
  | block => cases hts
  | headed known =>
    cases hts
    exact absurd known (by decide)
  | doWhile inner group =>
    obtain rfl := (List.cons.inj hts).2
    exact ⟨_, _, rfl, group, inner⟩
  | _ => simp at hts

end Inversion

mutual

/-- Tokens start with at most one statement. -/
theorem Takes.unique : ∀ {ts rest : List Token} {o : Outline}, Takes ts o rest →
    ∀ {o' : Outline} {rest' : List Token}, Takes ts o' rest' → o = o' ∧ rest = rest'
  | _, _, _, .simple whole, o', rest', h' => by
    obtain ⟨rfl, rfl⟩ := h'.of_simple whole
    exact ⟨rfl, rfl⟩
  | _, _, _, .block inner, o', rest', h' => by
    obtain ⟨items', rfl, inner'⟩ := h'.of_block
    obtain ⟨rfl, hrest⟩ := inner.unique inner'
    exact ⟨rfl, (List.cons.inj hrest).2⟩
  | _, _, _, .ifOnly group inner last, o', rest', h' => by
    rcases h'.of_if with ⟨head', us, s', rfl, hus, group', inner', -⟩ |
      ⟨head', us, vs, s', t', rfl, hus, group', inner', -⟩
    · obtain ⟨rfl, rfl⟩ := group.unique group' hus
      obtain ⟨rfl, rfl⟩ := inner.unique inner'
      exact ⟨rfl, rfl⟩
    · obtain ⟨rfl, rfl⟩ := group.unique group' hus
      obtain ⟨-, hrest⟩ := inner.unique inner'
      -- An `else` follows the branch, so this `if` must take it.
      exact absurd (by rw [hrest]; rfl) last
  | _, _, _, .ifElse group inner other, o', rest', h' => by
    rcases h'.of_if with ⟨head', us, s', rfl, hus, group', inner', last'⟩ |
      ⟨head', us, vs, s', t', rfl, hus, group', inner', other'⟩
    · obtain ⟨rfl, rfl⟩ := group.unique group' hus
      obtain ⟨-, hrest⟩ := inner.unique inner'
      exact absurd (by rw [← hrest]; rfl) last'
    · obtain ⟨rfl, rfl⟩ := group.unique group' hus
      obtain ⟨rfl, hrest⟩ := inner.unique inner'
      rw [← (List.cons.inj hrest).2] at other'
      obtain ⟨rfl, rfl⟩ := other.unique other'
      exact ⟨rfl, rfl⟩
  | _, _, _, .headed known group inner, o', rest', h' => by
    obtain ⟨head', us, body', rfl, hus, group', inner'⟩ := h'.of_headed known
    obtain ⟨rfl, rfl⟩ := group.unique group' hus
    obtain ⟨rfl, rfl⟩ := inner.unique inner'
    exact ⟨rfl, rfl⟩
  | _, _, _, .doWhile inner group, o', rest', h' => by
    obtain ⟨head', body', rfl, group', inner'⟩ := h'.of_do
    obtain ⟨rfl, hrest⟩ := inner.unique inner'
    obtain ⟨rfl, htail⟩ := group.unique group' (List.cons.inj hrest).2
    exact ⟨rfl, (List.cons.inj htail).2⟩

theorem TakesItems.unique : ∀ {ts rest : List Token} {items : List Item}, TakesItems ts items rest →
    ∀ {items' : List Item} {rest' : List Token}, TakesItems ts items' rest' →
    items = items' ∧ rest = rest'
  | _, _, _, .none, items', rest', h' => by
    have hs := h'.shape
    match items' with
    | [] =>
      obtain ⟨us, hus, rfl⟩ := hs
      exact ⟨rfl, hus⟩
    | .label l :: items' =>
      obtain ⟨us, hus, whole, -⟩ := hs
      exact absurd hus whole.ne_close
    | .statement o :: items' =>
      obtain ⟨us, first, -⟩ := hs
      exact absurd first Takes.head_ne_close
  | _, _, _, @TakesItems.label l _ _ _ whole others, items', rest', h' => by
    have hs := h'.shape
    match items' with
    | [] =>
      obtain ⟨us, hus, -⟩ := hs
      exact absurd hus.symm whole.ne_close
    | .label l' :: items' =>
      obtain ⟨us, hus, whole', others'⟩ := hs
      obtain ⟨rfl, rfl⟩ := whole.unique whole' hus
      obtain ⟨rfl, rfl⟩ := others.unique others'
      exact ⟨rfl, rfl⟩
    | .statement o :: items' =>
      obtain ⟨us, first, -⟩ := hs
      exact absurd first whole.not_takes
  | _, _, _, .statement first others, items', rest', h' => by
    have hs := h'.shape
    match items' with
    | [] =>
      obtain ⟨us, rfl, -⟩ := hs
      exact absurd first Takes.head_ne_close
    | .label l' :: items' =>
      obtain ⟨us, rfl, whole', -⟩ := hs
      exact absurd first whole'.not_takes
    | .statement o :: items' =>
      obtain ⟨us, first', others'⟩ := hs
      obtain ⟨rfl, rfl⟩ := first.unique first'
      obtain ⟨rfl, rfl⟩ := others.unique others'
      exact ⟨rfl, rfl⟩

end

theorem IsSimple.not_takes {header us rest : List Token} {o : Outline} (h : IsSimple header)
    (hne : header ≠ []) : ¬Takes (header ++ .mark "\x7b" :: us) o rest := by
  intro ho
  have hopen : none = o.opening := by
    rw [← ho.opening]
    cases header with
    | nil => exact absurd rfl hne
    | cons t header =>
      have hlead : t :: (header ++ [.mark ";"]) = t :: header ++ .mark ";" :: [] := rfl
      simp [Option.filter, (h.lead hlead).1]
  have hs := ho.shape
  cases o with
  | simple body =>
    obtain ⟨-, hmark, -⟩ := cut_unique h.1 hs.2.1 rfl rfl hs.1
    exact absurd hmark (by decide)
  | _ => cases hopen

theorem Takes.ne_nil {ts rest : List Token} {o : Outline} (h : Takes ts o rest) : ts ≠ [] := by
  cases h <;> simp

def AllShape (ts : List Token) : List External → Prop
  | [] => ts = []
  | .function header items :: xs => ∃ us vs, ts = header ++ .mark "\x7b" :: us ∧ header ≠ [] ∧
    IsSimple header ∧ TakesItems us items (.mark "\x7d" :: vs) ∧ TakesAll vs xs
  | .statement o :: xs => ∃ us, Takes ts o us ∧ TakesAll us xs

theorem TakesAll.shape {ts : List Token} {xs : List External} (h : TakesAll ts xs) :
    AllShape ts xs := by
  cases h with
  | none => rfl
  | function nonempty whole inner others => exact ⟨_, _, rfl, nonempty, whole, inner, others⟩
  | statement first others => exact ⟨_, first, others⟩

/-- Tokens are read in at most one way. -/
theorem TakesAll.unique {ts : List Token} {xs : List External} (h : TakesAll ts xs) :
    ∀ {ys : List External}, TakesAll ts ys → xs = ys := by
  induction h with
  | none =>
    intro ys h'
    have hs := h'.shape
    match ys with
    | [] => rfl
    | .function header items :: ys =>
      obtain ⟨us, vs, hus, -⟩ := hs
      simp at hus
    | .statement o :: ys =>
      obtain ⟨us, first, -⟩ := hs
      exact absurd rfl first.ne_nil
  | function nonempty whole inner others ih =>
    intro ys h'
    have hs := h'.shape
    match ys with
    | [] =>
      have hs : _ = [] := hs
      simp at hs
    | .function header' items' :: ys =>
      obtain ⟨us, vs, hus, nonempty', whole', inner', others'⟩ := hs
      obtain ⟨rfl, -, rfl⟩ := cut_unique whole.1 whole'.1 rfl rfl hus
      obtain ⟨rfl, hrest⟩ := inner.unique inner'
      rw [← (List.cons.inj hrest).2] at others'
      rw [ih others']
    | .statement o :: ys =>
      obtain ⟨us, first, -⟩ := hs
      exact absurd first (whole.not_takes nonempty)
  | statement first others ih =>
    intro ys h'
    have hs := h'.shape
    match ys with
    | [] => exact absurd hs first.ne_nil
    | .function header items :: ys =>
      obtain ⟨us, vs, rfl, nonempty, whole, -⟩ := hs
      exact absurd first (whole.not_takes nonempty)
    | .statement o :: ys =>
      obtain ⟨us, first', others'⟩ := hs
      obtain ⟨rfl, rfl⟩ := first.unique first'
      rw [ih others']

end Uniqueness

end KanaScript.C
