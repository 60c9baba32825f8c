import KanaScript.Proofs.Grammar.Expression
import KanaScript.Proofs.Grammar.ProgramAction
import KanaScript.Proofs.Grammar.Writing

/-! Programs that were written are read back.  `Accepts` says that an action takes exactly the
tokens with given words, whatever their places, as long as the words after them do not go on with
what it reads. -/

namespace KanaScript

namespace Token

@[simp]
theorem word_kind (t : Token) : t.word.kind = t.kind := rfl

theorem word_eq_mark {t : Token} {kind : TokenKind} {text : String} :
    t.word = .mark kind text ↔ t.kind = kind ∧ t.payload = .text text := by
  simp [word, Word.mark]

theorem isWord_iff {t : Token} {kind : TokenKind} {text : String} :
    t.isWord kind text = true ↔ t.word = .mark kind text := by
  simp [word_eq_mark, isWord]

theorem text_of_word {t : Token} {kind : TokenKind} {text : String}
    (h : t.word = .mark kind text) : t.text = text := by
  simp [Token.text, (word_eq_mark.mp h).2, Payload.text?]

theorem kind_of_word {t : Token} {kind : TokenKind} {text : String}
    (h : t.word = .mark kind text) : t.kind = kind := (word_eq_mark.mp h).1

theorem isOperator_of_word {t : Token} {op : String} {ops : List String}
    (h : t.word = .operator op) (hop : op ∈ ops) : Grammar.isOperator ops t = true :=
  Grammar.isOperator_iff.mpr ⟨kind_of_word h, text_of_word h ▸ hop⟩

end Token

section Expressions

open Grammar

variable {ts : List Token}

theorem Grammar.Derives.loosen {levels all : List (List String)} {e : Expr}
    (h : Derives (.binary levels) ts e) (hl : levels <:+ all) : Derives (.binary all) ts e := by
  obtain ⟨looser, rfl⟩ := hl
  induction looser with
  | nil => exact h
  | cons ops looser ih => exact .tighter ih

theorem Grammar.Derives.assignment_of_suffixed {e : Expr} (h : Derives .suffixed ts e) :
    Derives .assignment ts e :=
  .unassigned (h.unprefixed.binary_of_prefixed _)

theorem Expr.derives_leaf {e : Expr} (h : e.isComposite = false)
    (hts : ts.map Token.word = e.words) :
    ∃ read, Derives .primary ts read ∧ read.unplaced = e.unplaced := by
  cases e with
  | name text position =>
    simp only [Expr.words, List.map_eq_cons_iff, List.map_eq_nil_iff] at hts
    obtain ⟨t, _, rfl, ht, rfl⟩ := hts
    refine ⟨_, .name (.inl (Token.kind_of_word ht)), ?_⟩
    simp [Expr.unplaced, Token.text_of_word ht]
  | number value position =>
    simp only [Expr.words, List.map_eq_cons_iff, List.map_eq_nil_iff] at hts
    obtain ⟨t, _, rfl, ht, rfl⟩ := hts
    obtain ⟨hk, hp⟩ : t.kind = .number ∧ t.payload = .number value := by
      simpa [Token.word] using ht
    exact ⟨_, .number hk hp, rfl⟩
  | string text position =>
    simp only [Expr.words, List.map_eq_cons_iff, List.map_eq_nil_iff] at hts
    obtain ⟨t, _, rfl, ht, rfl⟩ := hts
    refine ⟨_, .string (Token.kind_of_word ht), ?_⟩
    simp [Expr.unplaced, Token.text_of_word ht]
  | char text position =>
    simp only [Expr.words, List.map_eq_cons_iff, List.map_eq_nil_iff] at hts
    obtain ⟨t, _, rfl, ht, rfl⟩ := hts
    refine ⟨_, .char (Token.kind_of_word ht), ?_⟩
    simp [Expr.unplaced, Token.text_of_word ht]
  | binary | prefixed | suffixed | assign | call | index => cases h

theorem Expr.derives_of_leaf {e : Expr} (h : e.isComposite = false)
    (hts : ts.map Token.word = e.words) :
    ∃ read, Derives .assignment ts read ∧ read.unplaced = e.unplaced := by
  obtain ⟨read, hd, he⟩ := derives_leaf h hts
  exact ⟨read, hd.unsuffixed.assignment_of_suffixed, he⟩

/-- An operand is derived as such if it is derived as an expression of its own. -/
theorem Expr.derives_operand {e : Expr}
    (whole : ∀ {us : List Token}, us.map Token.word = e.words →
      ∃ read, Derives .assignment us read ∧ read.unplaced = e.unplaced)
    (hts : ts.map Token.word = operandWords e e.words) :
    ∃ read, Derives .suffixed ts read ∧ read.unplaced = e.unplaced := by
  rw [operandWords] at hts
  split at hts
  · simp only [List.map_eq_cons_iff, List.map_eq_append_iff, List.map_eq_nil_iff] at hts
    obtain ⟨t, _, rfl, ht, us, _, rfl, hus, u, _, rfl, hu, rfl⟩ := hts
    obtain ⟨read, hd, he⟩ := whole hus
    exact ⟨read, .unsuffixed (.group (Token.kind_of_word ht) hd (Token.kind_of_word hu)), he⟩
  · rename_i hc
    obtain ⟨read, hd, he⟩ := derives_leaf (by simpa using hc) hts
    exact ⟨read, .unsuffixed hd, he⟩

mutual

/-- The tokens of a written expression derive it, up to places. -/
theorem Expr.derives_of_words : ∀ {e : Expr} {ts : List Token}, e.HasKnownOperators →
    ts.map Token.word = e.words → ∃ read, Derives .assignment ts read ∧ read.unplaced = e.unplaced
  | .binary op left right _, ts, known, hts => by
    obtain ⟨⟨ops, hops, hop⟩, hl, hr⟩ := Expr.hasKnownOperators_binary.mp known
    simp only [Expr.words, List.map_eq_cons_iff, List.map_eq_append_iff] at hts
    obtain ⟨a, _, rfl, ha, t, b, rfl, ht, hb⟩ := hts
    obtain ⟨l, hdl, hul⟩ := Expr.derives_operand (Expr.derives_of_words hl) ha
    obtain ⟨r, hdr, hur⟩ := Expr.derives_operand (Expr.derives_of_words hr) hb
    obtain ⟨looser, tighter, hlevels⟩ := List.append_of_mem hops
    have whole := Derives.operate (hdl.unprefixed.binary_of_prefixed _)
      (Token.isOperator_of_word ht hop) (hdr.unprefixed.binary_of_prefixed tighter)
    refine ⟨_, .unassigned (whole.loosen ⟨looser, hlevels.symm⟩), ?_⟩
    simp [Expr.unplaced, hul, hur, Token.text_of_word ht]
  | .prefixed op operand _, ts, known, hts => by
    obtain ⟨hop, ho⟩ := Expr.hasKnownOperators_prefixed.mp known
    simp only [Expr.words, List.map_eq_cons_iff] at hts
    obtain ⟨t, a, rfl, ht, ha⟩ := hts
    obtain ⟨e, hd, hu⟩ := Expr.derives_operand (Expr.derives_of_words ho) ha
    have whole := Derives.before (Token.isOperator_of_word ht hop) hd.unprefixed
    refine ⟨_, .unassigned (whole.binary_of_prefixed _), ?_⟩
    simp [Expr.unplaced, hu, Token.text_of_word ht]
  | .suffixed op operand _, ts, known, hts => by
    obtain ⟨hop, ho⟩ := Expr.hasKnownOperators_suffixed.mp known
    simp only [Expr.words, List.map_eq_cons_iff, List.map_eq_append_iff, List.map_eq_nil_iff] at hts
    obtain ⟨a, _, rfl, ha, t, _, rfl, ht, rfl⟩ := hts
    obtain ⟨e, hd, hu⟩ := Expr.derives_operand (Expr.derives_of_words ho) ha
    refine ⟨_, (hd.after (Token.isOperator_of_word ht hop)).assignment_of_suffixed, ?_⟩
    simp [Expr.unplaced, hu, Token.text_of_word ht]
  | .assign target value _, ts, known, hts => by
    obtain ⟨hl, hr⟩ := Expr.hasKnownOperators_assign.mp known
    simp only [Expr.words, List.map_eq_cons_iff, List.map_eq_append_iff] at hts
    obtain ⟨a, _, rfl, ha, t, b, rfl, ht, hb⟩ := hts
    obtain ⟨l, hdl, hul⟩ := Expr.derives_operand (Expr.derives_of_words hl) ha
    obtain ⟨r, hdr, hur⟩ := Expr.derives_operand (Expr.derives_of_words hr) hb
    refine ⟨_, .assign (hdl.unprefixed.binary_of_prefixed _) (Token.isWord_iff.mpr ht)
      hdr.assignment_of_suffixed, ?_⟩
    simp [Expr.unplaced, hul, hur]
  | .call callee arguments _, ts, known, hts => by
    obtain ⟨hc, has⟩ := Expr.hasKnownOperators_call.mp known
    simp only [Expr.words, List.map_eq_cons_iff, List.map_eq_append_iff, List.map_eq_nil_iff] at hts
    obtain ⟨a, _, rfl, ha, t, _, rfl, ht, b, _, rfl, hb, u, _, rfl, hu, rfl⟩ := hts
    obtain ⟨f, hdf, huf⟩ := Expr.derives_operand (Expr.derives_of_words hc) ha
    obtain ⟨es, hds, hus⟩ := derivesList_of_words has hb
    refine ⟨_, (hdf.call (Token.kind_of_word ht) hds
      (Token.kind_of_word hu)).assignment_of_suffixed, ?_⟩
    simp [Expr.unplaced, huf, hus]
  | .index array index _, ts, known, hts => by
    obtain ⟨hl, hr⟩ := Expr.hasKnownOperators_index.mp known
    simp only [Expr.words, List.map_eq_cons_iff, List.map_eq_append_iff, List.map_eq_nil_iff] at hts
    obtain ⟨a, _, rfl, ha, t, _, rfl, ht, b, _, rfl, hb, u, _, rfl, hu, rfl⟩ := hts
    obtain ⟨l, hdl, hul⟩ := Expr.derives_operand (Expr.derives_of_words hl) ha
    obtain ⟨r, hdr, hur⟩ := Expr.derives_of_words hr hb
    refine ⟨_, (hdl.index (Token.kind_of_word ht) hdr
      (Token.kind_of_word hu)).assignment_of_suffixed, ?_⟩
    simp [Expr.unplaced, hul, hur]
  | .name _ _, ts, _, hts => Expr.derives_of_leaf rfl hts
  | .number _ _, ts, _, hts => Expr.derives_of_leaf rfl hts
  | .string _ _, ts, _, hts => Expr.derives_of_leaf rfl hts
  | .char _ _, ts, _, hts => Expr.derives_of_leaf rfl hts

theorem derivesList_of_words : ∀ {es : List Expr} {ts : List Token},
    (∀ e ∈ es, e.HasKnownOperators) → ts.map Token.word = argumentWords es →
    ∃ reads, DerivesList ts reads ∧ unplacedArguments reads = unplacedArguments es
  | [], ts, known, hts => by
    rw [argumentWords, List.map_eq_nil_iff] at hts
    exact ⟨[], hts ▸ .none, rfl⟩
  | [e], ts, known, hts => by
    obtain ⟨read, hd, hu⟩ := Expr.derives_of_words (known e List.mem_cons_self) hts
    exact ⟨[read], .last hd, by simp [unplacedArguments, hu]⟩
  | e :: e' :: es, ts, known, hts => by
    simp only [argumentWords, List.map_eq_cons_iff, List.map_eq_append_iff] at hts
    obtain ⟨a, _, rfl, ha, t, b, rfl, ht, hb⟩ := hts
    obtain ⟨first, hd, hu⟩ := Expr.derives_of_words (known e List.mem_cons_self) ha
    obtain ⟨others, hds, hus⟩ := derivesList_of_words (List.forall_mem_cons.mp known).2 hb
    cases others with
    | nil => simp [unplacedArguments] at hus
    | cons second others =>
      refine ⟨_, .more hd (Token.kind_of_word ht) hds, ?_⟩
      show first.unplaced :: unplacedArguments (second :: others) =
        e.unplaced :: unplacedArguments (e' :: es)
      rw [hu, hus]

end

end Expressions

namespace Grammar.Action

variable {α β : Type} {follow : List Word → Prop} {words : List Word} {good : α → Prop}

/-- The action takes exactly the tokens with the words, if those after them are as in `follow`, and
its value is as in `good`. -/
def Accepts (action : Action α) (follow : List Word → Prop) (words : List Word)
    (good : α → Prop) : Prop :=
  ∀ ts rest, ts.map Token.word = words → follow (rest.map Token.word) →
    ∃ v, action.run (ts ++ rest) = .ok v rest ∧ good v

namespace Accepts

protected theorem pure {v : α} (h : good v) : Accepts (pure v) follow [] good := by
  intro ts rest hts _
  rw [List.map_eq_nil_iff.mp hts]
  exact ⟨v, rfl, h⟩

theorem mono {action : Action α} {follow' : List Word → Prop} {good' : α → Prop}
    (h : Accepts action follow words good) (hf : ∀ after, follow' after → follow after)
    (hg : ∀ v, good v → good' v) : Accepts action follow' words good' := by
  intro ts rest hts hrest
  obtain ⟨v, hrun, hv⟩ := h ts rest hts (hf _ hrest)
  exact ⟨v, hrun, hg v hv⟩

/-- What the second action takes does not go on with what the first one reads. -/
protected theorem bind {first : Action α} {second : α → Action β} {follow' : List Word → Prop}
    {words' : List Word} {good' : β → Prop} (hfirst : Accepts first follow words good)
    (hf : ∀ after, follow' after → follow (words' ++ after))
    (hsecond : ∀ v, good v → Accepts (second v) follow' words' good') :
    Accepts (first >>= second) follow' (words ++ words') good' := by
  intro ts rest hts hrest
  obtain ⟨a, b, rfl, ha, hb⟩ := List.map_eq_append_iff.mp hts
  obtain ⟨v, hrun, hv⟩ := hfirst a (b ++ rest) ha (by simpa [hb] using hf _ hrest)
  obtain ⟨w, hrun', hw⟩ := hsecond v hv b rest hb hrest
  refine ⟨w, ?_, hw⟩
  rw [List.append_assoc, bind_of_ok hrun, hrun']

/-- The second action takes nothing. -/
theorem bindLast {first : Action α} {second : α → Action β} {follow' : List Word → Prop}
    {good' : β → Prop} (hfirst : Accepts first follow words good)
    (hf : ∀ after, follow' after → follow after)
    (hsecond : ∀ v, good v → Accepts (second v) follow' [] good') :
    Accepts (first >>= second) follow' words good' := by
  rw [← List.append_nil words]
  exact hfirst.bind hf hsecond

/-- An action whose value is changed last. -/
theorem map {first : Action α} {f : α → β} {good' : β → Prop}
    (hfirst : Accepts first follow words good) (hg : ∀ v, good v → good' (f v)) :
    Accepts (do return f (← first)) follow words good' := by
  exact hfirst.bindLast (fun _ h => h) fun v hv => .pure (hg v hv)

/-- An action that does nothing but go on with another once it has taken a first token. -/
theorem led {action : Action α} (taken : Token → Action α) {w : Word}
    (hrun : ∀ t rest, t.word = w → action.run (t :: rest) = (taken t).run rest)
    (htaken : ∀ t, t.word = w → Accepts (taken t) follow words good) :
    Accepts action follow (w :: words) good := by
  intro ts rest hts hrest
  obtain ⟨t, us, rfl, ht, hus⟩ := List.map_eq_cons_iff.mp hts
  rw [List.cons_append, hrun t _ ht]
  exact htaken t ht us rest hus hrest

/-- An action that does what another does on the words. -/
theorem congr {action other : Action α} (h : Accepts other follow words good)
    (hrun : ∀ ts after, ts.map Token.word = words ++ after → follow after →
      action.run ts = other.run ts) : Accepts action follow words good := by
  intro ts rest hts hrest
  rw [hrun _ (rest.map Token.word) (by rw [List.map_append, hts]) hrest]
  exact h ts rest hts hrest

section

variable {accepts : Token → Prop} [DecidablePred accepts] {taken : Token → Action α}
  {otherwise : Action α}

theorem takeIf {w : Word} (haccepts : ∀ t, t.word = w → accepts t)
    (htaken : ∀ t, t.word = w → Accepts (taken t) follow words good) :
    Accepts (takeIf accepts taken otherwise) follow (w :: words) good :=
  led taken (fun t _ ht => run_takeIf_pos (haccepts t ht)) htaken

theorem skip (hrefuses : ∀ after, follow after → ∀ t : Token,
      (words ++ after).head? = some t.word → ¬accepts t)
    (h : Accepts otherwise follow words good) :
    Accepts (Action.takeIf accepts taken otherwise) follow words good := by
  refine h.congr fun ts after hts hafter => run_takeIf_neg fun t ht => ?_
  refine hrefuses after hafter t ?_
  rw [← hts, List.head?_map, ht]
  rfl

variable {stops : Option Token → Prop} [DecidablePred stops] {v : α}

protected theorem stopIf (hv : good v) (hstops : ∀ after, follow after → ∀ t : Option Token,
    t.map Token.word = after.head? → stops t) :
    Accepts (stopIf stops v otherwise) follow [] good := by
  refine (Accepts.pure hv).congr fun ts after hts hafter => if_pos ?_
  exact hstops after hafter _ (by rw [← List.head?_map, hts, List.nil_append])

theorem goOn (h : Accepts otherwise follow words good) (hgo : ∀ after, follow after →
    ∀ t : Option Token, t.map Token.word = (words ++ after).head? → ¬stops t) :
    Accepts (Action.stopIf stops v otherwise) follow words good := by
  refine h.congr fun ts after hts hafter => if_neg ?_
  exact hgo after hafter _ (by rw [← List.head?_map, hts])

end

theorem expect {kind : TokenKind} {what : Expectation} {text : String} {second : Token → Action α}
    (h : ∀ t, Accepts (second t) follow words good) :
    Accepts (expect kind what >>= second) follow (.mark kind text :: words) good := by
  refine led second (fun t rest ht => ?_) fun t _ => h t
  exact bind_of_ok (run_takeIf_pos (Token.kind_of_word ht))

theorem name {text : String} {second : String → Action α}
    (h : Accepts (second text) follow words good) :
    Accepts (name >>= second) follow (.identifier text :: words) good := by
  refine led (fun _ => second text) (fun t rest ht => ?_) fun _ _ => h
  rw [← Token.text_of_word ht]
  exact bind_of_ok (run_takeIf_pos (.inl (Token.kind_of_word ht)))

protected theorem terminated {action : Action α} {follow' : List Word → Prop}
    (h : Accepts action follow words good)
    (hf : ∀ after, follow' after → follow (.semicolon :: after)) :
    Accepts (terminated action) follow' (words ++ [.semicolon]) good := by
  refine h.bind hf fun v hv => ?_
  refine .led (fun _ => pure v) (fun t rest ht => ?_) fun _ _ => .pure hv
  exact bind_of_ok (run_takeIf_pos (Token.kind_of_word ht))

theorem unterminated {action : Action α} {follow' : List Word → Prop}
    (h : Accepts action follow words good)
    (hf : ∀ after, follow' after → follow after ∧ ∀ w ∈ after.head?, w.kind ≠ .semicolon) :
    Accepts (Action.terminated action) follow' words good := by
  have hlast : ∀ v, good v → Accepts (terminator >>= fun _ => pure v) follow' [] good := by
    refine fun v hv => (Accepts.pure hv).congr fun ts after hts hafter => ?_
    refine bind_of_ok (run_takeIf_neg fun t ht hk => ?_)
    refine (hf after hafter).2 t.word ?_ hk
    rw [← List.nil_append after, ← hts, List.head?_map, ht]
    rfl
  exact h.bindLast (fun after hafter => (hf after hafter).1) hlast

end Accepts

end Grammar.Action

section Variables

open Grammar Action

variable {v : Variable}

/-- The words do not go on with an expression that ends before them. -/
def Halts (after : List Word) : Prop :=
  ∀ w ∈ after.head?, w.kind ∉ [TokenKind.operator, .openParen, .openBracket]

theorem Halts.stops {rest : List Token} (h : Halts (rest.map Token.word)) :
    Stops .assignment rest := by
  cases rest with
  | nil => simp [Stops]
  | cons t us =>
    have ht := h t.word rfl
    simp only [Token.word, List.mem_cons, List.not_mem_nil, or_false, not_or] at ht
    exact stops_cons ht.1 ht.2.1 ht.2.2

/-- Tokens that an expression is derived from are read as that expression. -/
theorem run_expression_of_derives {ts rest : List Token} {e : Expr} (hd : Derives .assignment ts e)
    (h : Halts (rest.map Token.word)) : expression.run (ts ++ rest) = .ok e rest :=
  Reading.result_eq_ok_iff.mpr (yields_expression_iff.mpr ⟨ts, rfl, hd, h.stops⟩)

theorem accepts_expression {e : Expr} (known : e.HasKnownOperators) :
    Accepts expression Halts e.words (·.unplaced = e.unplaced) := by
  intro ts rest hts hrest
  obtain ⟨read, hd, hu⟩ := Expr.derives_of_words known hts
  exact ⟨read, run_expression_of_derives hd hrest, hu⟩

theorem Variable.typeName_of_elementType? {type : String} (h : v.elementType? = some type) :
    type ++ arraySuffix = v.typeName := by
  rw [Variable.elementType?] at h
  split at h
  · rename_i hs
    obtain ⟨element, he⟩ := List.isSuffixOf_iff_suffix.mp hs
    have ht : v.typeName.toList.take (v.typeName.toList.length - arraySuffix.length) = element := by
      rw [← he, ← String.length_toList, List.length_append, Nat.add_sub_cancel, List.take_left]
    rw [← Option.some.inj h, ht, ← String.toList_inj, ← he]
    simp
  · cases h

theorem accepts_sizeSuffix :
    Accepts sizeSuffix (fun after => ∀ w ∈ after.head?, w.kind ≠ .openBracket) v.brackets
      fun suffix => v.elementType?.getD v.typeName ++ suffix = v.typeName := by
  rw [Variable.brackets]
  cases h : v.elementType? with
  | some type =>
    refine .takeIf (fun t => Token.kind_of_word) fun _ _ => ?_
    refine .takeIf (fun t => Token.kind_of_word) fun _ _ => .pure ?_
    exact Variable.typeName_of_elementType? h
  | none =>
    refine .skip (fun after hafter t ht hk => ?_) (.pure (by simp))
    exact hafter t.word ht hk

theorem accepts_variableRest {position : Position} (known : ∀ e ∈ v.init, e.HasKnownOperators) :
    Accepts (variableRest (v.elementType?.getD v.typeName) v.name position) Halts
      (v.brackets ++ initWords v.init) (·.unplaced = v.unplaced) := by
  obtain ⟨typeName, name, init, place⟩ := v
  refine accepts_sizeSuffix.bind ?_ fun suffix hs => ?_
  · rintro after hafter w hw
    cases init with
    | none => exact fun hk => hafter w hw (by simp [hk])
    | some e =>
      obtain rfl : Word.operator "=" = w := by simpa [initWords] using hw
      decide
  · cases init with
    | none =>
      refine .skip (fun after hafter t ht hw => ?_) (.pure ?_)
      · have hk : t.kind ≠ .operator := fun h => hafter t.word ht (by simp [h])
        exact hk (Token.kind_of_word (Token.isWord_iff.mp hw))
      · simp [Variable.unplaced, hs]
    | some e =>
      refine .takeIf (fun t => Token.isWord_iff.mpr) fun _ _ => ?_
      refine (accepts_expression (known e rfl)).map fun read hread => ?_
      simp [Variable.unplaced, hs, hread]

/-- A variable after its type. -/
theorem accepts_typedVariable {t : Token} (known : ∀ e ∈ v.init, e.HasKnownOperators)
    (ht : t.word = .type (v.elementType?.getD v.typeName)) :
    Accepts (typedVariable t) Halts (.identifier v.name :: (v.brackets ++ initWords v.init))
      (·.unplaced = v.unplaced) := by
  refine .name ?_
  rw [Token.text_of_word ht]
  exact accepts_variableRest known

end Variables

section Leads

open Grammar Action

/-- The kinds of the words that a written expression may start with. -/
def leadKinds : List TokenKind :=
  [.number, .stringLiteral, .charLiteral, .identifier, .openParen, .operator]

def Word.leadsExpression (w : Word) : Bool := leadKinds.contains w.kind

theorem Word.kind_ne_of_leadsExpression {w : Word} {kind : TokenKind}
    (hw : w.leadsExpression = true) (hk : leadKinds.contains kind = false) : w.kind ≠ kind := by
  rintro rfl
  cases hw.symm.trans hk

theorem operandWords_lead {e : Expr} {words : List Word}
    (h : ∃ w ws, words = w :: ws ∧ w.leadsExpression = true) (more : List Word) :
    ∃ w ws, operandWords e words ++ more = w :: ws ∧ w.leadsExpression = true := by
  rw [operandWords]
  split
  · exact ⟨_, _, rfl, rfl⟩
  · obtain ⟨w, ws, rfl, hw⟩ := h
    exact ⟨w, ws ++ more, rfl, hw⟩

theorem Expr.words_lead (e : Expr) : ∃ w ws, e.words = w :: ws ∧ w.leadsExpression = true := by
  cases e with
  | binary op left right _ => exact operandWords_lead left.words_lead _
  | suffixed op operand _ => exact operandWords_lead operand.words_lead _
  | assign target value _ => exact operandWords_lead target.words_lead _
  | call callee arguments _ => exact operandWords_lead callee.words_lead _
  | index array index _ => exact operandWords_lead array.words_lead _
  | _ => exact ⟨_, _, rfl, rfl⟩

theorem Expr.leadsExpression_of_head {e : Expr} {after : List Word} {w : Word}
    (h : (e.words ++ after).head? = some w) : w.leadsExpression = true := by
  obtain ⟨u, us, he, hu⟩ := e.words_lead
  rw [he] at h
  exact Option.some.inj h ▸ hu

/-- An expression before a token that can neither start nor continue one, or no expression. -/
theorem accepts_optionalExpression (ending : TokenKind) (text : String) {e : Option Expr}
    (known : ∀ x ∈ e, x.HasKnownOperators)
    (hhalts : ending ∉ [TokenKind.operator, .openParen, .openBracket])
    (hleads : leadKinds.contains ending = false) :
    Accepts (optionalExpression ending) (·.head? = some (.mark ending text)) (optionalWords e)
      (·.map Expr.unplaced = e.map Expr.unplaced) := by
  cases e with
  | none =>
    refine .stopIf rfl fun after hafter t ht => ?_
    rw [hafter] at ht
    obtain ⟨u, rfl, hu⟩ := Option.map_eq_some_iff.mp ht
    simpa using Token.kind_of_word hu
  | some e =>
    have whole : Accepts (do return some (← expression)) Halts (optionalWords (some e))
        (·.map Expr.unplaced = some e.unplaced) :=
      (accepts_expression (known e rfl)).map fun read hread => by rw [Option.map_some, hread]
    refine (whole.mono (fun after hafter => ?_) fun _ => id).goOn fun after hafter t ht => ?_
    · simpa [Halts, hafter, Word.mark] using hhalts
    · cases t with
      | none => simp
      | some u =>
        have hu : u.word.leadsExpression = true := Expr.leadsExpression_of_head ht.symm
        simpa using Word.kind_ne_of_leadsExpression hu hleads

end Leads

end KanaScript
