import KanaScript.Proofs.Grammar.ExpressionSteps

/-! The reading of expressions is exact: it accepts what the rules derive, with the longest reach,
and nothing else. -/

namespace KanaScript.Grammar

open Reading

/-- The front of `ts` derives `e` at the tier, and nothing left over could continue it. -/
def Reads (tier : Tier) (ts : List Token) (e : Expr) (rest : List Token) : Prop :=
  ∃ used, ts = used ++ rest ∧ Derives tier used e ∧ Stops tier rest

/-- The loop over the operators of one level keeps what it has read so far derived. -/
theorem chain_sound {n : Nat} {operand : Rule n Expr} {ops : List String}
    {tighter : List (List String)} (sound : ∀ {us rest : List Token} {v : Expr} {h : us.length < n},
      (operand us h).Yields v rest → Reads (.binary tighter) us v rest) (k : Nat) :
    ∀ {ts rest used : List Token} {e v : Expr} {h : ts.length < n}, ts.length = k →
    (chain operand ops e ts h).Yields v rest → Derives (.binary (ops :: tighter)) used e →
    Stops (.binary tighter) ts →
    ∃ more, ts = more ++ rest ∧ Derives (.binary (ops :: tighter)) (used ++ more) v ∧
      Stops (.binary (ops :: tighter)) rest := by
  induction k using Nat.strongRecOn with
  | _ k ih =>
    intro ts rest used e v h hk hy he hstop
    cases ts with
    | nil =>
      obtain ⟨rfl, rfl⟩ := yields_chain_nil.mp hy
      exact ⟨[], rfl, by simpa using he, by simp [Stops]⟩
    | cons t ts =>
      simp only [List.length_cons] at h hk
      rcases yields_chain_cons.mp hy with ⟨ho, right, middle, h₁, h₂, hr, hv⟩ | ⟨ho, rfl, rfl⟩
      · have hlt : middle.length < k := by
          have := hr.shorter
          omega
        obtain ⟨inner, rfl, hd, hstop'⟩ := sound hr
        obtain ⟨more, rfl, hd', stops⟩ := ih _ hlt rfl hv (he.operate ho hd) hstop'
        exact ⟨t :: inner ++ more, by simp, by simpa using hd', stops⟩
      · refine ⟨[], rfl, by simpa using he, fun u hu => ?_⟩
        have hc := hstop u hu
        obtain rfl : t = u := by simpa using hu
        simp_all [Tier.continues]

section Soundness

/-! What is read is derived.  The hypothesis `nested` is the same statement for the expressions
nested in the one being read, which have fewer tokens. -/

variable {n : Nat} (nested : ∀ us : List Token, us.length < n → ∀ e rest,
  (expression us).Yields e rest → Reads .assignment us e rest)

include nested

theorem primary_sound {ts rest : List Token} {v : Expr} {h : ts.length < n + 1}
    (hy : (primary (nestedExpression n) ts h).Yields v rest) : Reads .primary ts v rest := by
  have stops : Stops .primary rest := fun _ _ => rfl
  cases ts with
  | nil => exact absurd hy not_yields_failed
  | cons t ts =>
    rcases yields_primary.mp hy with ⟨value, hk, hp, rfl, rfl⟩ | ⟨hk, rfl, rfl⟩ | ⟨hk, rfl, rfl⟩ |
      ⟨hk, rfl, rfl⟩ | ⟨hk, u, he, hu⟩
    · exact ⟨[t], rfl, .number hk hp, stops⟩
    · exact ⟨[t], rfl, .string hk, stops⟩
    · exact ⟨[t], rfl, .char hk, stops⟩
    · exact ⟨[t], rfl, .name hk, stops⟩
    · obtain ⟨used, rfl, hd, -⟩ := nested ts (Nat.lt_of_succ_lt_succ h) _ _ he
      exact ⟨t :: (used ++ [u]), by simp, .group hk hd hu, stops⟩

theorem expressionList_sound (k : Nat) : ∀ {ts rest : List Token} {es : List Expr}
    {h : ts.length < n}, ts.length = k →
    (expressionList (nestedExpression n) ts h).Yields es rest →
    ∃ used e es', ts = used ++ rest ∧ es = e :: es' ∧ DerivesList used (e :: es') := by
  induction k using Nat.strongRecOn with
  | _ k ih =>
    intro ts rest es h hk hy
    obtain ⟨e, ⟨he, -, rfl⟩ | ⟨t, more, es', h', he, hc, hes, rfl⟩⟩ := yields_expressionList.mp hy
    · obtain ⟨used, rfl, hd, -⟩ := nested ts h _ _ he
      exact ⟨used, e, [], rfl, rfl, .last hd⟩
    · have hlt : more.length < k := by
        have := he.shorter
        simp only [List.length_cons] at this
        omega
      obtain ⟨used, rfl, hd, -⟩ := nested ts h _ _ he
      obtain ⟨others, e', es'', rfl, rfl, hds⟩ := ih more.length hlt rfl hes
      exact ⟨used ++ t :: others, e, e' :: es'', by simp, rfl, .more hd hc hds⟩

theorem arguments_sound {ts rest : List Token} {es : List Expr} {h : ts.length < n}
    (hy : (arguments (nestedExpression n) ts h).Yields es rest) :
    ∃ used u, ts = used ++ u :: rest ∧ u.kind = .closeParen ∧ DerivesList used es := by
  rcases yields_arguments.mp hy with ⟨u, rfl, hu, rfl⟩ | ⟨-, u, hu, hes⟩
  · exact ⟨[], u, rfl, hu, .none⟩
  · obtain ⟨used, e, es', hts, rfl, hd⟩ := expressionList_sound nested ts.length rfl hes
    exact ⟨used, u, hts, hu, hd⟩

/-- The loop over suffixes keeps what it has read so far derived. -/
theorem suffixes_sound (k : Nat) : ∀ {ts rest used : List Token} {e v : Expr}
    {h : ts.length < n + 1}, ts.length = k →
    (suffixes (nestedExpression n) e ts h).Yields v rest → Derives .suffixed used e →
    ∃ more, ts = more ++ rest ∧ Derives .suffixed (used ++ more) v ∧ Stops .suffixed rest := by
  induction k using Nat.strongRecOn with
  | _ k ih =>
    intro ts rest used e v h hk hy he
    cases ts with
    | nil =>
      obtain ⟨rfl, rfl⟩ := yields_suffixes_nil.mp hy
      exact ⟨[], rfl, by simpa using he, by simp [Stops]⟩
    | cons t ts =>
      simp only [List.length_cons] at h hk
      rcases yields_suffixes_cons.mp hy with ⟨ho, es, middle, h₁, h₂, hes, hv⟩ |
        ⟨hb, index, middle, u, h₁, hi, hu, hv⟩ | ⟨hs, h₁, hv⟩ | ⟨hc, rfl, rfl⟩
      · obtain ⟨inner, u, rfl, hu, hd⟩ := arguments_sound nested hes
        have hlt : middle.length < k := by
          simp only [List.length_append, List.length_cons] at hk
          omega
        obtain ⟨more, rfl, hd', stops⟩ := ih _ hlt rfl hv (he.call ho hd hu)
        exact ⟨t :: (inner ++ [u]) ++ more, by simp, by simpa using hd', stops⟩
      · obtain ⟨inner, rfl, hd, -⟩ := nested ts (by omega) _ _ hi
        have hlt : middle.length < k := by
          simp only [List.length_append, List.length_cons] at hk
          omega
        obtain ⟨more, rfl, hd', stops⟩ := ih _ hlt rfl hv (he.index hb hd hu)
        exact ⟨t :: (inner ++ [u]) ++ more, by simp, by simpa using hd', stops⟩
      · obtain ⟨more, rfl, hd', stops⟩ := ih _ (by omega) rfl hv (he.after hs)
        exact ⟨t :: more, by simp, by simpa using hd', stops⟩
      · exact ⟨[], rfl, by simpa using he, by simpa [Stops, Tier.continues] using hc⟩

theorem prefixed_sound : ∀ {ts rest : List Token} {v : Expr} {h : ts.length < n + 1},
    (prefixed (nestedExpression n) ts h).Yields v rest → Reads .prefixed ts v rest
  | [], _, _, _, hy => absurd hy yields_prefixed_nil
  | t :: ts, rest, v, h, hy => by
    rcases yields_prefixed_cons.mp hy with ⟨hs, e, h₁, he, rfl⟩ | ⟨-, e, middle, h₁, he, hv⟩
    · obtain ⟨used, rfl, hd, stops⟩ := prefixed_sound he
      exact ⟨t :: used, rfl, .before hs hd, stops⟩
    · obtain ⟨used, hts, hd, -⟩ := primary_sound nested he
      obtain ⟨more, rfl, hd', stops⟩ := suffixes_sound nested _ rfl hv hd.unsuffixed
      exact ⟨used ++ more, by simpa using hts, hd'.unprefixed, stops⟩

theorem binary_sound : ∀ (levels : List (List String)) {ts rest : List Token} {v : Expr}
    {h : ts.length < n + 1}, (binary (operandRule n) levels ts h).Yields v rest →
    Reads (.binary levels) ts v rest
  | [], ts, rest, v, h, hy => by
    obtain ⟨used, hts, hd, stops⟩ := prefixed_sound nested hy
    exact ⟨used, hts, hd.operand, by simpa [Stops, Tier.continues] using stops⟩
  | ops :: tighter, ts, rest, v, h, hy => by
    obtain ⟨left, middle, h₁, hl, hv⟩ := yields_binary_cons.mp hy
    obtain ⟨used, rfl, hd, hstop⟩ := binary_sound tighter hl
    obtain ⟨more, rfl, hd', stops⟩ :=
      chain_sound (binary_sound tighter) _ rfl hv hd.tighter hstop
    exact ⟨used ++ more, by simp, hd', stops⟩

end Soundness

/-- Every expression that is read is derived from the tokens it took. -/
theorem expression_sound (k : Nat) : ∀ {ts rest : List Token} {v : Expr}, ts.length = k →
    (expression ts).Yields v rest → Reads .assignment ts v rest := by
  induction k using Nat.strongRecOn with
  | _ k ih =>
    intro ts rest v hk hy
    have nested : ∀ us : List Token, us.length < ts.length → ∀ e rest,
        (expression us).Yields e rest → Reads .assignment us e rest := by
      intro us hus e rest he
      exact ih us.length (by omega) rfl he
    rcases yields_expression.mp hy with ⟨target, value, t, more, ht, hw, hval, rfl⟩ | ⟨hv, hw⟩
    · have hlt : more.length < ts.length := by
        have := ht.shorter
        simp only [List.length_cons] at this
        omega
      obtain ⟨used, hts, hd, -⟩ := binary_sound nested _ ht
      obtain ⟨others, rfl, hd', stops⟩ := nested more hlt _ _ hval
      exact ⟨used ++ t :: others, by simpa using hts, hd.assign hw hd', stops⟩
    · obtain ⟨used, hts, hd, stops⟩ := binary_sound nested _ hv
      refine ⟨used, hts, hd.unassigned, fun t ht => ?_⟩
      simp only [Tier.continues, isOperator_equals, hw t ht, Bool.false_or]
      exact stops t ht

section Completeness

/-! What is derived is read.  The two loops are entered with what the derivation has built so far,
so for their tiers the statement is about every way to go on. -/

/-- What is shown of a derivation at each tier, for every input `us` that starts with its tokens. -/
def Complete : Tier → List Token → Expr → Prop
  | .assignment, ts, e => ∀ us rest, us = ts ++ rest → Stops .assignment rest →
    (expression us).Yields e rest
  | .binary [], ts, e => ∀ n us rest h, us = ts ++ rest → Stops .prefixed rest →
    (prefixed (nestedExpression n) us h).Yields e rest
  | .binary (ops :: tighter), ts, e => (ops :: tighter) <:+ binaryLevels →
    ∀ n us rest h h', us = ts ++ rest → Stops (.binary tighter) rest → ∀ v out,
    (chain (binary (operandRule n) tighter) ops e rest h').Yields v out →
    (binary (operandRule n) (ops :: tighter) us h).Yields v out
  | .prefixed, ts, e => ∀ n us rest h, us = ts ++ rest → Stops .prefixed rest →
    (prefixed (nestedExpression n) us h).Yields e rest
  | .suffixed, ts, e => ∀ n us rest h h', us = ts ++ rest → ∀ v out,
    (suffixes (nestedExpression n) e rest h').Yields v out →
    (prefixed (nestedExpression n) us h).Yields v out
  | .primary, ts, e => ∀ n us rest h, us = ts ++ rest →
    (primary (nestedExpression n) us h).Yields e rest

/-- The same for a list that is not empty. -/
def CompleteList (ts : List Token) (es : List Expr) : Prop :=
  es ≠ [] → ∀ n us rest h, us = ts ++ rest → Stops .assignment rest →
    startsWith .comma rest = false →
    Starts .assignment us ∧ (expressionList (nestedExpression n) us h).Yields es rest

theorem Complete.yields : ∀ {levels : List (List String)} {ts us rest : List Token} {e : Expr}
    {n : Nat} {h : us.length < n + 1}, Complete (.binary levels) ts e →
    levels <:+ binaryLevels → us = ts ++ rest → Stops (.binary levels) rest →
    (binary (operandRule n) levels us h).Yields e rest
  | [], _, us, rest, _, n, h, hc, _, hus, hs =>
    hc n us rest h hus (by simpa [Stops, Tier.continues] using hs)
  | _ :: _, ts, us, rest, _, n, h, hc, hl, hus, hs =>
    hc hl n us rest h (by rw [hus, List.length_append] at h; omega) hus hs.tighter _ _
      (yields_chain_of_stops hs)

namespace Complete

variable {a b ts : List Token} {t u : Token} {e e' : Expr} {es : List Expr} {ops : List String}
  {levels : List (List String)}

theorem assign (left : Complete (.binary binaryLevels) a e) (sign : t.isWord .operator "=" = true)
    (right : Complete .assignment b e') :
    Complete .assignment (a ++ t :: b) (.assign e e' e.position) := by
  intro us rest hus hs
  -- The sign of an assignment stops every level of binary operators.
  have hb : Stops (.binary binaryLevels) (t :: (b ++ rest)) := by
    simpa [Stops] using continues_equals sign
  exact yields_expression.mpr (.inl ⟨_, _, t, b ++ rest,
    left.yields List.suffix_rfl (by simp [hus]) hb, sign, right _ rest rfl hs, rfl⟩)

theorem unassigned (whole : Complete (.binary binaryLevels) ts e) : Complete .assignment ts e := by
  intro us rest hus hs
  have hb : Stops (.binary binaryLevels) rest := fun t ht => by
    have := hs t ht
    simp only [Tier.continues, Bool.or_assoc, Bool.or_eq_false_iff] at this ⊢
    exact this.2
  refine yields_expression.mpr (.inr ⟨whole.yields List.suffix_rfl hus hb, fun t ht => ?_⟩)
  have := hs t ht
  simp only [Tier.continues, Bool.or_assoc, Bool.or_eq_false_iff, isOperator_equals] at this
  exact this.1

theorem operate (first : Complete (.binary (ops :: levels)) a e) (sign : isOperator ops t = true)
    (second : Complete (.binary levels) b e') :
    Complete (.binary (ops :: levels)) (a ++ t :: b) (.binary t.text e e' e.position) := by
  intro hl n us rest h h' hus hs v out hv
  have hb : Stops (.binary levels) (t :: (b ++ rest)) := by
    simpa [Stops] using continues_tighter hl sign
  have hl' : levels <:+ binaryLevels := (List.suffix_cons _ _).trans hl
  rw [hus] at h
  simp only [List.length_append, List.length_cons] at h
  -- The loop comes to the sign with the first operand, and goes on after the second.
  refine first hl n us (t :: (b ++ rest)) _ ?_ (by simp [hus]) hb v out
    (yields_chain_cons.mpr (.inl ⟨sign, _, rest, ?_, h', second.yields hl' rfl hs, hv⟩))
  all_goals
    simp only [List.length_append, List.length_cons]
    omega

theorem tighter (whole : Complete (.binary levels) ts e) :
    Complete (.binary (ops :: levels)) ts e := by
  intro hl n us rest h h' hus hs v out hv
  exact yields_binary_cons.mpr ⟨_, rest, h',
    whole.yields ((List.suffix_cons _ _).trans hl) hus hs, hv⟩

theorem before (sign : isOperator prefixOperators t = true) (whole : Complete .prefixed ts e) :
    Complete .prefixed (t :: ts) (.prefixed t.text e t.position) := by
  rintro n _ rest h rfl hs
  exact yields_prefixed_cons.mpr (.inl ⟨sign, _, Nat.lt_of_succ_lt h, whole n _ rest _ rfl hs, rfl⟩)

theorem unprefixed (whole : Complete .suffixed ts e) : Complete .prefixed ts e := by
  intro n us rest h hus hs
  refine whole n us rest _ ?_ hus _ _ (yields_suffixes_of_stops hs)
  rw [hus, List.length_append] at h
  omega

/-- The arguments of a call are read, with the parenthesis that closes them. -/
theorem arguments_yields (list : CompleteList b es) (hempty : es = [] → b = [])
    (closing : u.kind = .closeParen) {n : Nat} {rest : List Token}
    (h : (b ++ u :: rest).length < n) :
    (arguments (nestedExpression n) (b ++ u :: rest) h).Yields es rest := by
  -- No expression is looked for in an empty list.
  by_cases hes : es = []
  · exact yields_arguments.mpr (.inl ⟨u, by rw [hempty hes]; rfl, closing, hes⟩)
  · have hs : Stops .assignment (u :: rest) := by
      apply stops_cons <;> simp [closing]
    have hc : startsWith .comma (u :: rest) = false := by simp [startsWith, closing]
    obtain ⟨hstart, hy⟩ := list hes n _ (u :: rest) h rfl hs hc
    exact yields_arguments.mpr (.inr ⟨startsWith_closeParen_of_starts hstart, u, closing, hy⟩)

theorem call (function : Complete .suffixed a e) (opening : t.kind = .openParen)
    (list : CompleteList b es) (hempty : es = [] → b = []) (closing : u.kind = .closeParen) :
    Complete .suffixed (a ++ t :: (b ++ [u])) (.call e es e.position) := by
  intro n us rest h h' hus v out hv
  rw [hus] at h
  simp only [List.length_append, List.length_cons, List.length_nil] at h
  have hinner : (b ++ u :: rest).length < n := by
    simp only [List.length_append, List.length_cons]
    omega
  refine function n us (t :: (b ++ u :: rest)) _ ?_ (by simp [hus]) v out
    (yields_suffixes_cons.mpr (.inl ⟨opening, es, rest, hinner, h',
      arguments_yields list hempty closing hinner, hv⟩))
  simp only [List.length_append, List.length_cons]
  omega

theorem index (indexed : Complete .suffixed a e) (opening : t.kind = .openBracket)
    (inner : Complete .assignment b e') (closing : u.kind = .closeBracket) :
    Complete .suffixed (a ++ t :: (b ++ [u])) (.index e e' e.position) := by
  intro n us rest h h' hus v out hv
  have hs : Stops .assignment (u :: rest) := by
    apply stops_cons <;> simp [closing]
  rw [hus] at h
  simp only [List.length_append, List.length_cons, List.length_nil] at h
  refine indexed n us (t :: (b ++ u :: rest)) _ ?_ (by simp [hus]) v out
    (yields_suffixes_cons.mpr (.inr (.inl ⟨opening, _, rest, u, h',
      inner _ (u :: rest) rfl hs, closing, hv⟩)))
  simp only [List.length_append, List.length_cons]
  omega

theorem after (whole : Complete .suffixed a e) (sign : isOperator suffixOperators t = true) :
    Complete .suffixed (a ++ [t]) (.suffixed t.text e e.position) := by
  intro n us rest h h' hus v out hv
  rw [hus] at h
  simp only [List.length_append, List.length_cons, List.length_nil] at h
  refine whole n us (t :: rest) _ ?_ (by simp [hus]) v out
    (yields_suffixes_cons.mpr (.inr (.inr (.inl ⟨sign, h', hv⟩))))
  simp only [List.length_cons]
  omega

theorem unsuffixed (starts : Starts .primary ts) (whole : Complete .primary ts e) :
    Complete .suffixed ts e := by
  intro n us rest h h' hus v out hv
  obtain ⟨t, more, hts, ht⟩ := starts
  rw [hts, List.cons_append] at hus
  subst hus
  exact yields_prefixed_cons.mpr (.inr ⟨not_isOperator_of_opensOperand ht, _, rest, h',
    whole n _ rest h (by rw [hts]; rfl), hv⟩)

theorem group (opening : t.kind = .openParen) (inner : Complete .assignment ts e)
    (closing : u.kind = .closeParen) : Complete .primary (t :: (ts ++ [u])) e := by
  rintro n _ rest h rfl
  have hs : Stops .assignment (u :: rest) := by
    apply stops_cons <;> simp [closing]
  exact yields_primary.mpr (.inr (.inr (.inr (.inr ⟨opening, u,
    inner _ (u :: rest) (by simp) hs, closing⟩))))

end Complete

theorem CompleteList.more {a b : List Token} {t : Token} {e : Expr} {es : List Expr}
    (starts : Starts .assignment a) (first : Complete .assignment a e) (comma : t.kind = .comma)
    (others : CompleteList b es) (hes : es ≠ []) : CompleteList (a ++ t :: b) (e :: es) := by
  intro _ n us rest h hus hs hc
  have hs' : Stops .assignment (t :: (b ++ rest)) := by
    apply stops_cons <;> simp [comma]
  have h' : (b ++ rest).length < n := by
    rw [hus] at h
    simp only [List.length_append, List.length_cons] at h ⊢
    omega
  obtain ⟨-, hothers⟩ := others hes n _ rest h' rfl hs hc
  refine ⟨?_, yields_expressionList.mpr ⟨_, .inr ⟨t, b ++ rest, _, h',
    first us _ (by simp [hus]) hs', comma, hothers, rfl⟩⟩⟩
  rw [hus]
  exact (starts.append _).append _

mutual

theorem Derives.complete : ∀ {tier : Tier} {ts : List Token} {e : Expr}, Derives tier ts e →
    Complete tier ts e
  | _, _, _, .assign left sign right => left.complete.assign sign right.complete
  | _, _, _, .unassigned whole => whole.complete.unassigned
  | _, _, _, .operate first sign second => first.complete.operate sign second.complete
  | _, _, _, .tighter whole => whole.complete.tighter
  | _, _, _, .operand whole => whole.complete
  | _, _, _, .before sign whole => whole.complete.before sign
  | _, _, _, .unprefixed whole => whole.complete.unprefixed
  | _, _, _, .call function opening list closing =>
    function.complete.call opening list.complete (fun hes => (hes ▸ list).eq_nil) closing
  | _, _, _, .index indexed opening inner closing =>
    indexed.complete.index opening inner.complete closing
  | _, _, _, .after whole sign => whole.complete.after sign
  | _, _, _, .unsuffixed whole => whole.complete.unsuffixed whole.starts
  | _, _, _, .number kind payload => by
    rintro n _ rest h rfl
    exact yields_primary.mpr (.inl ⟨_, kind, payload, rfl, rfl⟩)
  | _, _, _, .string kind => by
    rintro n _ rest h rfl
    exact yields_primary.mpr (.inr (.inl ⟨kind, rfl, rfl⟩))
  | _, _, _, .char kind => by
    rintro n _ rest h rfl
    exact yields_primary.mpr (.inr (.inr (.inl ⟨kind, rfl, rfl⟩)))
  | _, _, _, .name kind => by
    rintro n _ rest h rfl
    exact yields_primary.mpr (.inr (.inr (.inr (.inl ⟨kind, rfl, rfl⟩))))
  | _, _, _, .group opening inner closing => inner.complete.group opening closing

theorem DerivesList.complete : ∀ {ts : List Token} {es : List Expr}, DerivesList ts es →
    CompleteList ts es
  | _, _, .none => fun hn => absurd rfl hn
  | _, _, .last only => by
    intro _ n us rest h hus hs hc
    exact ⟨hus ▸ only.starts.append rest,
      yields_expressionList.mpr ⟨_, .inl ⟨only.complete us rest hus hs, hc, rfl⟩⟩⟩
  | _, _, .more first comma others =>
    .more first.starts first.complete comma others.complete (List.cons_ne_nil _ _)

end

end Completeness

/-- Reading succeeds exactly on what the rules derive, as far as it goes. -/
theorem yields_expression_iff {ts rest : List Token} {e : Expr} :
    (expression ts).Yields e rest ↔ Reads .assignment ts e rest := by
  constructor
  · exact expression_sound ts.length rfl
  · rintro ⟨used, hts, hd, hs⟩
    exact hd.complete ts rest hts hs

/-- Reading at the place `i` succeeds with `e` and stops at the place `j` exactly if the tokens
between derive `e` and the token at `j` does not go on with an expression. -/
theorem expression_exact (tokens : List Token) (i j : Nat) (e : Expr) :
    (j ≤ tokens.length ∧ (expression (tokens.drop i)).Yields e (tokens.drop j)) ↔
      i ≤ j ∧ j ≤ tokens.length ∧ Derives .assignment ((tokens.take j).drop i) e ∧
        ∀ t ∈ tokens[j]?, continuesExpression t = false := by
  have hstops : Stops .assignment (tokens.drop j) ↔
      ∀ t ∈ tokens[j]?, continuesExpression t = false := by
    simp only [Stops, List.head?_drop, continues_assignment]
  have hsplit : i ≤ j → tokens.drop i = (tokens.take j).drop i ++ tokens.drop j := by
    intro hij
    have hdrop : tokens.drop j = (tokens.drop i).drop (j - i) := by
      rw [List.drop_drop, Nat.add_sub_cancel' hij]
    rw [hdrop, List.drop_take, List.take_append_drop]
  rw [yields_expression_iff, ← hstops]
  constructor
  · rintro ⟨hj, used, hts, hd, hs⟩
    have hij : i ≤ j := by
      obtain ⟨t, more, rfl, -⟩ := hd.starts
      have hlen := congrArg List.length hts
      simp only [List.length_append, List.length_cons, List.length_drop] at hlen
      omega
    rw [hsplit hij] at hts
    exact ⟨hij, hj, List.append_cancel_right hts ▸ hd, hs⟩
  · rintro ⟨hij, hj, hd, hs⟩
    exact ⟨hj, _, hsplit hij, hd, hs⟩

end KanaScript.Grammar
