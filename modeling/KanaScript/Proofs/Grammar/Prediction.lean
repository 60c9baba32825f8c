import KanaScript.Proofs.Grammar.Action
import KanaScript.Proofs.Grammar.Derivation
import Mathlib.Data.List.Basic

/-! Reading with one token of lookahead.  An action that succeeds depends on what it takes and on
the next token only, and one that fails does so at the first token at which no continuation
succeeds: what it took before can be completed. -/

namespace KanaScript

/-- A number token that carries its number. -/
def Token.IsProper (t : Token) : Prop := t.kind = .number → ∃ value, t.payload = .number value

/-- A token of the kind, to complete what was read. -/
def Token.sample (kind : TokenKind) : Token := ⟨kind, .none, .start⟩

@[simp]
theorem Token.sample_kind (kind : TokenKind) : (Token.sample kind).kind = kind := rfl

@[simp]
theorem Token.isWord_sample (kind kind' : TokenKind) (text : String) :
    (Token.sample kind).isWord kind' text = false := by
  simp [isWord, sample]

namespace Grammar.Action

variable {α β : Type} {follow entry : List Token → Prop} {action : Action α}

/-- More tokens make the action succeed after `used`, whatever of `follow` comes then.  If nothing
was used, what follows the place in front of them is as in `entry`. -/
def Completes (follow entry : List Token → Prop) (action : Action α) (used : List Token) : Prop :=
  ∃ more v, (∀ t ∈ more, t.kind ≠ .eof) ∧ ∀ after, follow after →
    (used = [] → entry (more ++ after)) ∧ action.run (used ++ (more ++ after)) = .ok v after

/-- What the action does on `ts` is settled by the tokens that it uses and the next one. -/
inductive Predicts (follow entry : List Token → Prop) (action : Action α) (ts : List Token) : Prop
  | done (used rest : List Token) (v : α) (split : ts = used ++ rest)
      (settled : ∀ others, others.head? = rest.head? ∨ follow others →
        action.run (used ++ others) = .ok v others)
      (enters : used = [] → ∀ after, follow after → entry after)
  | stuck (used rest : List Token) (problem : Problem) (split : ts = used ++ rest)
      (placed : ∀ t, problem ≠ .malformedNumber t)
      (settled : ∀ others, others.head? = rest.head? →
        action.run (used ++ others) = .error problem others)
      (completes : Completes follow entry action used)

/-- The action is settled so on fewer than `n` tokens. -/
def Predictive (n : Nat) (follow entry : List Token → Prop) (action : Action α) : Prop :=
  ∀ ts, ts.length < n → (∀ t ∈ ts, t.IsProper) → Predicts follow entry action ts

theorem Completes.mono {used : List Token} {follow' entry' : List Token → Prop}
    (h : Completes follow entry action used) (hf : ∀ after, follow' after → follow after)
    (he : ∀ after, entry after → entry' after) : Completes follow' entry' action used := by
  obtain ⟨more, v, hmore, hafter⟩ := h
  refine ⟨more, v, hmore, fun after hfollow => ?_⟩
  obtain ⟨hentry, hrun⟩ := hafter after (hf after hfollow)
  exact ⟨fun hused => he _ (hentry hused), hrun⟩

namespace Predicts

/-- With no tokens at all, completing starts from scratch. -/
theorem completes (h : Predicts follow entry action []) : Completes follow entry action [] := by
  cases h with
  | done used rest v split settled enters =>
    obtain ⟨rfl, rfl⟩ := List.append_eq_nil_iff.mp split.symm
    refine ⟨[], v, nofun, fun after hafter => ⟨fun _ => enters rfl after hafter, ?_⟩⟩
    exact settled after (.inr hafter)
  | stuck used rest problem split placed settled completes =>
    obtain ⟨rfl, rfl⟩ := List.append_eq_nil_iff.mp split.symm
    exact completes

theorem mono {ts : List Token} {follow' entry' : List Token → Prop}
    (h : Predicts follow entry action ts) (hf : ∀ after, follow' after → follow after)
    (he : ∀ after, entry after → entry' after) : Predicts follow' entry' action ts := by
  cases h with
  | done used rest v split settled enters =>
    refine .done used rest v split (fun others h => settled others (h.imp_right (hf others))) ?_
    exact fun hused after hafter => he after (enters hused after (hf after hafter))
  | stuck used rest problem split placed settled completes =>
    exact .stuck used rest problem split placed settled (completes.mono hf he)

/-- The head of a list with something in front does not depend on what follows. -/
theorem head?_append_congr {used : List Token} (h : used ≠ []) (a b : List Token) :
    (used ++ a).head? = (used ++ b).head? := by
  rw [List.head?_append_of_ne_nil _ h, List.head?_append_of_ne_nil _ h]

/-- The second action starts where the first one may end. -/
theorem bind {first : Action α} {second : α → Action β} {middle : List Token → Prop}
    {ts : List Token} (hfirst : Predicts middle entry first ts)
    (hstart : ∀ v, Completes follow middle (second v) [])
    (hsecond : ∀ v used rest, ts = used ++ rest → first.run ts = .ok v rest →
      Predicts follow middle (second v) rest) :
    Predicts follow entry (first >>= second) ts := by
  cases hfirst with
  | stuck used rest problem split placed settled completes =>
    refine .stuck used rest problem split placed
      (fun others h => bind_of_error (settled others h)) ?_
    obtain ⟨more, v, hmore, hafter⟩ := completes
    obtain ⟨others, w, hothers, hlast⟩ := hstart v
    refine ⟨more ++ others, w, List.forall_mem_append.mpr ⟨hmore, hothers⟩, fun after hfollow => ?_⟩
    obtain ⟨hmiddle, hrun⟩ := hlast after hfollow
    obtain ⟨hentry, hrun'⟩ := hafter (others ++ after) (hmiddle rfl)
    rw [List.append_assoc]
    exact ⟨hentry, (bind_of_ok hrun').trans hrun⟩
  | done used rest v split settled enters =>
    have hrun : first.run ts = .ok v rest := split ▸ settled rest (.inl rfl)
    cases hsecond v used rest split hrun with
    | done used' rest' w split' settled' enters' =>
      refine .done (used ++ used') rest' w (by rw [split, split', List.append_assoc])
        (fun others h => ?_) fun hused after hafter => ?_
      · have hnext : (used' ++ others).head? = rest.head? ∨ middle (used' ++ others) := by
          by_cases hu : used' = []
          · subst hu
            exact h.imp (fun h => by simpa [split'] using h) (enters' rfl others)
          · exact .inl (split' ▸ head?_append_congr hu others rest')
        rw [List.append_assoc, bind_of_ok (settled _ hnext), settled' others h]
      · obtain ⟨hu, hu'⟩ := List.append_eq_nil_iff.mp hused
        exact enters hu after (enters' hu' after hafter)
    | stuck used' rest' problem split' placed settled' completes =>
      refine .stuck (used ++ used') rest' problem (by rw [split, split', List.append_assoc]) placed
        (fun others h => ?_) ?_
      · have hnext : (used' ++ others).head? = rest.head? := by
          by_cases hu : used' = []
          · subst hu
            simpa [split'] using h
          · exact split' ▸ head?_append_congr hu others rest'
        rw [List.append_assoc, bind_of_ok (settled _ (.inl hnext)), settled' others h]
      · obtain ⟨more, w, hmore, hafter⟩ := completes
        refine ⟨more, w, hmore, fun after hfollow => ?_⟩
        obtain ⟨hmiddle, hlast⟩ := hafter after hfollow
        have hnext : (used' ++ (more ++ after)).head? = rest.head? ∨
            middle (used' ++ (more ++ after)) := by
          by_cases hu : used' = []
          · subst hu
            exact .inr (hmiddle rfl)
          · exact .inl (split' ▸ head?_append_congr hu _ rest')
        refine ⟨fun hused => ?_, ?_⟩
        · obtain ⟨hu, hu'⟩ := List.append_eq_nil_iff.mp hused
          exact enters hu _ (hmiddle hu')
        · rw [List.append_assoc, bind_of_ok (settled _ hnext), hlast]

section

variable {other : Action α} {ts : List Token}

/-- An action that does what another one does wherever the token in front is allowed. -/
theorem guarded (allowed : Option Token → Prop)
    (hrun : ∀ us : List Token, allowed us.head? → action.run us = other.run us)
    (hts : allowed ts.head?)
    (h : Predicts follow (fun after => entry after ∧ allowed after.head?) other ts) :
    Predicts follow entry action ts := by
  cases h with
  | done used rest v split settled enters =>
    refine .done used rest v split (fun others h => ?_) fun hused after hafter =>
      (enters hused after hafter).1
    rw [hrun, settled others h]
    by_cases hu : used = []
    · subst hu
      rcases h with h | h
      · rwa [List.nil_append, h, ← List.nil_append rest, ← split]
      · exact (enters rfl others h).2
    · rwa [head?_append_congr hu others rest, ← split]
  | stuck used rest problem split placed settled completes =>
    refine .stuck used rest problem split placed (fun others h => ?_) ?_
    · rw [hrun, settled others h]
      by_cases hu : used = []
      · subst hu
        rwa [List.nil_append, h, ← List.nil_append rest, ← split]
      · rwa [head?_append_congr hu others rest, ← split]
    · obtain ⟨more, v, hmore, hafter⟩ := completes
      refine ⟨more, v, hmore, fun after hfollow => ?_⟩
      obtain ⟨hentry, hlast⟩ := hafter after hfollow
      refine ⟨fun hused => (hentry hused).1, ?_⟩
      rw [hrun, hlast]
      by_cases hu : used = []
      · subst hu
        exact (hentry rfl).2
      · rwa [head?_append_congr hu _ rest, ← split]

/-- An action that goes on with another one once it has taken `t`. -/
theorem led {t : Token} {us : List Token} {entry' : List Token → Prop} {next : Action α}
    (hrun : ∀ others, action.run (t :: others) = next.run others)
    (h : Predicts follow entry' next us) : Predicts follow entry action (t :: us) := by
  cases h with
  | done used rest v split settled enters =>
    refine .done (t :: used) rest v (by rw [split]; rfl) (fun others h => ?_) nofun
    rw [List.cons_append, hrun, settled others h]
  | stuck used rest problem split placed settled completes =>
    refine .stuck (t :: used) rest problem (by rw [split]; rfl) placed (fun others h => ?_) ?_
    · rw [List.cons_append, hrun, settled others h]
    · obtain ⟨more, v, hmore, hafter⟩ := completes
      refine ⟨more, v, hmore, fun after hfollow => ⟨nofun, ?_⟩⟩
      rw [List.cons_append, hrun, (hafter after hfollow).2]

/-- Where the action may take nothing, what has been read before needs no completion. -/
theorem of_empty {entry' : List Token → Prop} {v : α} (h : Predicts follow entry' action ts)
    (hempty : ∀ after, follow after → entry after ∧ action.run after = .ok v after) :
    Predicts follow entry action ts := by
  cases h with
  | done used rest w split settled enters =>
    exact .done used rest w split settled fun _ after hafter => (hempty after hafter).1
  | stuck used rest problem split placed settled completes =>
    refine .stuck used rest problem split placed settled ?_
    by_cases hu : used = []
    · subst hu
      exact ⟨[], v, nofun, fun after hafter => ⟨fun _ => (hempty after hafter).1,
        (hempty after hafter).2⟩⟩
    · obtain ⟨more, w, hmore, hafter⟩ := completes
      exact ⟨more, w, hmore, fun after hfollow => ⟨fun h => absurd h hu, (hafter after hfollow).2⟩⟩

end

end Predicts

theorem accepted_or_not (accepts : Token → Prop) (ts : List Token) :
    (∃ t us, ts = t :: us ∧ accepts t) ∨ ∀ t ∈ ts.head?, ¬accepts t := by
  cases ts with
  | nil => exact .inr nofun
  | cons t us =>
    by_cases ht : accepts t
    · exact .inl ⟨t, us, rfl, ht⟩
    · exact .inr (by simpa using ht)

/-- A sample of the kind stands in front. -/
def LeadsWith (kind : TokenKind) (ts : List Token) : Prop := ts.head? = some (.sample kind)

namespace LeadsWith

variable {kind : TokenKind} {ts : List Token}

theorem head_eq (h : LeadsWith kind ts) {t : Token} (ht : t ∈ ts.head?) : t = .sample kind := by
  rw [LeadsWith] at h
  rw [h] at ht
  exact (Option.some.inj ht).symm

/-- A sample in front is not taken for one of the tokens that are looked for before it. -/
theorem and_not {accepts : Token → Prop} (h : LeadsWith kind ts) (hk : ¬accepts (.sample kind)) :
    LeadsWith kind ts ∧ ∀ t ∈ ts.head?, ¬accepts t :=
  ⟨h, fun _ ht => h.head_eq ht ▸ hk⟩

theorem stops {tier : Tier} (h : LeadsWith kind ts) (ho : kind ≠ .operator)
    (hp : kind ≠ .openParen) (hb : kind ≠ .openBracket) : Stops tier ts := by
  obtain ⟨us, rfl⟩ := List.head?_eq_some_iff.mp h
  exact stops_cons ho hp hb

end LeadsWith

namespace Predictive

variable {n : Nat}

theorem zero : Predictive 0 follow entry action := by
  intro ts hlt
  exact absurd hlt (Nat.not_lt_zero _)

theorem mono {follow' entry' : List Token → Prop} (h : Predictive n follow entry action)
    (hf : ∀ after, follow' after → follow after) (he : ∀ after, entry after → entry' after) :
    Predictive n follow' entry' action := by
  intro ts hlt hproper
  exact (h ts hlt hproper).mono hf he

theorem below {m : Nat} (h : Predictive n follow entry action) (hm : m ≤ n) :
    Predictive m follow entry action := by
  intro ts hlt
  exact h ts (by omega)

theorem anywhere (h : Predictive n follow entry action) :
    Predictive n follow (fun _ => True) action :=
  h.mono (fun _ => id) fun _ _ => trivial

protected theorem pure {v : α} (h : ∀ after, follow after → entry after) :
    Predictive n follow entry (pure v) := by
  intro ts _ _
  exact .done [] ts v rfl (fun others _ => rfl) fun _ => h

/-- What the first action leaves is below a bound of its own. -/
theorem bind_below {m : Nat} {first : Action α} {second : α → Action β}
    {middle : List Token → Prop} (hfirst : Predictive n middle entry first)
    (hstart : ∀ v, Completes follow middle (second v) [])
    (hbelow : ∀ ts v rest, ts.length < n → first.run ts = .ok v rest → rest.length < m)
    (hsecond : ∀ v, Predictive m follow middle (second v)) :
    Predictive n follow entry (first >>= second) := by
  intro ts hlt hproper
  refine (hfirst ts hlt hproper).bind hstart fun v used rest hsplit hrun => ?_
  refine hsecond v rest (hbelow ts v rest hlt hrun) fun t ht => hproper t ?_
  exact hsplit ▸ List.mem_append_right used ht

protected theorem bind {first : Action α} {second : α → Action β} {middle : List Token → Prop}
    (hfirst : Predictive n middle entry first)
    (hsecond : ∀ v, Predictive n follow middle (second v)) :
    Predictive n follow entry (first >>= second) := by
  intro ts hlt hproper
  have hstart : ∀ v, Completes follow middle (second v) [] :=
    fun v => (hsecond v [] (by simp only [List.length_nil]; omega) nofun).completes
  refine (hfirst ts hlt hproper).bind hstart fun v used rest hsplit _ => ?_
  subst hsplit
  rw [List.length_append] at hlt
  exact hsecond v rest (by omega) fun t ht => hproper t (List.mem_append_right used ht)

/-- An action whose value is changed last. -/
theorem map {f : α → β} (h : Predictive n follow entry action) :
    Predictive n follow entry (do return f (← action)) :=
  h.bind fun _ => .pure fun _ hafter => hafter

/-- What completes with a sample that is not looked for first. -/
theorem leading {accepts : Token → Prop} {kind : TokenKind} (hk : ¬accepts (.sample kind))
    (h : Predictive n follow (LeadsWith kind) action) : Predictive n follow
      (fun after => LeadsWith kind after ∧ ∀ t ∈ after.head?, ¬accepts t) action :=
  h.mono (fun _ => id) fun _ hafter => hafter.and_not hk

section

variable {accepts : Token → Prop} [DecidablePred accepts] {taken : Token → Action α}
  {otherwise : Action α} {problem : Problem}

/-- What starts otherwise has to keep off the tokens that are taken. -/
theorem takeIf_below (htaken : ∀ t, accepts t → t.IsProper →
      Predictive n follow (fun _ => True) (taken t))
    (hother : Predictive (n + 1) follow
      (fun after => entry after ∧ ∀ t ∈ after.head?, ¬accepts t) otherwise) :
    Predictive (n + 1) follow entry (Action.takeIf accepts taken otherwise) := by
  intro ts hlt hproper
  rcases accepted_or_not accepts ts with ⟨t, us, rfl, ht⟩ | hts
  · rw [List.forall_mem_cons] at hproper
    have hus := htaken t ht hproper.1 us (Nat.lt_of_succ_lt_succ hlt) hproper.2
    exact hus.led fun others => run_takeIf_pos ht
  · exact (hother ts hlt hproper).guarded (∀ t ∈ ·, ¬accepts t) (fun us => run_takeIf_neg) hts

protected theorem takeIf (htaken : ∀ t, accepts t → t.IsProper →
      Predictive n follow (fun _ => True) (taken t))
    (hother : Predictive n follow
      (fun after => entry after ∧ ∀ t ∈ after.head?, ¬accepts t) otherwise) :
    Predictive n follow entry (Action.takeIf accepts taken otherwise) := by
  cases n with
  | zero => exact zero
  | succ n => exact takeIf_below (fun t ht hp => (htaken t ht hp).below (Nat.le_succ n)) hother

/-- Where the token that has to come is missing, a sample of it completes. -/
protected theorem take (kind : TokenKind) (hkind : accepts (.sample kind)) (hend : kind ≠ .eof)
    (hplaced : ∀ t, problem ≠ .malformedNumber t)
    (hstart : Completes follow (fun _ => True) (taken (.sample kind)) [])
    (htaken : ∀ t, accepts t → Predictive n follow (fun _ => True) (taken t)) :
    Predictive n follow (LeadsWith kind) (Action.take accepts problem taken) := by
  intro ts hlt hproper
  rcases accepted_or_not accepts ts with ⟨t, us, rfl, ht⟩ | hts
  · rw [List.forall_mem_cons] at hproper
    rw [List.length_cons] at hlt
    exact (htaken t ht us (by omega) hproper.2).led fun others => run_takeIf_pos ht
  · refine .stuck [] ts problem rfl hplaced (fun others h => ?_) ?_
    · exact run_takeIf_neg (h ▸ hts)
    · obtain ⟨more, v, hmore, hafter⟩ := hstart
      refine ⟨.sample kind :: more, v, List.forall_mem_cons.mpr ⟨hend, hmore⟩,
        fun after hfollow => ?_⟩
      exact ⟨fun _ => rfl, (run_takeIf_pos hkind).trans (hafter after hfollow).2⟩

/-- Every list that may follow stops the action. -/
protected theorem stopIf {stops : Option Token → Prop} [DecidablePred stops] {v : α}
    (kind : TokenKind) (hstops : ∀ after, follow after → entry after ∧ stops after.head?)
    (hkind : ¬stops (some (.sample kind)))
    (hother : Predictive n follow (LeadsWith kind) otherwise) :
    Predictive n follow entry (stopIf stops v otherwise) := by
  intro ts hlt hproper
  by_cases hts : stops ts.head?
  · refine .done [] ts v rfl (fun others h => if_pos ?_)
      fun _ after hafter => (hstops after hafter).1
    rcases h with h | h
    · rwa [List.nil_append, h]
    · exact (hstops others h).2
  · have hother := (hother ts hlt hproper).mono (fun _ => id)
      fun after (h : LeadsWith kind after) =>
        (⟨h, h ▸ hkind⟩ : LeadsWith kind after ∧ ¬stops after.head?)
    have hguarded : Predicts follow (LeadsWith kind) (Action.stopIf stops v otherwise) ts :=
      hother.guarded (fun t => ¬stops t) (fun us hus => if_neg hus) hts
    exact hguarded.of_empty fun after hafter =>
      ⟨(hstops after hafter).1, if_pos (hstops after hafter).2⟩

theorem refuse (hplaced : ∀ t, problem ≠ .malformedNumber t) (hother : Predictive n follow
      (fun after => entry after ∧ ∀ t ∈ after.head?, ¬accepts t) otherwise) :
    Predictive n follow entry (Action.refuse accepts problem otherwise) := by
  have hrun : ∀ us : List Token, (∀ t ∈ us.head?, ¬accepts t) →
      (Action.refuse accepts problem otherwise).run us = otherwise.run us := by
    intro us hus
    cases us with
    | nil => rfl
    | cons t us => exact if_neg (hus t rfl)
  intro ts hlt hproper
  rcases accepted_or_not accepts ts with ⟨t, us, rfl, ht⟩ | hts
  · refine .stuck [] (t :: us) problem rfl hplaced (fun others h => ?_) ?_
    · obtain ⟨vs, rfl⟩ := List.head?_eq_some_iff.mp h
      exact if_pos ht
    · have hpos : ([] : List Token).length < n := by
        simp only [List.length_nil]
        omega
      obtain ⟨more, v, hmore, hafter⟩ := (hother [] hpos nofun).completes
      refine ⟨more, v, hmore, fun after hfollow => ?_⟩
      obtain ⟨hentry, hlast⟩ := hafter after hfollow
      exact ⟨fun _ => (hentry rfl).1, (hrun _ (hentry rfl).2).trans hlast⟩
  · exact (hother ts hlt hproper).guarded (∀ t ∈ ·, ¬accepts t) hrun hts

end

end Predictive

section Expressions

variable {n : Nat}

theorem completes_pure {v : α} (h : ∀ after, follow after → entry after) :
    Completes follow entry (pure v) [] :=
  ⟨[], v, nofun, fun after hafter => ⟨fun _ => h after hafter, rfl⟩⟩

theorem predictive_expect {kind : TokenKind} {what : Expectation} (hend : kind ≠ .eof) :
    Predictive n follow (LeadsWith kind) (expect kind what) :=
  .take kind rfl hend nofun (completes_pure fun _ _ => trivial) fun _ _ => .pure fun _ _ => trivial

theorem predictive_name : Predictive n follow (LeadsWith .identifier) name :=
  .take .identifier (.inl rfl) nofun nofun (completes_pure fun _ _ => trivial)
    fun _ _ => .pure fun _ _ => trivial

/-- A token that has to come, and what may start anywhere. -/
theorem Predictive.expect {kind : TokenKind} {what : Expectation} {second : Token → Action β}
    (hend : kind ≠ .eof) (hentry : ∀ ts, LeadsWith kind ts → entry ts)
    (h : ∀ t, Predictive n follow (fun _ => True) (second t)) :
    Predictive n follow entry (expect kind what >>= second) :=
  ((predictive_expect hend).mono (fun _ => id) hentry).bind h

theorem Predictive.name {second : String → Action β}
    (h : ∀ text, Predictive n follow (fun _ => True) (second text)) :
    Predictive n follow (LeadsWith .identifier) (name >>= second) :=
  predictive_name.bind h

variable (hexpression : Predictive n (Stops .assignment) (LeadsWith .identifier) expression)

section

include hexpression

theorem predictive_primary : Predictive (n + 1) follow (LeadsWith .identifier) primary := by
  refine .takeIf_below (fun t ht hproper => ?_) (.leading (by simp) ?_)
  · obtain ⟨value, hvalue⟩ := hproper ht
    rw [hvalue]
    exact .pure fun _ _ => trivial
  refine .takeIf_below (fun _ _ _ => .pure fun _ _ => trivial) (.leading (by simp) ?_)
  refine .takeIf_below (fun _ _ _ => .pure fun _ _ => trivial) (.leading (by simp) ?_)
  refine .takeIf_below (fun _ _ _ => ?_) (.leading (by simp) ?_)
  · refine hexpression.anywhere.bind fun e => ?_
    exact .expect nofun (fun ts h => h.stops nofun nofun nofun) fun _ => .pure fun _ _ => trivial
  · exact .take .identifier (.inl rfl) nofun nofun (completes_pure fun _ _ => trivial)
      fun _ _ => .pure fun _ _ => trivial

/-- Expressions with commas between them, before something that continues none of them. -/
theorem predictive_expressionList {m : Nat} (hm : m ≤ n) :
    Predictive m (fun after => Stops .assignment after ∧ ∀ t ∈ after.head?, t.kind ≠ .comma)
      (LeadsWith .identifier) expressionList := by
  induction m with
  | zero => exact .zero
  | succ m ih =>
    rw [expressionList_eq]
    refine (hexpression.below hm).bind fun e => ?_
    refine .takeIf_below (fun _ _ _ => ?_) (.pure fun _ h => h)
    exact (ih (by omega)).anywhere.map

theorem predictive_arguments {m : Nat} (hm : m ≤ n) :
    Predictive m follow (LeadsWith .identifier) arguments := by
  refine .takeIf (fun _ _ _ => .pure fun _ _ => trivial) (.leading (by simp) ?_)
  refine (predictive_expressionList hexpression hm).bind fun es => ?_
  refine .expect nofun (fun ts h => ⟨h.stops nofun nofun nofun, fun t ht => ?_⟩) fun _ =>
    .pure fun _ _ => trivial
  rw [h.head_eq ht]
  exact nofun

theorem predictive_suffixes {m : Nat} (hm : m ≤ n + 1) (e : Expr) :
    Predictive m (Stops .suffixed) (fun _ => True) (suffixes e) := by
  induction m generalizing e with
  | zero => exact .zero
  | succ m ih =>
    rw [suffixes_eq]
    refine .takeIf_below (fun _ _ _ => ?_) (.takeIf_below (fun _ _ _ => ?_)
      (.takeIf_below (fun _ _ _ => ?_) (.pure fun after h => ?_)))
    · exact (predictive_arguments hexpression (by omega)).anywhere.bind fun es => ih (by omega) _
    · refine (hexpression.below (by omega)).anywhere.bind fun index => ?_
      exact .expect nofun (fun ts h => h.stops nofun nofun nofun) fun _ => ih (by omega) _
    · exact ih (by omega) _
    · have hstop : ∀ t ∈ after.head?, continuesOperand t = false := h
      simp only [continuesOperand, Bool.or_eq_false_iff, beq_eq_false_iff_ne] at hstop
      exact ⟨⟨⟨trivial, fun t ht => (hstop t ht).1.1⟩, fun t ht => (hstop t ht).1.2⟩,
        fun t ht => by simp [(hstop t ht).2]⟩

theorem predictive_prefixed {m : Nat} (hm : m ≤ n + 1) :
    Predictive m (Stops .suffixed) (LeadsWith .identifier) prefixed := by
  induction m with
  | zero => exact .zero
  | succ m ih =>
    rw [prefixed_eq]
    refine .takeIf_below (fun _ _ _ => (ih (by omega)).anywhere.map)
      (.leading (by simp [isOperator]) ?_)
    exact ((predictive_primary hexpression).below hm).bind
      fun e => predictive_suffixes hexpression hm e

/-- The operators of looser levels end an operand of tighter ones. -/
theorem predictive_binary {m : Nat} (hm : m ≤ n + 1) (levels : List (List String)) :
    Predictive m (Stops (.binary levels)) (LeadsWith .identifier) (binary levels) := by
  induction levels generalizing m with
  | nil =>
    refine (predictive_prefixed hexpression hm).mono (fun after h t ht => ?_) fun _ => id
    simpa [Tier.continues] using h t ht
  | cons ops tighter ih =>
    refine (ih hm).bind fun left => ?_
    induction m generalizing left with
    | zero => exact .zero
    | succ m hchain =>
      rw [chain_eq]
      refine .takeIf_below (fun _ _ _ => ?_) (.pure fun after h => ⟨h.tighter, fun t ht => ?_⟩)
      · exact (ih (by omega)).anywhere.bind fun right => hchain (by omega) _
      · have hstop := h t ht
        simp only [Tier.continues, List.any_cons, Bool.or_eq_false_iff] at hstop
        simp [hstop.1.1]

end

theorem predictive_expression (n : Nat) :
    Predictive n (Stops .assignment) (LeadsWith .identifier) expression := by
  induction n with
  | zero => exact .zero
  | succ n hexpression =>
    rw [expression_eq]
    refine (predictive_binary hexpression (Nat.le_refl _) binaryLevels).bind fun target => ?_
    refine .takeIf_below (fun _ _ _ => hexpression.anywhere.map) (.pure fun after h => ?_)
    refine ⟨fun t ht => ?_, fun t ht => ?_⟩
    · have hstop := h t ht
      simp only [Tier.continues, Bool.or_eq_false_iff] at hstop ⊢
      exact ⟨hstop.1.2, hstop.2⟩
    · have hstop := h t ht
      simp only [Tier.continues, Bool.or_eq_false_iff] at hstop
      simp [← isOperator_equals, hstop.1.1]

end Expressions

end Grammar.Action

end KanaScript
