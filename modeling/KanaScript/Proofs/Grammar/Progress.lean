import KanaScript.Proofs.Grammar.Guard

/-! Every run ends, at the place where the rule leaves off; and what follows for one call after the
other on the same tokens. -/

namespace KanaScript

namespace Grammar

section Ends

variable {α β : Type} {tape : Tape} {k k' : Nat} {result : Except Problem α}

/-- A result at a place, as the action of a rule gives it. -/
def Tape.outcome (tape : Tape) (k : Nat) :
    Except Problem α → EStateM.Result Problem (List Token) α
  | .ok value => .ok value (tape.pending k)
  | .error problem => .error problem (tape.pending k)

/-- The code, run from one place, ends at another with a result; and its action on the tokens that
are left gives the same. -/
structure Ends (tape : Tape) (code : Code α) (k : Nat) (result : Except Problem α) (k' : Nat) :
    Prop where
  leadsTo : Moment.LeadsTo tape ⟨code, k⟩ ⟨.halt result, k'⟩
  action_eq : (code.action tape.ending).run (tape.pending k) = tape.outcome k' result

namespace Ends

theorem le {code : Code α} (h : Ends tape code k result k') : k ≤ k' := h.leadsTo.le

theorem le_last {code : Code α} (h : Ends tape code k result k') (hk : k ≤ tape.last) :
    k' ≤ tape.last := h.leadsTo.le_last hk

theorem halt (k : Nat) (result : Except Problem α) : Ends tape (.halt result) k result k :=
  ⟨.refl, by cases result <;> rfl⟩

theorem look {next : Token → Code α} {t : Token} (hk : k ≤ tape.last)
    (ht : tape.tokens[k]? = some t) (h : Ends tape (next t) k result k') :
    Ends tape (.look next) k result k' := by
  constructor
  · exact .head (by rw [Moment.step?, ht]; rfl) h.leadsTo
  · obtain rfl : _ = t := Option.some.inj ((tape.getElem?_eq hk).symm.trans ht)
    exact h.action_eq

theorem lookAhead {next : Option Token → Code α} (hk : k ≤ tape.last)
    (h : Ends tape (next tape.tokens[k + 1]?) k result k') :
    Ends tape (.lookAhead next) k result k' := by
  constructor
  · exact .head rfl h.leadsTo
  · rw [tape.getElem?_succ_eq hk] at h
    exact h.action_eq

theorem advance {next : Code α} (hk : k < tape.last) (h : Ends tape next (k + 1) result k') :
    Ends tape (.advance next) k result k' := by
  obtain ⟨t, ht, hkind, hpending⟩ := tape.exists_getElem?_of_lt hk
  constructor
  · exact .head (by rw [Moment.step?, ht, Option.map_some, if_neg hkind]) h.leadsTo
  · rw [hpending]
    exact h.action_eq

theorem advance_last {next : Code α} (h : Ends tape next tape.last result k') :
    Ends tape (.advance next) tape.last result k' := by
  constructor
  · refine .head ?_ h.leadsTo
    rw [Moment.step?, tape.getElem?_last, Option.map_some, if_pos tape.ending.kind_last]
  · have hrun := h.action_eq
    rw [tape.pending_last] at hrun ⊢
    exact hrun

/-- A call does what the rule does. -/
theorem action_routine {routine : Routine α} (h : Ends tape (.body routine) k result k') :
    routine.action.run (tape.pending k) = tape.outcome k' result :=
  (Code.run_action_body routine tape.kind_of_head?_pending).symm.trans h.action_eq

theorem enter {routine : Routine β} {next : β → Code α} {value : β} {middle : Nat}
    (hcall : Ends tape (.body routine) k (.ok value) middle)
    (h : Ends tape (next value) middle result k') : Ends tape (.enter routine next) k result k' := by
  constructor
  · exact .head rfl (hcall.leadsTo.bind.trans h.leadsTo)
  · exact (Action.bind_of_ok hcall.action_routine).trans h.action_eq

theorem enter_error {routine : Routine β} {next : β → Code α} {problem : Problem}
    (hcall : Ends tape (.body routine) k (.error problem) k') :
    Ends tape (.enter routine next) k (.error problem) k' := by
  constructor
  · exact .head rfl hcall.leadsTo.bind
  · exact Action.bind_of_error hcall.action_routine

end Ends

/-- A call at a place ends, and moves the cursor if it returns a value and `consumes` says so. -/
def Returns (tape : Tape) (routine : Routine α) (k : Nat) : Prop :=
  ∃ result k', Ends tape (.body routine) k result k' ∧
    (routine.consumes = true → ∀ value, result = .ok value → k < k')

/-- Any code ends if every call that it may make does. -/
theorem Code.exists_ends (code : Code α) {k : Nat} (hk : k ≤ tape.last)
    (calls : ∀ {β : Type} (routine : Routine β) (k' : Nat), k ≤ k' → k' ≤ tape.last →
      Returns tape routine k') : ∃ result k', Ends tape code k result k' := by
  induction code generalizing k with
  | halt result => exact ⟨result, k, .halt k result⟩
  | look next ih =>
    obtain ⟨result, k', h⟩ := ih _ hk calls
    exact ⟨result, k', .look hk (tape.getElem?_eq hk) h⟩
  | lookAhead next ih =>
    obtain ⟨result, k', h⟩ := ih _ hk calls
    exact ⟨result, k', .lookAhead hk h⟩
  | advance next ih =>
    rcases Nat.lt_or_eq_of_le hk with hlt | rfl
    · obtain ⟨result, k', h⟩ := ih hlt fun routine k' hle => calls routine k' (by omega)
      exact ⟨result, k', .advance hlt h⟩
    · obtain ⟨result, k', h⟩ := ih hk calls
      exact ⟨result, k', .advance_last h⟩
  | enter routine next ih =>
    obtain ⟨result, middle, hcall, -⟩ := calls routine k (Nat.le_refl k) hk
    cases result with
    | error problem => exact ⟨.error problem, middle, .enter_error hcall⟩
    | ok value =>
      have hle := hcall.le
      obtain ⟨result, k', h⟩ := ih value (hcall.le_last hk) fun routine k' hle' =>
        calls routine k' (by omega)
      exact ⟨result, k', .enter hcall h⟩

/-- Guarded code ends if every call does that is of lower rank, or made further on. -/
theorem Guarded.exists_ends {limit start : Nat} {consumes : Bool} {current : Option Token}
    {code : Code α} (h : Guarded limit consumes current code)
    (calls : ∀ {β : Type} (routine : Routine β) (k : Nat), start ≤ k → k ≤ tape.last →
      start < k ∨ routine.rank < limit → Returns tape routine k) {k : Nat} (hstart : start ≤ k)
    (hk : k ≤ tape.last) (hcurrent : ∀ t ∈ current, tape.tokens[k]? = some t) :
    ∃ result k', Ends tape code k result k' ∧
      (consumes = true → ∀ value, result = .ok value → start < k') := by
  -- once the cursor has moved, every call is allowed
  have moved {next : Code α} {k : Nat} (hlt : start < k) (hk : k ≤ tape.last) :
      ∃ result k', Ends tape next k result k' ∧ start < k' := by
    obtain ⟨result, k', hends⟩ := next.exists_ends hk fun routine k' hle hk' =>
      calls routine k' (by omega) hk' (.inl (by omega))
    exact ⟨result, k', hends, Nat.lt_of_lt_of_le hlt hends.le⟩
  induction h generalizing k with
  | ok h => exact ⟨_, k, .halt k _, by simp [h]⟩
  | failed => exact ⟨_, k, .halt k _, by simp⟩
  | look _ ih =>
    have ht := tape.getElem?_eq hk
    obtain ⟨result, k', hends, hmoved⟩ := ih _ hstart hk fun t hmem => hmem ▸ ht
    exact ⟨result, k', .look hk ht hends, hmoved⟩
  | lookAhead _ ih =>
    obtain ⟨result, k', hends, hmoved⟩ := ih _ hstart hk hcurrent
    exact ⟨result, k', .lookAhead hk hends, hmoved⟩
  | advance inner =>
    have hlt : k < tape.last := by
      refine Nat.lt_of_le_of_ne hk ?_
      rintro rfl
      have hlast := Option.some.inj (tape.getElem?_last.symm.trans (hcurrent _ rfl))
      exact inner (hlast ▸ tape.ending.kind_last)
    obtain ⟨result, k', hends, hmoved⟩ := moved (Nat.lt_succ_of_le hstart) hlt
    exact ⟨result, k', .advance hlt hends, fun _ _ _ => hmoved⟩
  | enter order moves =>
    obtain ⟨result, middle, hcall, hmiddle⟩ := calls _ k hstart hk (.inr order)
    cases result with
    | error problem => exact ⟨_, middle, .enter_error hcall, by simp⟩
    | ok value =>
      have hlt := hmiddle moves value rfl
      obtain ⟨result, k', hends, hmoved⟩ := moved (by omega) (hcall.le_last hk)
      exact ⟨result, k', .enter hcall hends, fun _ _ _ => hmoved⟩
  | enterStill order _ ih =>
    obtain ⟨result, middle, hcall, -⟩ := calls _ k hstart hk (.inr order)
    cases result with
    | error problem => exact ⟨_, middle, .enter_error hcall, by simp⟩
    | ok value =>
      obtain ⟨result, k', hends, hmoved⟩ :=
        ih value (Nat.le_trans hstart hcall.le) (hcall.le_last hk) (by simp)
      exact ⟨result, k', .enter hcall hends, hmoved⟩

/-- Every call returns: the calls it makes are further on, or at the same place and of lower rank. -/
theorem call_returns (tape : Tape) {α : Type} (routine : Routine α) (k : Nat)
    (hk : k ≤ tape.last) : Returns tape routine k :=
  (guarded_body routine).exists_ends
    (fun routine' k' hle hk' order => call_returns tape routine' k' hk') (Nat.le_refl k) hk (by simp)
termination_by (tape.last - k, routine.rank)
decreasing_by
  rw [Prod.lex_def]
  simp only
  omega

end Ends

section Calls

/-- A call at one place ends at another with a result.  From the one to the other the cursor never
goes back, and not past the end. -/
structure Completes {α : Type} (tape : Tape) (routine : Routine α) (k : Nat)
    (result : Except Problem α) (k' : Nat) : Prop where
  leadsTo : Moment.LeadsTo tape ⟨.body routine, k⟩ ⟨.halt result, k'⟩
  between : ∀ m, Moment.LeadsTo tape ⟨.body routine, k⟩ m → k ≤ m.cursor ∧ m.cursor ≤ k' ∧
    ∀ m', m.step? tape = some m' → m.cursor ≤ m'.cursor
  le_last : k' ≤ tape.last

theorem Ends.completes {α : Type} {tape : Tape} {routine : Routine α} {k k' : Nat}
    {result : Except Problem α} (h : Ends tape (.body routine) k result k') (hk : k ≤ tape.last) :
    Completes tape routine k result k' where
  leadsTo := h.leadsTo
  between _ hm := ⟨hm.le, (h.leadsTo.of_halt hm).le, fun _ => Moment.le_of_step⟩
  le_last := h.le_last hk

/-- Wherever it is called before the end, the routine completes with what the rule reads from the
tokens that are left; and if that is a value, it has moved the cursor. -/
def Progresses {α : Type} (tape : Tape) (routine : Routine α)
    (rule : (ts : List Token) → Reading ts.length α) : Prop :=
  ∀ k ≤ tape.last, ∃ result k', Completes tape routine k result k' ∧
    (rule (tape.pending k)).result = tape.outcome k' result ∧
    ∀ value, result = .ok value → k < k'

theorem progresses {α : Type} (tape : Tape) {routine : Routine α}
    {rule : (ts : List Token) → Reading ts.length α} (moves : routine.consumes = true)
    (hrule : ∀ ts, (rule ts).result = routine.action.run ts) : Progresses tape routine rule := by
  intro k hk
  obtain ⟨result, k', hends, hmoved⟩ := call_returns tape routine k hk
  exact ⟨result, k', hends.completes hk, (hrule _).trans hends.action_routine, hmoved moves⟩

theorem Tape.find?_tokens (tape : Tape) :
    tape.tokens.find? (fun t => t.kind == .eof) = some tape.ending.last := by
  have hlt := tape.last_lt_length
  rw [List.find?_eq_some_iff_getElem]
  refine ⟨beq_iff_eq.mpr tape.ending.kind_last, tape.last, hlt, rfl, fun j hj => ?_⟩
  simpa using List.not_of_lt_findIdx hj

/-- The end token that is put behind the tokens. -/
def endToken (tokens : List Token) : Token :=
  ⟨.eof, .none, (tokens.getLast?.map Token.position).getD .start⟩

namespace Tape

/-- The tokens with an end token put behind them, unless the last one is one. -/
def ofTokens (tokens : List Token) : Tape where
  tokens := if tokens.getLast?.map Token.kind = some .eof then tokens
    else tokens ++ [endToken tokens]
  ended := by
    split
    · rename_i h
      obtain ⟨t, ht, hk⟩ := Option.map_eq_some_iff.mp h
      exact ⟨t, List.mem_of_getLast? ht, hk⟩
    · exact ⟨endToken tokens, by simp, rfl⟩

/-- The stream with the cursor at a place. -/
def stream (tape : Tape) (k : Nat) : TokenStream := ⟨tape.pending k, tape.ending.last⟩

/-- The place of the cursor if the tokens of the stream are left. -/
def cursor (tape : Tape) (stream : TokenStream) : Nat := tape.last - stream.pending.length

theorem cursor_stream (tape : Tape) {k : Nat} (h : k ≤ tape.last) :
    tape.cursor (tape.stream k) = k := by
  rw [cursor, stream, tape.length_pending h]
  omega

theorem takeWhile_append_endToken (tokens : List Token) :
    (tokens ++ [endToken tokens]).takeWhile isInner = tokens.takeWhile isInner := by
  rw [List.takeWhile_append]
  split
  · rename_i h
    rw [(List.takeWhile_prefix _).eq_of_length h]
    exact List.append_nil tokens
  · rfl

theorem stream_zero (tokens : List Token) :
    (ofTokens tokens).stream 0 = .ofTokens tokens := by
  have hfind := (ofTokens tokens).find?_tokens
  rw [stream, TokenStream.ofTokens, pending, List.drop_zero, TokenStream.mk.injEq]
  by_cases h : tokens.getLast?.map Token.kind = some .eof
  · have htokens : (ofTokens tokens).tokens = tokens := if_pos h
    rw [htokens] at hfind ⊢
    rw [hfind]
    exact ⟨rfl, rfl⟩
  · have htokens : (ofTokens tokens).tokens = tokens ++ [endToken tokens] := if_neg h
    rw [htokens] at hfind ⊢
    rw [List.find?_append, show [endToken tokens].find? _ = some _ from rfl, Option.or_some] at hfind
    exact ⟨takeWhile_append_endToken tokens, (Option.some.inj hfind).symm⟩

/-- One call reads a program, or fails, where the run of the routine does. -/
theorem program_stream (tape : Tape) {k : Nat} (hk : k ≤ tape.last) :
    ∃ result k', Ends tape (.body .program) k result k' ∧
      (tape.stream k).program =
        (result.mapError fun problem =>
          ⟨problem, (tape.stream k).offending problem (tape.pending k')⟩, tape.stream k') ∧
      ∀ program, result = .ok program → k' = tape.last := by
  obtain ⟨result, k', hends, -⟩ := call_returns tape .program k hk
  have hrun := hends.action_routine
  refine ⟨result, k', hends, ?_⟩
  rw [TokenStream.program]
  cases hd : declarations (tape.stream k).pending with
  | ok program =>
    cases result with
    | error problem => cases (Action.run_program_of_ok hd).symm.trans hrun
    | ok value =>
      obtain ⟨rfl, hnil⟩ := EStateM.Result.ok.inj ((Action.run_program_of_ok hd).symm.trans hrun)
      have hlength := tape.length_pending (hends.le_last hk)
      have hle := hends.le_last hk
      rw [← hnil] at hlength
      refine ⟨?_, fun _ _ => ?_⟩
      · rw [stream, stream, ← hnil]
        rfl
      · change 0 = _ at hlength
        omega
  | error failure =>
    obtain ⟨problem, rest⟩ := failure
    cases result with
    | ok value => cases (Action.run_program_of_error hd).symm.trans hrun
    | error problem' =>
      obtain ⟨rfl, rfl⟩ := EStateM.Result.error.inj ((Action.run_program_of_error hd).symm.trans hrun)
      exact ⟨rfl, by simp⟩

theorem program_stream_last (tape : Tape) :
    (tape.stream tape.last).program = (.ok [], tape.stream tape.last) := by
  rw [stream, tape.pending_last, TokenStream.program, declarations_nil]

end Tape

end Calls

end Grammar

namespace TokenStream

open Grammar

/-- The stream after so many calls. -/
def after (stream : TokenStream) : Nat → TokenStream
  | 0 => stream
  | n + 1 => (stream.after n).program.2

section Calls

variable {tape : Tape} {stream : TokenStream}

/-- Calls move along the tape. -/
theorem exists_after (tape : Tape) (n : Nat) :
    ∃ k ≤ tape.last, (tape.stream 0).after n = tape.stream k := by
  induction n with
  | zero => exact ⟨0, Nat.zero_le _, rfl⟩
  | succ n ih =>
    obtain ⟨k, hk, hafter⟩ := ih
    obtain ⟨result, k', hends, hprogram, -⟩ := tape.program_stream hk
    exact ⟨k', hends.le_last hk, by rw [after, hafter, hprogram]⟩

/-- At the end nothing changes any more. -/
theorem after_of_last {n m : Nat} (h : stream.after n = tape.stream tape.last) (hle : n ≤ m) :
    stream.after m = tape.stream tape.last := by
  induction hle with
  | refl => exact h
  | step _ ih => rw [after, ih, tape.program_stream_last]

end Calls

/-- Reading makes progress and stays before the end, whatever the tokens are and however often it is
called.  Every routine completes; a declaration, a statement and an expression move the cursor.  Each
call starts where the one before ended, and ends at a token; a call that reads a program ends at the
first end token, and every later one reads nothing. -/
theorem calls_progress (tokens : List Token) :
    let tape := Tape.ofTokens tokens
    let calls := (ofTokens tokens).after
    let cursor n := tape.cursor (calls n)
    (∀ (α : Type) (routine : Routine α), ∀ k ≤ tape.last, ∃ result k',
      Completes tape routine k result k' ∧
        routine.action.run (tape.pending k) = tape.outcome k' result) ∧
    Progresses tape .declaration declaration ∧ Progresses tape .statement statement ∧
    Progresses tape .expression expression ∧
    tape.last < tape.tokens.length ∧ cursor 0 = 0 ∧
    ∀ n, calls n = tape.stream (cursor n) ∧
      (∃ result, Completes tape .program (cursor n) result (cursor (n + 1)) ∧
        (calls n).program.1 = result.mapError fun problem =>
          ⟨problem, (calls n).offending problem (calls (n + 1)).pending⟩) ∧
      ∀ program, (calls n).program.1 = .ok program →
        cursor (n + 1) = tape.last ∧
          ∀ later > n, cursor later = tape.last ∧ (calls later).program.1 = .ok [] := by
  intro tape calls cursor
  have hcursor {n k : Nat} (hk : k ≤ tape.last) (h : calls n = tape.stream k) : cursor n = k := by
    show tape.cursor (calls n) = k
    rw [h, tape.cursor_stream hk]
  have hstart : calls 0 = tape.stream 0 := (Tape.stream_zero tokens).symm
  refine ⟨fun _ routine k hk => ?_, ?_, ?_, ?_, tape.last_lt_length,
    hcursor (Nat.zero_le _) hstart, fun n => ?_⟩
  · obtain ⟨result, k', hends, -⟩ := call_returns tape routine k hk
    exact ⟨result, k', hends.completes hk, hends.action_routine⟩
  · exact progresses tape rfl fun _ => Action.result_declaration
  · exact progresses tape rfl fun _ => Action.result_terminated rfl
  · exact progresses tape rfl fun _ => rfl
  obtain ⟨k, hk, hafter⟩ : ∃ k ≤ tape.last, calls n = tape.stream k := by
    show ∃ k ≤ tape.last, (ofTokens tokens).after n = tape.stream k
    rw [← Tape.stream_zero]
    exact exists_after tape n
  obtain ⟨result, k', hends, hprogram, hlast⟩ := tape.program_stream hk
  have hnext : calls (n + 1) = tape.stream k' := by
    show (calls n).program.2 = _
    rw [hafter, hprogram]
  rw [hcursor hk hafter, hcursor (hends.le_last hk) hnext, hnext, hafter, hprogram]
  refine ⟨rfl, ⟨result, hends.completes hk, rfl⟩, fun program hok => ?_⟩
  have hend : k' = tape.last := by
    cases result with
    | ok value => exact hlast value rfl
    | error problem => cases hok
  refine ⟨hend, fun later hlater => ?_⟩
  have hstays : calls later = tape.stream tape.last := after_of_last (hend ▸ hnext) hlater
  refine ⟨hcursor (Nat.le_refl _) hstays, ?_⟩
  rw [hstays, tape.program_stream_last]

/-- A number token without a number, a name, an end token and a name behind it. -/
def brokenTokens : List Token :=
  [⟨.number, .text "1", ⟨1, 1⟩⟩, ⟨.identifier, .text "ガ", ⟨1, 3⟩⟩, ⟨.eof, .none, ⟨1, 4⟩⟩,
    ⟨.identifier, .text "ダ", ⟨2, 1⟩⟩]

/-- The first call fails and has passed the number, the second one reads the first name, and the name
behind the end token is never read. -/
theorem calls_progress_broken :
    let tape := Tape.ofTokens brokenTokens
    let calls := (ofTokens brokenTokens).after
    tape.last = 2 ∧ tape.tokens.length = 5 ∧
    (∃ error, (calls 0).program.1 = .error error) ∧ tape.cursor (calls 1) = 1 ∧
    (∃ statement, (calls 1).program.1 = .ok [statement]) ∧
    ∀ later > 1, tape.cursor (calls later) = 2 ∧ (calls later).program.1 = .ok [] := by
  have hlast : (Tape.ofTokens brokenTokens).last = 2 := by decide +kernel
  have hfirst : (ofTokens brokenTokens).program =
      (.error ⟨.malformedNumber ⟨.number, .text "1", ⟨1, 1⟩⟩, ⟨.number, .text "1", ⟨1, 1⟩⟩⟩,
        ⟨[⟨.identifier, .text "ガ", ⟨1, 3⟩⟩], ⟨.eof, .none, ⟨1, 4⟩⟩⟩) := by cbv
  have hafter : (ofTokens brokenTokens).after 1 =
      ⟨[⟨.identifier, .text "ガ", ⟨1, 3⟩⟩], ⟨.eof, .none, ⟨1, 4⟩⟩⟩ := congrArg Prod.snd hfirst
  have hread : ((ofTokens brokenTokens).after 1).program.1 =
      .ok [.statement (.expression (.name "ガ" ⟨1, 3⟩) ⟨1, 3⟩)] := by
    rw [hafter]
    cbv
  have hlater := (((calls_progress brokenTokens).2.2.2.2.2.2 1).2.2 _ hread).2
  rw [hlast] at hlater
  refine ⟨hlast, by decide +kernel, ⟨_, congrArg Prod.fst hfirst⟩, ?_, ⟨_, hread⟩, hlater⟩
  rw [hafter]
  decide +kernel

end TokenStream

end KanaScript
