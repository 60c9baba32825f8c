import KanaScript.Proofs.Grammar.Cursor

/-! Why every routine returns.  Routines have ranks, and before it has moved the cursor a routine
calls only routines of lower rank.  So no routine calls itself again at the same place, and a loop
whose body returns moves the cursor each time round. -/

namespace KanaScript.Grammar

namespace Routine

/-- A routine calls routines of lower rank only, until the cursor has moved. -/
def rank : {α : Type} → Routine α → Nat
  | _, .prefixed => 1
  | _, .binary levels => levels.length + 2
  | _, .expression => binaryLevels.length + 3
  | _, .expressionList => binaryLevels.length + 4
  | _, .arguments => binaryLevels.length + 5
  | _, .ifElse _ => binaryLevels.length + 4
  | _, .whileLoop _ => binaryLevels.length + 4
  | _, .forLoop _ => binaryLevels.length + 4
  | _, .forClauses => binaryLevels.length + 4
  | _, .switch _ => binaryLevels.length + 4
  | _, .returns _ => binaryLevels.length + 4
  | _, .bareStatement => binaryLevels.length + 4
  | _, .statement => binaryLevels.length + 5
  | _, .statements _ => binaryLevels.length + 6
  | _, .openedBlock _ => binaryLevels.length + 7
  | _, .openedParameters => 1
  | _, .declaration => binaryLevels.length + 6
  | _, .program => binaryLevels.length + 7
  | _, _ => 0

/-- Whether a routine that returns a value has moved the cursor. -/
def consumes : {α : Type} → Routine α → Bool
  | _, .program => false
  | _, .markedParameters => false
  | _, .typedParameters _ => false
  | _, .statements _ => false
  | _, .clauses _ => false
  | _, .returns _ => false
  | _, .variableRest .. => false
  | _, .chain .. => false
  | _, .suffixes _ => false
  | _, _ => true

end Routine

/-- Until it has moved the cursor, the code calls only routines of a rank below `limit`; and it
returns no value before that, if `consumes` says so.  The index is the token under the cursor, if
that has been looked at. -/
inductive Guarded {α : Type} (limit : Nat) (consumes : Bool) : Option Token → Code α → Prop
  | ok {current : Option Token} {value : α} (h : consumes = false) :
      Guarded limit consumes current (.halt (.ok value))
  | failed {current : Option Token} {problem : Problem} :
      Guarded limit consumes current (.halt (.error problem))
  | look {current : Option Token} {next : Token → Code α}
      (h : ∀ t, Guarded limit consumes (some t) (next t)) :
      Guarded limit consumes current (.look next)
  | lookAhead {current : Option Token} {next : Option Token → Code α}
      (h : ∀ u, Guarded limit consumes current (next u)) :
      Guarded limit consumes current (.lookAhead next)
  | advance {t : Token} {next : Code α} (inner : t.kind ≠ .eof) :
      Guarded limit consumes (some t) (.advance next)
  | enter {current : Option Token} {β : Type} {routine : Routine β} {next : β → Code α}
      (order : routine.rank < limit) (moves : routine.consumes = true) :
      Guarded limit consumes current (.enter routine next)
  | enterStill {current : Option Token} {β : Type} {routine : Routine β} {next : β → Code α}
      (order : routine.rank < limit) (h : ∀ value, Guarded limit consumes none (next value)) :
      Guarded limit consumes current (.enter routine next)

namespace Guarded

variable {α β : Type} {limit : Nat} {consumes post : Bool} {current : Option Token}

/-- Looking at the token under the cursor allows more. -/
theorem looked {code : Code α} (h : Guarded limit consumes none code) :
    Guarded limit consumes current code := by
  generalize hnone : (none : Option Token) = before at h
  induction h with
  | ok h => exact .ok h
  | failed => exact .failed
  | look h => exact .look h
  | lookAhead _ ih => exact .lookAhead fun u => ih u hnone
  | advance => cases hnone
  | enter order moves => exact .enter order moves
  | enterStill order h => exact .enterStill order h

/-- What comes after a part matters only if the part may leave the cursor where it is. -/
theorem bind {code : Code α} {next : α → Code β} (h : Guarded limit post current code)
    (hnext : post = false → ∀ value, Guarded limit consumes none (next value)) :
    Guarded limit consumes current (code >>= next) := by
  show Guarded limit consumes current (code.bind next)
  induction h with
  | ok h => exact (hnext h _).looked
  | failed => exact .failed
  | look _ ih => exact .look ih
  | lookAhead _ ih => exact .lookAhead ih
  | advance inner => exact .advance inner
  | enter order moves => exact .enter order moves
  | enterStill order _ ih => exact .enterStill order ih

theorem bind_of_moves {code : Code α} {next : α → Code β} (h : Guarded limit true current code) :
    Guarded limit consumes current (code >>= next) := h.bind (by simp)

theorem call_bind {routine : Routine α} {next : α → Code β} (order : routine.rank < limit)
    (h : ∀ value, Guarded limit consumes none (next value)) :
    Guarded limit consumes current (.call routine >>= next) := .enterStill order h

theorem takeIf {test : Test} {taken : Token → Code α} {otherwise : Code α}
    (h : Guarded limit consumes none otherwise) :
    Guarded limit consumes current (.takeIf test taken otherwise) := by
  refine .look fun t => ?_
  split
  · rename_i ht
    exact .advance (test.inner t ht)
  · exact h.looked

theorem take {test : Test} {problem : Problem} {taken : Token → Code α} :
    Guarded limit consumes current (.take test problem taken) := takeIf .failed

theorem stopIf {stops : Token → Bool} {value : α} {otherwise : Code α} (hvalue : consumes = false)
    (h : Guarded limit consumes none otherwise) :
    Guarded limit consumes current (.stopIf stops value otherwise) := by
  refine .look fun t => ?_
  split
  · exact .ok hvalue
  · exact h.looked

theorem lastClauses {seen : Bool} : Guarded limit false current (.lastClauses seen) := by
  cases seen with
  | false => exact .takeIf (.ok rfl)
  | true =>
    refine .look fun t => ?_
    split
    · exact .failed
    · exact .ok rfl

theorem voidOrParameters (order : Routine.parameterList.rank < limit) :
    Guarded limit consumes current .voidOrParameters := by
  have hlist : Guarded limit consumes none .closedParameters := .enter order rfl
  refine .look fun t => ?_
  split
  · rename_i ht
    have inner : t.kind ≠ .eof := Test.inner (.word .typeKeyword "void") t ht
    refine .lookAhead fun u => ?_
    split
    · exact .advance inner
    · exact hlist.looked
  · exact hlist.looked

end Guarded

/-- No routine calls one of its own rank, or above, before it has moved the cursor. -/
theorem guarded_body {α : Type} (routine : Routine α) :
    Guarded routine.rank routine.consumes none (Code.body routine) := by
  cases routine with
  | program => exact .stopIf rfl (.enter (by simp [Routine.rank]) rfl)
  | declaration => exact .takeIf (.takeIf (.enter (by simp [Routine.rank]) rfl))
  | markedFunction => exact .take
  | typedDeclaration => exact .bind_of_moves .take
  | markedParameters => exact .takeIf (.takeIf (.takeIf (.ok rfl)))
  | openedParameters => exact .takeIf (.voidOrParameters (by simp [Routine.rank]))
  | parameterList => exact .bind_of_moves .take
  | typedParameters => exact .stopIf rfl (.bind_of_moves .take)
  | openedBlock => exact .call_bind (by simp [Routine.rank]) fun _ => .bind_of_moves .take
  | statements => exact .stopIf rfl (.enter (by simp [Routine.rank]) rfl)
  | statement => exact .enter (by simp [Routine.rank]) rfl
  | bareStatement =>
    iterate 9 apply Guarded.takeIf
    exact .look fun _ => .enter (by simp [Routine.rank]) rfl
  | ifElse => exact .enter (by simp [Routine.rank]) rfl
  | whileLoop => exact .enter (by simp [Routine.rank]) rfl
  | forLoop => exact .bind_of_moves (.takeIf (.enter (by simp [Routine.rank]) rfl))
  | forClauses =>
    have hinit : Guarded Routine.forClauses.rank false none Code.forInit :=
      .stopIf rfl (.takeIf (.enter (by simp [Routine.rank]) rfl))
    exact hinit.bind fun _ _ => .bind_of_moves .take
  | switch => exact .enter (by simp [Routine.rank]) rfl
  | clauses => exact .takeIf .lastClauses
  | returns => exact .stopIf rfl (.enter (by simp [Routine.rank]) rfl)
  | typedVariable => exact .bind_of_moves .take
  | variableRest type name position =>
    have hsize : Guarded (Routine.variableRest type name position).rank false none Code.sizeSuffix :=
      .takeIf (.ok rfl)
    exact hsize.bind fun _ _ => .takeIf (.ok rfl)
  | expression => exact .enter (by simp [Routine.rank]) rfl
  | binary levels =>
    cases levels with
    | nil => exact .enter (by simp [Routine.rank]) rfl
    | cons ops tighter => exact .enter (by simp [Routine.rank]) rfl
  | chain => exact .takeIf (.ok rfl)
  | prefixed => exact .takeIf (.enter (by simp [Routine.rank]) rfl)
  | primary => exact .takeIf (.takeIf (.takeIf (.takeIf .take)))
  | suffixes => exact .takeIf (.takeIf (.takeIf (.ok rfl)))
  | arguments => exact .takeIf (.enter (by simp [Routine.rank]) rfl)
  | expressionList => exact .enter (by simp [Routine.rank]) rfl

end KanaScript.Grammar
