import KanaScript.C.Program
import KanaScript.Proofs.Token.Place

/-! Trees with their positions changed.  A change of positions goes through the whole tree and
leaves everything else in it as it is; C text shows no positions and stays the same. -/

namespace KanaScript

section Expressions

variable (f : Position → Position)

mutual

/-- The expression with all positions in it changed. -/
def Expr.move (f : Position → Position) : Expr → Expr
  | .binary op left right position => .binary op (left.move f) (right.move f) (f position)
  | .prefixed op operand position => .prefixed op (operand.move f) (f position)
  | .suffixed op operand position => .suffixed op (operand.move f) (f position)
  | .assign target value position => .assign (target.move f) (value.move f) (f position)
  | .call callee arguments position => .call (callee.move f) (Expr.moveAll f arguments) (f position)
  | .index array offset position => .index (array.move f) (offset.move f) (f position)
  | .name text position => .name text (f position)
  | .number value position => .number value (f position)
  | .string text position => .string text (f position)
  | .char text position => .char text (f position)

def Expr.moveAll (f : Position → Position) : List Expr → List Expr
  | [] => []
  | e :: es => e.move f :: Expr.moveAll f es

end

theorem Expr.moveAll_eq (es : List Expr) : Expr.moveAll f es = es.map (Expr.move f) := by
  induction es with
  | nil => rfl
  | cons e es ih => rw [Expr.moveAll, ih, List.map_cons]

theorem Expr.move_call (callee : Expr) (arguments : List Expr) (position : Position) :
    (Expr.call callee arguments position).move f =
      .call (callee.move f) (arguments.map (Expr.move f)) (f position) := by
  rw [Expr.move, Expr.moveAll_eq]

@[simp]
theorem Expr.position_move (e : Expr) : (e.move f).position = f e.position := by
  cases e <;> rfl

theorem C.isPrint_move (e : Expr) : C.isPrint (e.move f) = C.isPrint e := by
  cases e <;> rfl

theorem C.formatCode?_move (print : Bool) (e : Expr) :
    C.formatCode? print (e.move f) = C.formatCode? print e := by
  cases e <;> rfl

mutual

theorem Expr.code_move : ∀ e : Expr, (e.move f).code = e.code
  | .binary op left right _ => by
    rw [Expr.move, Expr.code, Expr.code, Expr.code_move left, Expr.code_move right]
  | .prefixed op operand _ => by rw [Expr.move, Expr.code, Expr.code, Expr.code_move operand]
  | .suffixed op operand _ => by rw [Expr.move, Expr.code, Expr.code, Expr.code_move operand]
  | .assign target value _ => by
    rw [Expr.move, Expr.code, Expr.code, Expr.code_move target, Expr.code_move value]
  | .call callee arguments _ => by
    rw [Expr.move, Expr.code, Expr.code, Expr.code_move callee, C.isPrint_move,
      argumentCodes_moveAll _ arguments]
  | .index array index _ => by
    rw [Expr.move, Expr.code, Expr.code, Expr.code_move array, Expr.code_move index]
  | .name text _ => rfl
  | .number value _ => rfl
  | .string text _ => rfl
  | .char text _ => rfl

theorem argumentCodes_moveAll : ∀ (print : Bool) (es : List Expr),
    argumentCodes print (Expr.moveAll f es) = argumentCodes print es
  | _, [] => rfl
  | print, e :: es => by
    rw [Expr.moveAll, argumentCodes, argumentCodes, C.formatCode?_move, Expr.code_move e,
      argumentCodes_moveAll false es]

end

theorem C.optionalCode_move (e : Option Expr) :
    C.optionalCode (e.map (Expr.move f)) = C.optionalCode e := by
  cases e with
  | none => rfl
  | some e => exact e.code_move f

end Expressions

section Statements

variable (f : Position → Position)

def Variable.move (v : Variable) : Variable :=
  { v with init := v.init.map (Expr.move f), position := f v.position }

def ForInit.move : ForInit → ForInit
  | declare v => declare (v.move f)
  | expression e => expression (e.move f)

theorem Variable.code_move (v : Variable) : (v.move f).code = v.code := by
  obtain ⟨type, name, init, position⟩ := v
  cases init with
  | none => rfl
  | some init =>
    show _ ++ " = " ++ (init.move f).code = _ ++ " = " ++ init.code
    rw [Expr.code_move]
    rfl

theorem ForInit.code_move (init : ForInit) : (init.move f).code = init.code := by
  cases init with
  | declare v => exact v.code_move f
  | expression e => exact e.code_move f

mutual

/-- The statement with all positions in it changed. -/
def Stmt.move (f : Position → Position) : Stmt → Stmt
  | .block statements position => .block (Stmt.moveAll f statements) (f position)
  | .declare v => .declare (v.move f)
  | .ifElse condition consequent none position =>
    .ifElse (condition.move f) (consequent.move f) none (f position)
  | .ifElse condition consequent (some alternative) position =>
    .ifElse (condition.move f) (consequent.move f) (some (alternative.move f)) (f position)
  | .whileLoop condition body position => .whileLoop (condition.move f) (body.move f) (f position)
  | .forLoop init condition update body position =>
    .forLoop (init.map (ForInit.move f)) (condition.map (Expr.move f)) (update.map (Expr.move f))
      (body.move f) (f position)
  | .switch subject cases none position =>
    .switch (subject.move f) (Clause.moveAll f cases) none (f position)
  | .switch subject cases (some fallback) position =>
    .switch (subject.move f) (Clause.moveAll f cases) (some (Stmt.moveAll f fallback)) (f position)
  | .returns value position => .returns (value.map (Expr.move f)) (f position)
  | .breaks position => .breaks (f position)
  | .continues position => .continues (f position)
  | .expression e position => .expression (e.move f) (f position)

def Stmt.moveAll (f : Position → Position) : List Stmt → List Stmt
  | [] => []
  | s :: ss => s.move f :: Stmt.moveAll f ss

def Clause.moveAll (f : Position → Position) : List Clause → List Clause
  | [] => []
  | .case value statements position :: others =>
    .case (value.move f) (Stmt.moveAll f statements) (f position) :: Clause.moveAll f others

end

def Clause.move : Clause → Clause
  | .case value statements position =>
    .case (value.move f) (statements.map (Stmt.move f)) (f position)

theorem Stmt.moveAll_eq (ss : List Stmt) : Stmt.moveAll f ss = ss.map (Stmt.move f) := by
  induction ss with
  | nil => rfl
  | cons s ss ih => rw [Stmt.moveAll, ih, List.map_cons]

theorem Clause.moveAll_eq (cases : List Clause) :
    Clause.moveAll f cases = cases.map (Clause.move f) := by
  induction cases with
  | nil => rfl
  | cons clause others ih =>
    obtain ⟨value, statements, position⟩ := clause
    rw [Clause.moveAll, ih, Stmt.moveAll_eq, List.map_cons, Clause.move]

theorem Stmt.move_block (statements : List Stmt) (position : Position) :
    (Stmt.block statements position).move f =
      .block (statements.map (Stmt.move f)) (f position) := by
  rw [Stmt.move, Stmt.moveAll_eq]

theorem Stmt.move_switch (subject : Expr) (cases : List Clause) (fallback : Option (List Stmt))
    (position : Position) : (Stmt.switch subject cases fallback position).move f =
      .switch (subject.move f) (cases.map (Clause.move f))
        (fallback.map (List.map (Stmt.move f))) (f position) := by
  cases fallback with
  | none => rw [Stmt.move, Clause.moveAll_eq, Option.map_none]
  | some fallback => rw [Stmt.move, Clause.moveAll_eq, Stmt.moveAll_eq, Option.map_some]

theorem Stmt.bodyLevel_move (level : Nat) (s : Stmt) :
    (s.move f).bodyLevel level = s.bodyLevel level := by
  cases s with
  | ifElse condition consequent alternative position => cases alternative <;> rfl
  | switch subject cases fallback position => cases fallback <;> rfl
  | _ => rfl

theorem Stmt.isIf_move (s : Stmt) : (s.move f).isIf = s.isIf := by
  cases s with
  | ifElse condition consequent alternative position => cases alternative <;> rfl
  | switch subject cases fallback position => cases fallback <;> rfl
  | _ => rfl

mutual

theorem Stmt.lines_move : ∀ (level : Nat) (lead : String) (s : Stmt),
    (s.move f).lines level lead = s.lines level lead
  | level, lead, .block statements _ => by
    rw [Stmt.move, Stmt.lines, Stmt.lines, statementLines_moveAll _ statements]
  | level, lead, .declare v => by rw [Stmt.move, Stmt.lines, Stmt.lines, Variable.code_move]
  | level, lead, .ifElse condition consequent none _ => by
    rw [Stmt.move, Stmt.lines, Stmt.lines, Expr.code_move, Stmt.bodyLevel_move,
      Stmt.lines_move _ _ consequent]
  | level, lead, .ifElse condition consequent (some alternative) _ => by
    rw [Stmt.move, Stmt.lines, Stmt.lines, Expr.code_move, Stmt.bodyLevel_move,
      Stmt.lines_move _ _ consequent, Stmt.isIf_move, Stmt.bodyLevel_move,
      Stmt.lines_move _ _ alternative, Stmt.lines_move _ _ alternative]
  | level, lead, .whileLoop condition body _ => by
    rw [Stmt.move, Stmt.lines, Stmt.lines, Expr.code_move, Stmt.bodyLevel_move,
      Stmt.lines_move _ _ body]
  | level, lead, .forLoop init condition update body _ => by
    have hinit : (init.map (ForInit.move f)).map ForInit.code = init.map ForInit.code := by
      rw [Option.map_map, show ForInit.code ∘ ForInit.move f = _ from
        funext fun init => init.code_move f]
    rw [Stmt.move, Stmt.lines, Stmt.lines, hinit, C.optionalCode_move, C.optionalCode_move,
      Stmt.bodyLevel_move, Stmt.lines_move _ _ body]
  | level, lead, .switch subject cases none _ => by
    rw [Stmt.move, Stmt.lines, Stmt.lines, Expr.code_move, clauseLines_moveAll _ cases]
  | level, lead, .switch subject cases (some fallback) _ => by
    rw [Stmt.move, Stmt.lines, Stmt.lines, Expr.code_move, clauseLines_moveAll _ cases,
      statementLines_moveAll _ fallback]
  | level, lead, .returns none _ => rfl
  | level, lead, .returns (some value) _ => by
    rw [Stmt.move, Option.map_some, Stmt.lines, Stmt.lines, Expr.code_move]
  | level, lead, .breaks _ => rfl
  | level, lead, .continues _ => rfl
  | level, lead, .expression e _ => by rw [Stmt.move, Stmt.lines, Stmt.lines, Expr.code_move]

theorem statementLines_moveAll : ∀ (level : Nat) (ss : List Stmt),
    statementLines level (Stmt.moveAll f ss) = statementLines level ss
  | _, [] => rfl
  | level, s :: ss => by
    rw [Stmt.moveAll, statementLines, statementLines, Stmt.lines_move _ _ s,
      statementLines_moveAll _ ss]

theorem clauseLines_moveAll : ∀ (level : Nat) (cases : List Clause),
    clauseLines level (Clause.moveAll f cases) = clauseLines level cases
  | _, [] => rfl
  | level, .case value statements _ :: others => by
    rw [Clause.moveAll, clauseLines, clauseLines, Expr.code_move,
      statementLines_moveAll _ statements, clauseLines_moveAll _ others]

end

end Statements

section Programs

variable (f : Position → Position)

def Block.move (b : Block) : Block := ⟨b.statements.map (Stmt.move f), f b.position⟩

def Parameter.move (p : Parameter) : Parameter := { p with position := f p.position }

def Function.move (function : Function) : Function :=
  { function with
    parameters := function.parameters.map (Parameter.move f)
    body := function.body.move f
    position := f function.position }

/-- The declaration with all positions in it changed. -/
def Declaration.move : Declaration → Declaration
  | function g => function (g.move f)
  | global v => global (v.move f)
  | statement s => statement (s.move f)

theorem Function.header_move (function : Function) :
    (function.move f).header = function.header := by
  obtain ⟨type, name, parameters, body, position⟩ := function
  simp only [Function.header, Function.move, List.map_map, List.isEmpty_map]
  rfl

theorem Function.lines_move (function : Function) : (function.move f).lines = function.lines := by
  have hbody : Stmt.block (function.move f).body.statements (function.move f).body.position =
      (Stmt.block function.body.statements function.body.position).move f :=
    (Stmt.move_block f _ _).symm
  rw [Function.lines, Function.lines, Function.header_move, hbody, Stmt.lines_move]

theorem Declaration.lines_move (d : Declaration) : (d.move f).lines = d.lines := by
  cases d with
  | function g => exact g.lines_move f
  | global v => rw [Declaration.move, Declaration.lines, Declaration.lines, Variable.code_move]
  | statement s => exact s.lines_move f 0 ""

/-- C text shows no positions. -/
theorem Program.code_move (program : Program) :
    Program.code (program.map (Declaration.move f)) = Program.code program := by
  rw [Program.code, Program.code, Program.lines, Program.lines, List.flatMap_map]
  simp only [Declaration.lines_move]

end Programs

end KanaScript
