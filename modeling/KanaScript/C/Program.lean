import KanaScript.C.Expression

/-! The C text of programs, line by line.  A line has four spaces in front for each level it is nested
in.  A body that is no block stands one level deeper than its head, and an `if` right after `else`
continues that line. -/

namespace KanaScript

namespace C

/-- A line at a level of nesting. -/
def line (level : Nat) (code : String) : String := "".pushn ' ' (4 * level) ++ code

/-- The text of an expression that may be missing. -/
def optionalCode (e : Option Expr) : String := (e.map Expr.code).getD ""

end C

/-- A declaration without its terminator. -/
def Variable.code (v : Variable) : String :=
  let name := C.identifier v.name
  let declarator :=
    match v.elementType? with
    | some element => element ++ " " ++ name ++ arraySuffix
    | none => v.typeName ++ " " ++ name
  match v.init with
  | some init => declarator ++ " = " ++ init.code
  | none => declarator

def ForInit.code : ForInit → String
  | declare v => v.code
  | expression e => e.code

/-- The level of a body whose head is at `level`. -/
def Stmt.bodyLevel (level : Nat) : Stmt → Nat
  | block _ _ => level
  | _ => level + 1

def Stmt.isIf : Stmt → Bool
  | ifElse _ _ _ _ => true
  | _ => false

mutual

/-- The lines of a statement at `level`; `lead` stands before an `if` that continues a line. -/
def Stmt.lines (level : Nat) (lead : String) : Stmt → List String
  | .block statements _ =>
    C.line level "\x7b" :: (statementLines (level + 1) statements ++ [C.line level "\x7d"])
  | .declare v => [C.line level (v.code ++ ";")]
  | .ifElse condition consequent none _ =>
    C.line level (lead ++ "if (" ++ condition.code ++ ")") ::
      consequent.lines (consequent.bodyLevel level) ""
  | .ifElse condition consequent (some alternative) _ =>
    C.line level (lead ++ "if (" ++ condition.code ++ ")") ::
      (consequent.lines (consequent.bodyLevel level) "" ++
        if alternative.isIf then alternative.lines level "else "
        else C.line level "else" :: alternative.lines (alternative.bodyLevel level) "")
  | .whileLoop condition body _ =>
    C.line level ("while (" ++ condition.code ++ ")") :: body.lines (body.bodyLevel level) ""
  | .forLoop init condition update body _ =>
    C.line level ("for (" ++ (init.map ForInit.code).getD "" ++ "; " ++ C.optionalCode condition ++
        "; " ++ C.optionalCode update ++ ")") ::
      body.lines (body.bodyLevel level) ""
  | .switch subject cases none _ =>
    C.line level ("switch (" ++ subject.code ++ ")") :: C.line level "\x7b" ::
      (clauseLines level cases ++ [C.line level "\x7d"])
  | .switch subject cases (some fallback) _ =>
    C.line level ("switch (" ++ subject.code ++ ")") :: C.line level "\x7b" ::
      (clauseLines level cases ++
        C.line level "default:" :: (statementLines (level + 1) fallback ++
          [C.line level "\x7d"]))
  | .returns none _ => [C.line level "return;"]
  | .returns (some value) _ => [C.line level ("return " ++ value.code ++ ";")]
  | .breaks _ => [C.line level "break;"]
  | .continues _ => [C.line level "continue;"]
  | .expression e _ => [C.line level (e.code ++ ";")]

def statementLines (level : Nat) : List Stmt → List String
  | [] => []
  | s :: ss => s.lines level "" ++ statementLines level ss

def clauseLines (level : Nat) : List Clause → List String
  | [] => []
  | .case value statements _ :: others =>
    C.line level ("case " ++ value.code ++ ":") ::
      (statementLines (level + 1) statements ++ clauseLines level others)

end

/-- The name of the function that a program starts with. -/
def entryPoint : String := "main"

/-- The first line of a function.  The entry point without parameters takes `void`. -/
def Function.header (f : Function) : String :=
  let parameters := ", ".intercalate
    (f.parameters.map fun p => p.typeName ++ " " ++ C.identifier p.name)
  let parameters := if f.parameters.isEmpty && f.name == entryPoint then "void" else parameters
  f.returnType ++ " " ++ C.identifier f.name ++ "(" ++ parameters ++ ")"

def Function.lines (f : Function) : List String :=
  C.line 0 f.header :: (Stmt.block f.body.statements f.body.position).lines 0 ""

def Declaration.lines : Declaration → List String
  | function f => f.lines
  | global v => [C.line 0 (v.code ++ ";")]
  | statement s => s.lines 0 ""

/-- The lines that every program starts with. -/
def preamble : List String :=
  ["#include <stdio.h>", "#include <stdlib.h>", "#include <string.h>", ""]

namespace Program

/-- The lines of a program: the preamble, then each declaration with an empty line after it. -/
def lines (program : Program) : List String :=
  preamble ++ program.flatMap fun d => d.lines ++ [""]

/-- The C text of a program. -/
def code (program : Program) : String := "\n".intercalate (lines program)

end Program

end KanaScript
