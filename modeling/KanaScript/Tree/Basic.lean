import KanaScript.Token.Basic

/-! The tree of a program.  Every node keeps the position at which it starts. -/

namespace KanaScript

inductive Expr
  | binary (op : String) (left right : Expr) (position : Position)
  /-- An operator before its operand. -/
  | prefixed (op : String) (operand : Expr) (position : Position)
  /-- An operator after its operand. -/
  | suffixed (op : String) (operand : Expr) (position : Position)
  | assign (target value : Expr) (position : Position)
  | call (callee : Expr) (arguments : List Expr) (position : Position)
  | index (array index : Expr) (position : Position)
  | name (text : String) (position : Position)
  | number (value : Number) (position : Position)
  | string (text : String) (position : Position)
  /-- A character literal; the empty text stands for the null character. -/
  | char (text : String) (position : Position)

def Expr.position : Expr → Position
  | binary _ _ _ position => position
  | prefixed _ _ position => position
  | suffixed _ _ position => position
  | assign _ _ position => position
  | call _ _ position => position
  | index _ _ position => position
  | name _ position => position
  | number _ position => position
  | string _ position => position
  | char _ position => position

/-- What follows the element type in the type of an array. -/
def arraySuffix : String := "[]"

structure Variable where
  /-- The C type, with `arraySuffix` for an array. -/
  typeName : String
  name : String
  init : Option Expr
  position : Position

/-- The element type of an array, `none` for a variable that is none. -/
def Variable.elementType? (v : Variable) : Option String :=
  let type := v.typeName.toList
  if arraySuffix.toList.isSuffixOf type then
    some (String.ofList (type.take (type.length - arraySuffix.length)))
  else none

/-- The first clause of a `for` in parentheses. -/
inductive ForInit
  | declare (v : Variable)
  | expression (e : Expr)

mutual

inductive Stmt
  | block (statements : List Stmt) (position : Position)
  | declare (v : Variable)
  | ifElse (condition : Expr) (consequent : Stmt) (alternative : Option Stmt)
      (position : Position)
  | whileLoop (condition : Expr) (body : Stmt) (position : Position)
  | forLoop (init : Option ForInit) (condition update : Option Expr) (body : Stmt)
      (position : Position)
  | switch (subject : Expr) (cases : List Clause) (fallback : Option (List Stmt))
      (position : Position)
  | returns (value : Option Expr) (position : Position)
  | breaks (position : Position)
  | continues (position : Position)
  | expression (e : Expr) (position : Position)

/-- A labelled clause of a `switch`. -/
inductive Clause
  | case (value : Expr) (statements : List Stmt) (position : Position)

end

def Stmt.position : Stmt → Position
  | block _ position => position
  | declare v => v.position
  | ifElse _ _ _ position => position
  | whileLoop _ _ position => position
  | forLoop _ _ _ _ position => position
  | switch _ _ _ position => position
  | returns _ position => position
  | breaks position => position
  | continues position => position
  | expression _ position => position

structure Block where
  statements : List Stmt
  position : Position

structure Parameter where
  typeName : String
  name : String
  position : Position

structure Function where
  returnType : String
  name : String
  parameters : List Parameter
  body : Block
  position : Position

/-- What may stand at the top level of a program. -/
inductive Declaration
  | function (f : Function)
  | global (v : Variable)
  | statement (s : Stmt)

def Declaration.position : Declaration → Position
  | function f => f.position
  | global v => v.position
  | statement s => s.position

abbrev Program := List Declaration

end KanaScript
