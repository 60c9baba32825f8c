import KanaScript.Tree.Basic

/-! The listing of a tree: one line for each node, two spaces in front for each level below the
program. -/

namespace KanaScript

/-- A line of a listing. -/
def listingLine (depth : Nat) (label : String) : String := "".pushn ' ' (2 * depth) ++ label

mutual

def Expr.listing (depth : Nat) : Expr → List String
  | .binary op left right _ =>
    listingLine depth ("BinaryExpr: " ++ op) ::
      (left.listing (depth + 1) ++ right.listing (depth + 1))
  | .prefixed op operand _ =>
    listingLine depth ("UnaryExpr: " ++ op ++ " (prefix=true)") :: operand.listing (depth + 1)
  | .suffixed op operand _ =>
    listingLine depth ("UnaryExpr: " ++ op ++ " (prefix=false)") :: operand.listing (depth + 1)
  | .assign target value _ =>
    listingLine depth "AssignExpr" :: (target.listing (depth + 1) ++ value.listing (depth + 1))
  | .call callee arguments _ =>
    listingLine depth "CallExpr" ::
      (callee.listing (depth + 1) ++ listExpressions (depth + 1) arguments)
  | .index array index _ =>
    listingLine depth "IndexExpr" :: (array.listing (depth + 1) ++ index.listing (depth + 1))
  | .name text _ => [listingLine depth ("Identifier: " ++ text)]
  | .number value _ => [listingLine depth ("NumberLiteral: " ++ value.text)]
  | .string text _ => [listingLine depth ("StringLiteral: " ++ Text.quote text)]
  | .char text _ => [listingLine depth ("CharLiteral: " ++ Text.quote text)]

def listExpressions (depth : Nat) : List Expr → List String
  | [] => []
  | e :: es => e.listing depth ++ listExpressions depth es

end

/-- The listing of an expression that may be missing. -/
def listOptional (depth : Nat) (e : Option Expr) : List String :=
  (e.map (Expr.listing depth)).getD []

def Variable.listing (depth : Nat) (v : Variable) : List String :=
  listingLine depth ("VarDecl: " ++ v.typeName ++ " " ++ v.name) ::
    listOptional (depth + 1) v.init

def ForInit.listing (depth : Nat) : ForInit → List String
  | declare v => v.listing depth
  | expression e => e.listing depth

mutual

def Stmt.listing (depth : Nat) : Stmt → List String
  | .block statements _ =>
    listingLine depth "BlockStmt" :: listStatements (depth + 1) statements
  | .declare v => v.listing depth
  | .ifElse condition consequent none _ =>
    listingLine depth "IfStmt" ::
      (condition.listing (depth + 1) ++ consequent.listing (depth + 1))
  | .ifElse condition consequent (some alternative) _ =>
    listingLine depth "IfStmt" ::
      (condition.listing (depth + 1) ++ consequent.listing (depth + 1) ++
        alternative.listing (depth + 1))
  | .whileLoop condition body _ =>
    listingLine depth "WhileStmt" :: (condition.listing (depth + 1) ++ body.listing (depth + 1))
  | .forLoop init condition update body _ =>
    listingLine depth "ForStmt" ::
      ((init.map (ForInit.listing (depth + 1))).getD [] ++ listOptional (depth + 1) condition ++
        listOptional (depth + 1) update ++ body.listing (depth + 1))
  | .switch subject cases none _ =>
    listingLine depth "SwitchStmt" ::
      (subject.listing (depth + 1) ++ listClauses (depth + 1) cases)
  | .switch subject cases (some fallback) _ =>
    listingLine depth "SwitchStmt" ::
      (subject.listing (depth + 1) ++ listClauses (depth + 1) cases ++
        listingLine (depth + 1) "DefaultClause" :: listStatements (depth + 2) fallback)
  | .returns value _ => listingLine depth "ReturnStmt" :: listOptional (depth + 1) value
  | .breaks _ => [listingLine depth "BreakStmt"]
  | .continues _ => [listingLine depth "ContinueStmt"]
  | .expression e _ => listingLine depth "ExprStmt" :: e.listing (depth + 1)

def listStatements (depth : Nat) : List Stmt → List String
  | [] => []
  | s :: ss => s.listing depth ++ listStatements depth ss

def listClauses (depth : Nat) : List Clause → List String
  | [] => []
  | .case value statements _ :: others =>
    listingLine depth "CaseClause" ::
      (value.listing (depth + 1) ++ listStatements (depth + 1) statements ++
        listClauses depth others)

end

def Function.listing (depth : Nat) (f : Function) : List String :=
  listingLine depth ("FunctionDecl: " ++ f.returnType ++ " " ++ f.name) ::
    (f.parameters.map (fun p =>
        listingLine (depth + 1) ("Parameter: " ++ p.typeName ++ " " ++ p.name)) ++
      listingLine (depth + 1) "BlockStmt" :: listStatements (depth + 2) f.body.statements)

def Declaration.listing (depth : Nat) : Declaration → List String
  | function f => f.listing depth
  | global v => v.listing depth
  | statement s => s.listing depth

namespace Program

/-- The lines of a program's listing. -/
def listing (program : Program) : List String :=
  listingLine 0 "Program" :: program.flatMap (Declaration.listing 1)

/-- The listing as one text, each line ended by a line feed. -/
def listingText (program : Program) : String :=
  String.join (listing program |>.map (· ++ "\n"))

end Program

end KanaScript
