import KanaScript.C.Literal
import KanaScript.C.Name
import KanaScript.Tree.Basic

/-! The C text of expressions.  Every binary expression has its own parentheses, and no other
expression gets any. -/

namespace KanaScript

namespace C

/-- The functions whose first argument is a format that ends its line. -/
def printFunctions : List String := ["printf", "ジョウジ"]

def isPrint : Expr → Bool
  | .name text _ => printFunctions.contains text
  | _ => false

/-- A format with a line feed at its end, unless it already ends in one, be it the character or its
escape. -/
def withLineFeed (format : String) : String :=
  let cs := format.toList
  if ['\n'].isSuffixOf cs || ['\\', 'n'].isSuffixOf cs then format else format ++ "\n"

/-- The text of a string literal that is the format of a print call. -/
def formatCode? (print : Bool) : Expr → Option String
  | .string text _ => if print then some (stringLiteral (withLineFeed text)) else none
  | _ => none

end C

mutual

def Expr.code : Expr → String
  | .binary op left right _ => "(" ++ left.code ++ " " ++ op ++ " " ++ right.code ++ ")"
  | .prefixed op operand _ => op ++ operand.code
  | .suffixed op operand _ => operand.code ++ op
  | .assign target value _ => target.code ++ " = " ++ value.code
  | .call callee arguments _ =>
    callee.code ++ "(" ++ ", ".intercalate (argumentCodes (C.isPrint callee) arguments) ++ ")"
  | .index array index _ => array.code ++ "[" ++ index.code ++ "]"
  | .name text _ => C.identifier text
  | .number value _ => value.text
  | .string text _ => C.stringLiteral text
  | .char text _ => C.charLiteral text

/-- The texts of arguments, the first of which is a format if `print` says so. -/
def argumentCodes (print : Bool) : List Expr → List String
  | [] => []
  | e :: es => (C.formatCode? print e).getD e.code :: argumentCodes false es

end

end KanaScript
