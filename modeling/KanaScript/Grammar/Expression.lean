import KanaScript.Grammar.Reading
import KanaScript.Tree.Basic

/-! Expressions, from the loosest binding to the tightest: assignment, which associates to the right;
six levels of binary operators, which associate to the left; operators before an operand; calls,
indexing and operators after an operand; names, literals and groups in parentheses.  Each rule takes
the rule for the expressions nested in it as an argument. -/

namespace KanaScript.Grammar

/-- The binary operators, a tighter level after a looser one. -/
def binaryLevels : List (List String) :=
  [["||"], ["&&"], ["==", "!="], ["<", ">", "<=", ">="], ["+", "-"], ["*", "/", "%"]]

def prefixOperators : List String := ["!", "-", "++", "--"]

def suffixOperators : List String := ["++", "--"]

variable {n : Nat}

/-- A literal, a name, or an expression in parentheses.  A keyword that is no type stands for a
name. -/
def primary (nested : Rule n Expr) : Rule (n + 1) Expr
  | [], _ => .failed .unexpectedToken []
  | t :: rest, h =>
    match t.kind with
    | .number =>
      match t.payload with
      | .number value => .ok (.number value t.position) rest shorter_tail
      | _ => .failed (.malformedNumber t) rest
    | .stringLiteral => .ok (.string t.text t.position) rest shorter_tail
    | .charLiteral => .ok (.char t.text t.position) rest shorter_tail
    | .identifier => .ok (.name t.text t.position) rest shorter_tail
    | .otherKeyword => .ok (.name t.text t.position) rest shorter_tail
    | .controlKeyword => .ok (.name t.text t.position) rest shorter_tail
    | .openParen =>
      (nested rest (tail_lt h)).andThen fun e rest₁ h₁ =>
        (expect .closeParen .groupClose rest₁).andThen fun _ rest₂ h₂ =>
          .ok e rest₂ (by simp only [List.length_cons]; omega)
    | _ => .failed .unexpectedToken (t :: rest)

/-- Expressions with commas between them. -/
def expressionList (nested : Rule n Expr) (ts : List Token) (h : ts.length < n) :
    Reading ts.length (List Expr) :=
  (nested ts h).andThen fun e rest h₁ =>
    match rest with
    | t :: more =>
      if t.kind = .comma then
        (expressionList nested more (by simp only [List.length_cons] at h₁; omega)).andThen
          fun es rest₂ h₂ => .ok (e :: es) rest₂ (by simp only [List.length_cons] at h₁; omega)
      else .ok [e] (t :: more) h₁
    | [] => .ok [e] [] h₁
termination_by ts.length
decreasing_by simp only [List.length_cons] at h₁; omega

/-- The arguments of a call, after its opening parenthesis. -/
def arguments (nested : Rule n Expr) : Rule n (List Expr)
  | ts, h =>
    if startsWith .closeParen ts then
      (expect .closeParen .argumentsClose ts).andThen fun _ rest h₁ => .ok [] rest h₁
    else
      (expressionList nested ts h).andThen fun es rest h₁ =>
        (expect .closeParen .argumentsClose rest).andThen fun _ rest₂ h₂ =>
          .ok es rest₂ (shorter_trans h₂ h₁)

/-- Calls, indexing and operators after the operand `e`. -/
def suffixes (nested : Rule n Expr) (e : Expr) (ts : List Token) (h : ts.length < n + 1) :
    Reading (ts.length + 1) Expr :=
  match ts with
  | [] => .ok e [] shorter_succ_nil
  | t :: rest =>
    have inner : rest.length < n := tail_lt h
    if t.kind = .openParen then
      (arguments nested rest inner).andThen fun es rest₁ h₁ =>
        (suffixes nested (.call e es e.position) rest₁ (by omega)).weaken
          (by simp only [List.length_cons]; omega)
    else if t.kind = .openBracket then
      (nested rest inner).andThen fun index rest₁ h₁ =>
        (expect .closeBracket .indexClose rest₁).andThen fun _ rest₂ h₂ =>
          (suffixes nested (.index e index e.position) rest₂ (by omega)).weaken
            (by simp only [List.length_cons]; omega)
    else if isOperator suffixOperators t then
      (suffixes nested (.suffixed t.text e e.position) rest (by omega)).weaken
        (by simp only [List.length_cons]; omega)
    else .ok e (t :: rest) shorter_succ_cons
termination_by ts.length
decreasing_by all_goals simp only [List.length_cons]; omega

/-- An operand with the operators before and after it. -/
def prefixed (nested : Rule n Expr) : Rule (n + 1) Expr
  | [], h => primary nested [] h
  | t :: rest, h =>
    if isOperator prefixOperators t then
      (prefixed nested rest (Nat.lt_of_succ_lt h)).andThen fun e rest₁ h₁ =>
        .ok (.prefixed t.text e t.position) rest₁ (lt_succ_of_shorter h₁)
    else
      (primary nested (t :: rest) h).andThen fun e rest₁ h₁ =>
        (suffixes nested e rest₁ (lt_of_shorter h₁ h)).weaken h₁

/-- The operators `ops` with their right operands, after the operand `left`. -/
def chain (operand : Rule n Expr) (ops : List String) (left : Expr) (ts : List Token)
    (h : ts.length < n) : Reading (ts.length + 1) Expr :=
  match ts with
  | [] => .ok left [] shorter_succ_nil
  | t :: rest =>
    if isOperator ops t then
      (operand rest (Nat.lt_of_succ_lt h)).andThen fun right rest₁ h₁ =>
        (chain operand ops (.binary t.text left right left.position) rest₁
            (Nat.lt_trans h₁ (Nat.lt_of_succ_lt h))).weaken
          (by simp only [List.length_cons]; omega)
    else .ok left (t :: rest) shorter_succ_cons
termination_by ts.length
decreasing_by simp only [List.length_cons]; omega

/-- Operands joined by the operators of `levels`. -/
def binary (operand : Rule n Expr) : List (List String) → Rule n Expr
  | [] => operand
  | ops :: tighter => fun ts h =>
    (binary operand tighter ts h).andThen fun left rest h₁ =>
      (chain (binary operand tighter) ops left rest (lt_of_shorter h₁ h)).weaken h₁

/-- An expression, perhaps assigned to.  Any expression may be the target. -/
def assignment (nested : Rule n Expr) : Rule (n + 1) Expr
  | ts, h =>
    (binary (fun us h => prefixed nested us h) binaryLevels ts h).andThen fun target rest h₁ =>
      match rest with
      | t :: more =>
        if t.isWord .operator "=" then
          (nested more (by simp only [List.length_cons] at h₁; omega)).andThen fun value rest₂ h₂ =>
            .ok (.assign target value target.position) rest₂
              (by simp only [List.length_cons] at h₁; omega)
        else .ok target (t :: more) h₁
      | [] => .ok target [] h₁

def expression (ts : List Token) : Reading ts.length Expr :=
  assignment (fun nested _ => expression nested) ts shorter_succ
termination_by ts.length

end KanaScript.Grammar
