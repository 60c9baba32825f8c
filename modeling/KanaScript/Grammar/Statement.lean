import KanaScript.Grammar.Expression

/-! Statements.  No terminator is needed between statements; one after a statement is dropped.  Each
rule takes the rule for the statements nested in it as an argument. -/

namespace KanaScript.Grammar

/-- What follows the type and the name of a variable: brackets for an array, whose size is read and
dropped, and an initial value. -/
def variableRest (type name : String) (position : Position) (ts : List Token) :
    Reading (ts.length + 1) Variable :=
  (suffix ts).andThen fun suffix rest h =>
    match rest with
    | t :: more =>
      if t.isWord .operator "=" then
        (expression more).andThen fun init rest₂ h₂ =>
          .ok ⟨type ++ suffix, name, some init, position⟩ rest₂
            (by simp only [List.length_cons] at h; omega)
      else .ok ⟨type ++ suffix, name, none, position⟩ (t :: more) h
    | [] => .ok ⟨type ++ suffix, name, none, position⟩ [] h
where
  /-- The suffix that the brackets in front add to the type. -/
  suffix (ts : List Token) : Reading (ts.length + 1) String :=
    match ts with
    | t :: rest =>
      if t.kind = .openBracket then
        if startsWith .closeBracket rest then
          (expect .closeBracket .sizeClose rest).andThen fun _ rest₁ h₁ =>
            .ok arraySuffix rest₁ (by simp only [List.length_cons]; omega)
        else
          (expression rest).andThen fun _ rest₁ h₁ =>
            (expect .closeBracket .sizeClose rest₁).andThen fun _ rest₂ h₂ =>
              .ok arraySuffix rest₂ (by simp only [List.length_cons]; omega)
      else .ok "" (t :: rest) shorter_succ_cons
    | [] => .ok "" [] shorter_succ_nil

/-- The position of the token in front. -/
def here (ts : List Token) : Position :=
  match ts with
  | t :: _ => t.position
  | [] => .start

/-- A variable with its type in front. -/
def localVariable (ts : List Token) : Reading ts.length Variable :=
  (typeName .type ts).andThen fun type rest h =>
    (name rest).andThen fun name rest₁ h₁ =>
      (variableRest type name (here ts) rest₁).weaken (by omega)

variable {n : Nat}

/-- Statements up to a token that `stop` accepts, or up to the end. -/
def statements (nested : Rule n Stmt) (stop : Token → Bool) (ts : List Token)
    (h : ts.length < n) : Reading (ts.length + 1) (List Stmt) :=
  match ts with
  | [] => .ok [] [] shorter_succ_nil
  | t :: rest =>
    if stop t then .ok [] (t :: rest) shorter_succ_cons
    else
      (nested (t :: rest) h).terminated.andThen fun s rest₁ h₁ =>
        (statements nested stop rest₁ (lt_of_shorter h₁ h)).andThen fun ss rest₂ h₂ =>
          .ok (s :: ss) rest₂ (Nat.lt_of_lt_of_le h₂ (Nat.succ_le_succ (Nat.le_of_lt h₁)))
termination_by ts.length
decreasing_by exact h₁

/-- Statements in braces. -/
def block (nested : Rule n Stmt) : Rule (n + 1) Block
  | ts, h =>
    (expect .openBrace .blockOpen ts).andThen fun opening rest h₁ =>
      (statements nested (fun t => t.kind == .closeBrace) rest
          (Nat.lt_of_lt_of_le h₁ (Nat.le_of_lt_succ h))).andThen fun body rest₂ h₂ =>
        (expect .closeBrace .blockClose rest₂).andThen fun _ rest₃ h₃ =>
          .ok ⟨body, opening.position⟩ rest₃
            (Nat.lt_of_lt_of_le h₃ (Nat.le_trans (Nat.le_of_lt_succ h₂) (Nat.le_of_lt h₁)))

/-- A condition and a body, and perhaps an `else`.  After `else`, an `if` is read as part of the
chain. -/
def ifElse (nested : Rule n Stmt) (position : Position) (ts : List Token) (h : ts.length < n) :
    Reading ts.length Stmt :=
  (expression ts).andThen fun condition rest h₁ =>
    (nested rest (lt_of_shorter h₁ h)).terminated.andThen fun consequent rest₂ h₂ =>
      match rest₂ with
      | t :: more =>
        if t.isWord .controlKeyword "else" then
          have shorter : more.length < n :=
            Nat.lt_trans (Nat.lt_of_succ_lt h₂) (Nat.lt_trans h₁ h)
          let branch :=
            if startsWithControl "if" more then nested more shorter
            else (nested more shorter).terminated
          branch.andThen fun alternative rest₃ h₃ =>
            .ok (.ifElse condition consequent (some alternative) position) rest₃
              (Nat.lt_trans (Nat.lt_trans h₃ (Nat.lt_of_succ_lt h₂)) h₁)
        else .ok (.ifElse condition consequent none position) (t :: more) (shorter_trans h₂ h₁)
      | [] => .ok (.ifElse condition consequent none position) [] (shorter_trans h₂ h₁)

def whileLoop (nested : Rule n Stmt) (position : Position) (ts : List Token)
    (h : ts.length < n) : Reading ts.length Stmt :=
  (expression ts).andThen fun condition rest h₁ =>
    (nested rest (lt_of_shorter h₁ h)).terminated.andThen fun body rest₂ h₂ =>
      .ok (.whileLoop condition body position) rest₂ (shorter_trans h₂ h₁)

/-- The head of a `for`. -/
structure ForHead where
  init : Option ForInit
  condition : Option Expr
  update : Option Expr

/-- An expression, unless the clause is empty and its end is in front. -/
def optionalExpression (ending : TokenKind) (ts : List Token) :
    Reading (ts.length + 1) (Option Expr) :=
  if startsWith ending ts then .ok none ts shorter_succ
  else (expression ts).andThen fun e rest h => .ok (some e) rest (lt_succ_of_shorter h)

def forInit (ts : List Token) : Reading (ts.length + 1) (Option ForInit) :=
  if startsWith .comma ts then .ok none ts shorter_succ
  else if startsWith .typeKeyword ts then
    (localVariable ts).andThen fun v rest h => .ok (some (.declare v)) rest (lt_succ_of_shorter h)
  else
    (expression ts).andThen fun e rest h => .ok (some (.expression e)) rest (lt_succ_of_shorter h)

/-- The three clauses in parentheses, after the opening one. -/
def forClauses (ts : List Token) : Reading ts.length ForHead :=
  (forInit ts).andThen fun init rest h =>
    (expect .comma .forInitEnd rest).andThen fun _ rest₁ h₁ =>
      (optionalExpression .comma rest₁).andThen fun condition rest₂ h₂ =>
        (expect .comma .forConditionEnd rest₂).andThen fun _ rest₃ h₃ =>
          (optionalExpression .closeParen rest₃).andThen fun update rest₄ h₄ =>
            (expect .closeParen .forClose rest₄).andThen fun _ rest₅ h₅ =>
              .ok ⟨init, condition, update⟩ rest₅ (by omega)

/-- Three clauses in parentheses, or a condition alone. -/
def forHead (ts : List Token) : Reading ts.length ForHead :=
  if startsWith .openParen ts then
    (forClauses (ts.drop 1)).weaken (by simp only [List.length_drop]; omega)
  else
    (expression ts).andThen fun condition rest h => .ok ⟨none, some condition, none⟩ rest h

def forLoop (nested : Rule n Stmt) (position : Position) (ts : List Token) (h : ts.length < n) :
    Reading ts.length Stmt :=
  (forHead ts).andThen fun head rest h₁ =>
    (nested rest (lt_of_shorter h₁ h)).terminated.andThen fun body rest₂ h₂ =>
      .ok (.forLoop head.init head.condition head.update body position) rest₂
        (shorter_trans h₂ h₁)

/-- Whether `t` ends the statements of a clause. -/
def endsClause (t : Token) : Bool :=
  t.isWord .controlKeyword "case" || t.isWord .controlKeyword "default" || t.kind == .closeBrace

/-- The clauses of a `switch`, at most one of them a default, none if `seen` says that there was
one before. -/
def clauses (nested : Rule n Stmt) (seen : Bool) (ts : List Token) (h : ts.length < n) :
    Reading (ts.length + 1) (List Clause × Option (List Stmt)) :=
  match ts with
  | [] => .ok ([], none) [] shorter_succ_nil
  | t :: rest =>
    have inner : rest.length < n := Nat.lt_of_succ_lt h
    if t.isWord .controlKeyword "case" then
      (expression rest).andThen fun value rest₁ h₁ =>
        (expect .colon .caseEnd rest₁).andThen fun _ rest₂ h₂ =>
          (statements nested endsClause rest₂ (by omega)).andThen fun body rest₃ h₃ =>
            (clauses nested seen rest₃ (by omega)).andThen fun others rest₄ h₄ =>
              .ok (.case value body t.position :: others.1, others.2) rest₄
                (by simp only [List.length_cons]; omega)
    else if t.isWord .controlKeyword "default" then
      if seen then .failed .duplicateDefault (t :: rest)
      else
        (expect .colon .defaultEnd rest).andThen fun _ rest₁ h₁ =>
          (statements nested endsClause rest₁ (by omega)).andThen fun body rest₂ h₂ =>
            (clauses nested true rest₂ (by omega)).andThen fun others rest₃ h₃ =>
              .ok (others.1, some body) rest₃ (by simp only [List.length_cons]; omega)
    else .ok ([], none) (t :: rest) shorter_succ_cons
termination_by ts.length
decreasing_by all_goals simp only [List.length_cons]; omega

def switch (nested : Rule n Stmt) (position : Position) (ts : List Token) (h : ts.length < n) :
    Reading ts.length Stmt :=
  (expression ts).andThen fun subject rest h₁ =>
    (expect .openBrace .switchOpen rest).andThen fun _ rest₂ h₂ =>
      (clauses nested false rest₂ (by omega)).andThen fun found rest₃ h₃ =>
        (expect .closeBrace .switchClose rest₃).andThen fun _ rest₄ h₄ =>
          .ok (.switch subject found.1 found.2 position) rest₄ (by omega)

/-- Whether a `return` with `ts` after it has no value: the block or the input ends, or a terminator
or a keyword that is a type or control flow follows. -/
def returnsNothing (ts : List Token) : Bool :=
  match ts with
  | [] => true
  | t :: _ =>
    t.kind == .closeBrace || t.kind == .semicolon || t.kind == .controlKeyword ||
      t.kind == .typeKeyword

def returns (position : Position) (ts : List Token) : Reading (ts.length + 1) Stmt :=
  if returnsNothing ts then .ok (.returns none position) ts shorter_succ
  else
    (expression ts).andThen fun value rest h =>
      .ok (.returns (some value) position) rest (lt_succ_of_shorter h)

/-- An expression as a statement. -/
def expressionStatement (ts : List Token) : Reading ts.length Stmt :=
  (expression ts).andThen fun e rest h => .ok (.expression e (here ts)) rest h

/-- The statement that the token in front leads to, given the rule for the statements in it. -/
def statementWith (nested : Rule n Stmt) : Rule (n + 1) Stmt
  | [], _ => expressionStatement []
  | t :: rest, h =>
    have inner : rest.length < n := tail_lt h
    if t.kind = .openBrace then
      (block nested (t :: rest) h).andThen fun b rest₁ h₁ =>
        .ok (.block b.statements b.position) rest₁ h₁
    else if t.isWord .controlKeyword "if" then
      (ifElse nested t.position rest inner).weaken (Nat.le_succ _)
    else if t.isWord .controlKeyword "while" then
      (whileLoop nested t.position rest inner).weaken (Nat.le_succ _)
    else if t.isWord .controlKeyword "for" then
      (forLoop nested t.position rest inner).weaken (Nat.le_succ _)
    else if t.isWord .controlKeyword "switch" then
      (switch nested t.position rest inner).weaken (Nat.le_succ _)
    else if t.isWord .controlKeyword "return" then returns t.position rest
    else if t.isWord .controlKeyword "break" then
      .ok (.breaks t.position) rest shorter_tail
    else if t.isWord .controlKeyword "continue" then
      .ok (.continues t.position) rest shorter_tail
    else if t.kind = .typeKeyword then
      (localVariable (t :: rest)).andThen fun v rest₁ h₁ => .ok (.declare v) rest₁ h₁
    else expressionStatement (t :: rest)

/-- A statement without the terminator after it. -/
def bareStatement (ts : List Token) : Reading ts.length Stmt :=
  statementWith (fun nested _ => bareStatement nested) ts shorter_succ
termination_by ts.length

/-- A statement and the terminator after it. -/
def statement (ts : List Token) : Reading ts.length Stmt := (bareStatement ts).terminated

end KanaScript.Grammar
