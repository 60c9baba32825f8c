import KanaScript.Proofs.Grammar.ProgramPrediction

/-! The grammar as routines that move a cursor along the tokens.  A routine looks at the token under
the cursor, moves the cursor and calls other routines, in whatever order its code says; a loop is a
routine that calls itself last.  Nothing here says that a call ever returns. -/

namespace KanaScript.Grammar

/-- What a token is tested for.  No end token passes. -/
structure Test where
  accepts : Token → Prop
  decidable : DecidablePred accepts
  inner : ∀ t, accepts t → t.kind ≠ .eof

namespace Test

instance (test : Test) : DecidablePred test.accepts := test.decidable

def kind (k : TokenKind) (h : k ≠ .eof := by decide) : Test where
  accepts t := t.kind = k
  decidable _ := inferInstance
  inner _ ht := ht ▸ h

def word (k : TokenKind) (text : String) (h : k ≠ .eof := by decide) : Test where
  accepts t := t.isWord k text
  decidable _ := inferInstance
  inner _ ht := Action.isWord_kind ht ▸ h

def operator (ops : List String) : Test where
  accepts t := isOperator ops t
  decidable _ := inferInstance
  inner t ht := by
    rw [(isOperator_iff.mp ht).1]
    decide

def either (first second : Test) : Test where
  accepts t := first.accepts t ∨ second.accepts t
  decidable _ := inferInstance
  inner t ht := ht.elim (first.inner t) (second.inner t)

end Test

/-- What can be called, and the type of what a call returns. -/
inductive Routine : Type → Type
  | program : Routine Program
  | declaration : Routine Declaration
  | markedFunction : Routine Function
  | typedDeclaration (type : Token) : Routine Declaration
  | markedParameters : Routine (List Parameter)
  | openedParameters : Routine (List Parameter)
  | parameterList : Routine (List Parameter)
  | typedParameters (type : Token) : Routine (List Parameter)
  | openedBlock (opening : Token) : Routine Block
  | statements (stop : Token → Bool) : Routine (List Stmt)
  | statement : Routine Stmt
  | bareStatement : Routine Stmt
  | ifElse (position : Position) : Routine Stmt
  | whileLoop (position : Position) : Routine Stmt
  | forLoop (position : Position) : Routine Stmt
  | forClauses : Routine ForHead
  | switch (position : Position) : Routine Stmt
  | clauses (seen : Bool) : Routine (List Clause × Option (List Stmt))
  | returns (position : Position) : Routine Stmt
  | typedVariable (type : Token) : Routine Variable
  | variableRest (type name : String) (position : Position) : Routine Variable
  | expression : Routine Expr
  | binary (levels : List (List String)) : Routine Expr
  | chain (ops : List String) (tighter : List (List String)) (left : Expr) : Routine Expr
  | prefixed : Routine Expr
  | primary : Routine Expr
  | suffixes (e : Expr) : Routine Expr
  | arguments : Routine (List Expr)
  | expressionList : Routine (List Expr)

/-- What is left to do. -/
inductive Code (α : Type) : Type 1
  | halt (result : Except Problem α)
  /-- Looks at the token under the cursor. -/
  | look (next : Token → Code α)
  /-- Looks at the token after the one under the cursor, if there is one. -/
  | lookAhead (next : Option Token → Code α)
  /-- Moves the cursor to the next token, unless it is at an end token. -/
  | advance (next : Code α)
  /-- Calls a routine and goes on with what it returns. -/
  | enter {β : Type} (routine : Routine β) (next : β → Code α)

namespace Code

section Combinators

variable {α β γ : Type}

def bind : Code α → (α → Code β) → Code β
  | .halt (.ok value), next => next value
  | .halt (.error problem), _ => .halt (.error problem)
  | .look code, next => .look fun t => (code t).bind next
  | .lookAhead code, next => .lookAhead fun t => (code t).bind next
  | .advance code, next => .advance (code.bind next)
  | .enter routine code, next => .enter routine fun value => (code value).bind next

instance : Monad Code where
  pure value := .halt (.ok value)
  bind := bind

theorem bind_assoc (code : Code α) (first : α → Code β) (second : β → Code γ) :
    (code.bind first).bind second = code.bind fun value => (first value).bind second := by
  induction code with
  | halt result => cases result <;> rfl
  | look next ih => exact congrArg Code.look (funext ih)
  | lookAhead next ih => exact congrArg Code.lookAhead (funext ih)
  | advance next ih => exact congrArg Code.advance ih
  | enter routine next ih => exact congrArg (Code.enter routine) (funext ih)

def fail (problem : Problem) : Code α := .halt (.error problem)

def call (routine : Routine α) : Code α := .enter routine pure

def takeIf (test : Test) (taken : Token → Code α) (otherwise : Code α) : Code α :=
  .look fun t => if test.accepts t then .advance (taken t) else otherwise

def take (test : Test) (problem : Problem) (taken : Token → Code α) : Code α :=
  takeIf test taken (fail problem)

def refuse (test : Test) (problem : Problem) (otherwise : Code α) : Code α :=
  .look fun t => if test.accepts t then fail problem else otherwise

/-- Stops with `value` at a token that `stops` accepts. -/
def stopIf (stops : Token → Bool) (value : α) (otherwise : Code α) : Code α :=
  .look fun t => if stops t then pure value else otherwise

def expect (kind : TokenKind) (what : Expectation) (h : kind ≠ .eof := by decide) : Code Token :=
  take (.kind kind h) (.expected what) pure

def name : Code String :=
  take (.either (.kind .identifier) (.kind .otherKeyword)) (.expected .name) (pure ·.text)

def terminated (code : Code α) : Code α := do
  let value ← code
  takeIf (.kind .semicolon) (fun _ => pure ()) (pure ())
  return value

end Combinators

section Routines

/-! The parts of the bodies below, and the bodies. -/

def number (t : Token) : Code Expr :=
  match t.payload with
  | .number value => pure (.number value t.position)
  | _ => fail (.malformedNumber t)

def sizeSuffix : Code String :=
  takeIf (.kind .openBracket) (fun _ =>
    takeIf (.kind .closeBracket) (fun _ => pure arraySuffix) do
      let _ ← call .expression
      let _ ← expect .closeBracket .sizeClose
      return arraySuffix) (pure "")

def alternative : Code Stmt :=
  takeIf (.word .controlKeyword "if") (fun t => call (.ifElse t.position)) (call .statement)

def optionalExpression (ending : TokenKind) : Code (Option Expr) :=
  stopIf (·.kind == ending) none do
    let e ← call .expression
    return some e

def forInit : Code (Option ForInit) :=
  stopIf (·.kind == .comma) none <|
    takeIf (.kind .typeKeyword) (fun type => do
      let v ← call (.typedVariable type)
      return some (.declare v)) do
      let e ← call .expression
      return some (.expression e)

def forHead : Code ForHead :=
  takeIf (.kind .openParen) (fun _ => call .forClauses) do
    let condition ← call .expression
    return ⟨none, some condition, none⟩

def caseClause (seen : Bool) (label : Token) : Code (List Clause × Option (List Stmt)) := do
  let value ← call .expression
  let _ ← expect .colon .caseEnd
  let body ← call (.statements endsClause)
  let others ← call (.clauses seen)
  return (.case value body label.position :: others.1, others.2)

def defaultClause : Code (List Clause × Option (List Stmt)) := do
  let _ ← expect .colon .defaultEnd
  let body ← call (.statements endsClause)
  let others ← call (.clauses true)
  return (others.1, some body)

def lastClauses (seen : Bool) : Code (List Clause × Option (List Stmt)) :=
  if seen then refuse (.word .controlKeyword "default") .duplicateDefault (pure ([], none))
  else takeIf (.word .controlKeyword "default") (fun _ => defaultClause) (pure ([], none))

def expressionStatement : Code Stmt :=
  .look fun t => do
    let e ← call .expression
    return .expression e t.position

def block : Code Block :=
  take (.kind .openBrace) (.expected .blockOpen) fun opening => call (.openedBlock opening)

def parameter : Code Parameter :=
  take (.kind .typeKeyword) (.expected .parameterType) fun type => do
    let name ← name
    return ⟨type.text, name, type.position⟩

def bareParameters : Code (List Parameter) :=
  take (.kind .typeKeyword) (.expected .parameterType) fun type => call (.typedParameters type)

def closedParameters : Code (List Parameter) := do
  let ps ← call .parameterList
  let _ ← expect .closeParen .parametersClose
  return ps

/-- The word `void` is passed only with the closing parenthesis after it. -/
def voidOrParameters : Code (List Parameter) :=
  .look fun t =>
    if t.isWord .typeKeyword "void" then
      .lookAhead fun u =>
        if u.any (·.kind == .closeParen) then .advance (.advance (pure [])) else closedParameters
    else closedParameters

/-- What a routine does when it is called. -/
def body : {α : Type} → Routine α → Code α
  | _, .program =>
    stopIf (·.kind == .eof) [] do
      let d ← call .declaration
      let others ← call .program
      return d :: others
  | _, .declaration =>
    takeIf (.word .otherKeyword Vocabulary.functionMarker) (fun _ => do
      let f ← terminated (call .markedFunction)
      return .function f) <|
    takeIf (.kind .typeKeyword) (fun type => terminated (call (.typedDeclaration type))) do
      let s ← call .statement
      return .statement s
  | _, .markedFunction =>
    take (.kind .typeKeyword) (.expected .returnType) fun type => do
      let name ← name
      let parameters ← call .markedParameters
      let body ← block
      return ⟨type.text, name, parameters, body, type.position⟩
  | _, .typedDeclaration type => do
    let name ← name
    takeIf (.kind .openParen) (fun _ => do
      let parameters ← call .openedParameters
      let body ← block
      return .function ⟨type.text, name, parameters, body, type.position⟩) do
      let v ← call (.variableRest type.text name type.position)
      return .global v
  | _, .markedParameters =>
    takeIf (.kind .openParen) (fun _ => call .openedParameters) <|
    takeIf (.word .typeKeyword "void") (fun _ => pure []) <|
    takeIf (.kind .typeKeyword) (fun type => call (.typedParameters type)) (pure [])
  | _, .openedParameters =>
    takeIf (.kind .closeParen) (fun _ => pure []) voidOrParameters
  | _, .parameterList => do
    let p ← parameter
    takeIf (.kind .comma) (fun _ => do
      let ps ← call .parameterList
      return p :: ps) (pure [p])
  | _, .typedParameters type =>
    stopIf (·.kind == .openBrace) [] do
      let name ← name
      takeIf (.kind .comma) (fun _ => do
        let ps ← bareParameters
        return ⟨type.text, name, type.position⟩ :: ps) (pure [⟨type.text, name, type.position⟩])
  | _, .openedBlock opening => do
    let body ← call (.statements fun t => t.kind == .closeBrace)
    let _ ← expect .closeBrace .blockClose
    return ⟨body, opening.position⟩
  | _, .statements stop =>
    stopIf (fun t => t.kind == .eof || stop t) [] do
      let s ← call .statement
      let ss ← call (.statements stop)
      return s :: ss
  | _, .statement => terminated (call .bareStatement)
  | _, .bareStatement =>
    takeIf (.kind .openBrace) (fun opening => do
      let b ← call (.openedBlock opening)
      return .block b.statements b.position) <|
    takeIf (.word .controlKeyword "if") (fun t => call (.ifElse t.position)) <|
    takeIf (.word .controlKeyword "while") (fun t => call (.whileLoop t.position)) <|
    takeIf (.word .controlKeyword "for") (fun t => call (.forLoop t.position)) <|
    takeIf (.word .controlKeyword "switch") (fun t => call (.switch t.position)) <|
    takeIf (.word .controlKeyword "return") (fun t => call (.returns t.position)) <|
    takeIf (.word .controlKeyword "break") (fun t => pure (.breaks t.position)) <|
    takeIf (.word .controlKeyword "continue") (fun t => pure (.continues t.position)) <|
    takeIf (.kind .typeKeyword) (fun type => do
      let v ← call (.typedVariable type)
      return .declare v)
    expressionStatement
  | _, .ifElse position => do
    let condition ← call .expression
    let consequent ← call .statement
    takeIf (.word .controlKeyword "else") (fun _ => do
      let alternative ← alternative
      return .ifElse condition consequent (some alternative) position)
      (pure (.ifElse condition consequent none position))
  | _, .whileLoop position => do
    let condition ← call .expression
    let body ← call .statement
    return .whileLoop condition body position
  | _, .forLoop position => do
    let head ← forHead
    let body ← call .statement
    return .forLoop head.init head.condition head.update body position
  | _, .forClauses => do
    let init ← forInit
    let _ ← expect .comma .forInitEnd
    let condition ← optionalExpression .comma
    let _ ← expect .comma .forConditionEnd
    let update ← optionalExpression .closeParen
    let _ ← expect .closeParen .forClose
    return ⟨init, condition, update⟩
  | _, .switch position => do
    let subject ← call .expression
    let _ ← expect .openBrace .switchOpen
    let found ← call (.clauses false)
    let _ ← expect .closeBrace .switchClose
    return .switch subject found.1 found.2 position
  | _, .clauses seen =>
    takeIf (.word .controlKeyword "case") (caseClause seen) (lastClauses seen)
  | _, .returns position =>
    stopIf (fun t => t.kind == .eof || Action.endsReturn t) (.returns none position) do
      let value ← call .expression
      return .returns (some value) position
  | _, .typedVariable type => do
    let name ← name
    call (.variableRest type.text name type.position)
  | _, .variableRest type name position => do
    let suffix ← sizeSuffix
    takeIf (.word .operator "=") (fun _ => do
      let init ← call .expression
      return ⟨type ++ suffix, name, some init, position⟩)
      (pure ⟨type ++ suffix, name, none, position⟩)
  | _, .expression => do
    let target ← call (.binary binaryLevels)
    takeIf (.word .operator "=") (fun _ => do
      let value ← call .expression
      return .assign target value target.position) (pure target)
  | _, .binary [] => call .prefixed
  | _, .binary (ops :: tighter) => do
    let left ← call (.binary tighter)
    call (.chain ops tighter left)
  | _, .chain ops tighter left =>
    takeIf (.operator ops) (fun t => do
      let right ← call (.binary tighter)
      call (.chain ops tighter (.binary t.text left right left.position))) (pure left)
  | _, .prefixed =>
    takeIf (.operator prefixOperators) (fun t => do
      let e ← call .prefixed
      return .prefixed t.text e t.position) do
      let e ← call .primary
      call (.suffixes e)
  | _, .primary =>
    takeIf (.kind .number) number <|
    takeIf (.kind .stringLiteral) (fun t => pure (.string t.text t.position)) <|
    takeIf (.kind .charLiteral) (fun t => pure (.char t.text t.position)) <|
    takeIf (.kind .openParen) (fun _ => do
      let e ← call .expression
      let _ ← expect .closeParen .groupClose
      return e) <|
    take (.either (.kind .identifier) (.either (.kind .otherKeyword) (.kind .controlKeyword)))
      .unexpectedToken fun t => pure (.name t.text t.position)
  | _, .suffixes e =>
    takeIf (.kind .openParen) (fun _ => do
      let es ← call .arguments
      call (.suffixes (.call e es e.position))) <|
    takeIf (.kind .openBracket) (fun _ => do
      let index ← call .expression
      let _ ← expect .closeBracket .indexClose
      call (.suffixes (.index e index e.position))) <|
    takeIf (.operator suffixOperators) (fun t => call (.suffixes (.suffixed t.text e e.position)))
      (pure e)
  | _, .arguments =>
    takeIf (.kind .closeParen) (fun _ => pure []) do
      let es ← call .expressionList
      let _ ← expect .closeParen .argumentsClose
      return es
  | _, .expressionList => do
    let e ← call .expression
    takeIf (.kind .comma) (fun _ => do
      let es ← call .expressionList
      return e :: es) (pure [e])

end Routines

end Code

end KanaScript.Grammar
