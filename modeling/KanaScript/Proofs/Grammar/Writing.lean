import KanaScript.Proofs.C.ProgramOutline

/-! Programs written as words, which are tokens without their place.  An operand that is itself made
of operands stands in parentheses, a `for` has its three clauses, the cases of a `switch` stand
before its default, and a terminator follows each statement. -/

namespace KanaScript

/-- What a token is, without its place. -/
structure Word where
  kind : TokenKind
  payload : Payload
deriving DecidableEq

def Token.word (t : Token) : Word := ⟨t.kind, t.payload⟩

namespace Word

def mark (kind : TokenKind) (text : String) : Word := ⟨kind, .text text⟩

def operator (op : String) : Word := mark .operator op

def control (keyword : String) : Word := mark .controlKeyword keyword

def type (spelling : String) : Word := mark .typeKeyword spelling

def identifier (name : String) : Word := mark .identifier name

def openParen : Word := mark .openParen "("

def closeParen : Word := mark .closeParen ")"

def openBracket : Word := mark .openBracket "["

def closeBracket : Word := mark .closeBracket "]"

def openBrace : Word := mark .openBrace "\x7b"

def closeBrace : Word := mark .closeBrace "\x7d"

def comma : Word := mark .comma ","

def colon : Word := mark .colon ":"

def semicolon : Word := mark .semicolon ";"

end Word

/-- Whether an expression has parts, so that it needs parentheses as an operand. -/
def Expr.isComposite : Expr → Bool
  | .name .. | .number .. | .string .. | .char .. => false
  | _ => true

/-- The words of an operand, given its words outside of parentheses. -/
def operandWords (e : Expr) (words : List Word) : List Word :=
  if e.isComposite then .openParen :: (words ++ [.closeParen]) else words

mutual

def Expr.words : Expr → List Word
  | .binary op left right _ =>
    operandWords left left.words ++ .operator op :: operandWords right right.words
  | .prefixed op operand _ => .operator op :: operandWords operand operand.words
  | .suffixed op operand _ => operandWords operand operand.words ++ [.operator op]
  | .assign target value _ =>
    operandWords target target.words ++ .operator "=" :: operandWords value value.words
  | .call callee arguments _ =>
    operandWords callee callee.words ++ .openParen :: (argumentWords arguments ++ [.closeParen])
  | .index array index _ =>
    operandWords array array.words ++ .openBracket :: (index.words ++ [.closeBracket])
  | .name text _ => [.identifier text]
  | .number value _ => [⟨.number, .number value⟩]
  | .string text _ => [.mark .stringLiteral text]
  | .char text _ => [.mark .charLiteral text]

def argumentWords : List Expr → List Word
  | [] => []
  | [e] => e.words
  | e :: e' :: es => e.words ++ .comma :: argumentWords (e' :: es)

end

def optionalWords (e : Option Expr) : List Word := (e.map Expr.words).getD []

/-- The brackets after the name of an array. -/
def Variable.brackets (v : Variable) : List Word :=
  if v.elementType?.isSome then [.openBracket, .closeBracket] else []

def initWords : Option Expr → List Word
  | none => []
  | some e => .operator "=" :: e.words

def Variable.words (v : Variable) : List Word :=
  .type (v.elementType?.getD v.typeName) :: .identifier v.name :: (v.brackets ++ initWords v.init)

def ForInit.words : ForInit → List Word
  | declare v => v.words
  | expression e => e.words

/-- The terminator after a braced body, which may be left out.  An `if` after `else` is no body. -/
def bodyEnd (closed : Bool) : Stmt → List Word
  | .ifElse .. => []
  | _ => if closed then [.semicolon] else []

section Statements

/-! With `closed`, a terminator follows each braced body too. -/

variable (closed : Bool)

mutual

def Stmt.words : Stmt → List Word
  | .block statements _ => .openBrace :: (statementWords statements ++ [.closeBrace])
  | .declare v => v.words
  | .ifElse condition consequent none _ =>
    .control "if" :: (condition.words ++ (consequent.words ++ bodyEnd closed consequent))
  | .ifElse condition consequent (some alternative) _ =>
    .control "if" :: (condition.words ++ (consequent.words ++ bodyEnd closed consequent ++
      .control "else" :: (alternative.words ++ bodyEnd closed alternative)))
  | .whileLoop condition body _ =>
    .control "while" :: (condition.words ++ (body.words ++ bodyEnd closed body))
  | .forLoop init condition update body _ =>
    .control "for" :: .openParen :: ((init.map ForInit.words).getD [] ++ .comma ::
      (optionalWords condition ++ .comma :: (optionalWords update ++ .closeParen ::
        (body.words ++ bodyEnd closed body))))
  | .switch subject cases none _ =>
    .control "switch" :: (subject.words ++ .openBrace :: (clauseWords cases ++ [.closeBrace]))
  | .switch subject cases (some fallback) _ =>
    .control "switch" :: (subject.words ++ .openBrace :: (clauseWords cases ++
      .control "default" :: .colon :: (statementWords fallback ++ [.closeBrace])))
  | .returns value _ => .control "return" :: optionalWords value
  | .breaks _ => [.control "break"]
  | .continues _ => [.control "continue"]
  | .expression e _ => e.words

def statementWords : List Stmt → List Word
  | [] => []
  | s :: ss => s.words ++ .semicolon :: statementWords ss

def clauseWords : List Clause → List Word
  | [] => []
  | .case value statements _ :: others =>
    .control "case" :: (value.words ++ .colon :: (statementWords statements ++ clauseWords others))

end

def parameterWords : List Parameter → List Word
  | [] => []
  | [p] => [.type p.typeName, .identifier p.name]
  | p :: p' :: ps => .type p.typeName :: .identifier p.name :: .comma :: parameterWords (p' :: ps)

/-- A function has its marker in front and its parameters in parentheses. -/
def Function.words (f : Function) : List Word :=
  .mark .otherKeyword Vocabulary.functionMarker :: .type f.returnType :: .identifier f.name ::
    .openParen :: (parameterWords f.parameters ++ .closeParen ::
      ((Stmt.block f.body.statements f.body.position).words closed ++
        if closed then [.semicolon] else []))

def Declaration.words : Declaration → List Word
  | function f => f.words closed
  | global v => v.words ++ [.semicolon]
  | statement s => s.words closed ++ [.semicolon]

def Program.words (program : Program) : List Word :=
  List.flatMap (Declaration.words closed) program

end Statements

def Stmt.isBlock : Stmt → Bool
  | .block .. => true
  | _ => false

theorem Stmt.exists_block {s : Stmt} (h : s.isBlock = true) :
    ∃ ss position, s = .block ss position := by
  cases s with
  | block ss position => exact ⟨ss, position, rfl⟩
  | _ => cases h

/-- Whether the bodies right below a statement are blocks; an `if` may follow an `else`. -/
def Stmt.hasBracedBodies : Stmt → Bool
  | .ifElse _ consequent alternative _ =>
    consequent.isBlock && alternative.all fun s => s.isBlock || s.isIf
  | .whileLoop _ body _ => body.isBlock
  | .forLoop _ _ _ body _ => body.isBlock
  | _ => true

/-- A variable is declared at the top level as such, and not as a statement. -/
def Declaration.isLocal : Declaration → Bool
  | statement (.declare _) => true
  | _ => false

section Unplaced

mutual

/-- An expression with all places forgotten. -/
def Expr.unplaced : Expr → Expr
  | .binary op left right _ => .binary op left.unplaced right.unplaced .start
  | .prefixed op operand _ => .prefixed op operand.unplaced .start
  | .suffixed op operand _ => .suffixed op operand.unplaced .start
  | .assign target value _ => .assign target.unplaced value.unplaced .start
  | .call callee arguments _ => .call callee.unplaced (unplacedArguments arguments) .start
  | .index array index _ => .index array.unplaced index.unplaced .start
  | .name text _ => .name text .start
  | .number value _ => .number value .start
  | .string text _ => .string text .start
  | .char text _ => .char text .start

def unplacedArguments : List Expr → List Expr
  | [] => []
  | e :: es => e.unplaced :: unplacedArguments es

end

def Variable.unplaced (v : Variable) : Variable :=
  ⟨v.typeName, v.name, v.init.map Expr.unplaced, .start⟩

def ForInit.unplaced : ForInit → ForInit
  | declare v => .declare v.unplaced
  | expression e => .expression e.unplaced

mutual

def Stmt.unplaced : Stmt → Stmt
  | .block statements _ => .block (unplacedStatements statements) .start
  | .declare v => .declare v.unplaced
  | .ifElse condition consequent none _ =>
    .ifElse condition.unplaced consequent.unplaced none .start
  | .ifElse condition consequent (some alternative) _ =>
    .ifElse condition.unplaced consequent.unplaced (some alternative.unplaced) .start
  | .whileLoop condition body _ => .whileLoop condition.unplaced body.unplaced .start
  | .forLoop init condition update body _ =>
    .forLoop (init.map ForInit.unplaced) (condition.map Expr.unplaced) (update.map Expr.unplaced)
      body.unplaced .start
  | .switch subject cases none _ => .switch subject.unplaced (unplacedClauses cases) none .start
  | .switch subject cases (some fallback) _ =>
    .switch subject.unplaced (unplacedClauses cases) (some (unplacedStatements fallback)) .start
  | .returns value _ => .returns (value.map Expr.unplaced) .start
  | .breaks _ => .breaks .start
  | .continues _ => .continues .start
  | .expression e _ => .expression e.unplaced .start

def unplacedStatements : List Stmt → List Stmt
  | [] => []
  | s :: ss => s.unplaced :: unplacedStatements ss

def unplacedClauses : List Clause → List Clause
  | [] => []
  | .case value statements _ :: others =>
    .case value.unplaced (unplacedStatements statements) .start :: unplacedClauses others

end

def Parameter.unplaced (p : Parameter) : Parameter := { p with position := .start }

def Function.unplaced (f : Function) : Function where
  returnType := f.returnType
  name := f.name
  parameters := f.parameters.map Parameter.unplaced
  body := ⟨unplacedStatements f.body.statements, .start⟩
  position := .start

def Declaration.unplaced : Declaration → Declaration
  | function f => .function f.unplaced
  | global v => .global v.unplaced
  | statement s => .statement s.unplaced

/-- A program with all places forgotten. -/
def Program.unplaced (program : Program) : Program := List.map Declaration.unplaced program

end Unplaced

section Ends

/-- None of the words is an end. -/
def Endless (words : List Word) : Prop := ∀ w ∈ words, w.kind ≠ .eof

theorem endless_nil : Endless [] := nofun

theorem endless_append {a b : List Word} : Endless (a ++ b) ↔ Endless a ∧ Endless b :=
  List.forall_mem_append

theorem endless_cons {w : Word} {ws : List Word} :
    Endless (w :: ws) ↔ w.kind ≠ .eof ∧ Endless ws := List.forall_mem_cons

attribute [local simp] endless_nil endless_append endless_cons Word.mark Word.operator Word.control
  Word.type Word.identifier Word.openParen Word.closeParen Word.openBracket Word.closeBracket
  Word.openBrace Word.closeBrace Word.comma Word.colon Word.semicolon

theorem endless_operand {e : Expr} (h : Endless e.words) : Endless (operandWords e e.words) := by
  rw [operandWords]
  split
  · simp [h]
  · exact h

mutual

theorem Expr.endless : ∀ e : Expr, Endless e.words
  | .binary op left right _ => by
    simp [Expr.words, endless_operand left.endless, endless_operand right.endless]
  | .prefixed op operand _ => by
    simp [Expr.words, endless_operand operand.endless]
  | .suffixed op operand _ => by
    simp [Expr.words, endless_operand operand.endless]
  | .assign target value _ => by
    simp [Expr.words, endless_operand target.endless, endless_operand value.endless]
  | .call callee arguments _ => by
    simp [Expr.words, endless_operand callee.endless, endless_arguments arguments]
  | .index array index _ => by
    simp [Expr.words, endless_operand array.endless, index.endless]
  | .name .. => by simp [Expr.words]
  | .number .. => by simp [Expr.words]
  | .string .. => by simp [Expr.words]
  | .char .. => by simp [Expr.words]

theorem endless_arguments : ∀ es : List Expr, Endless (argumentWords es)
  | [] => endless_nil
  | [e] => e.endless
  | e :: e' :: es => by
    simp [argumentWords, e.endless, endless_arguments (e' :: es)]

end

theorem endless_optional (e : Option Expr) : Endless (optionalWords e) := by
  cases e with
  | none => exact endless_nil
  | some e => exact e.endless

theorem Variable.endless (v : Variable) : Endless v.words := by
  have hbrackets : Endless v.brackets := by
    rw [Variable.brackets]
    split
    · simp
    · exact endless_nil
  have hinit : Endless (initWords v.init) := by
    cases v.init with
    | none => exact endless_nil
    | some e => simp [initWords, e.endless]
  simp [Variable.words, hbrackets, hinit]

theorem endless_forInit (init : Option ForInit) : Endless ((init.map ForInit.words).getD []) := by
  match init with
  | none => exact endless_nil
  | some (.declare v) => exact v.endless
  | some (.expression e) => exact e.endless

theorem endless_bodyEnd (closed : Bool) (s : Stmt) : Endless (bodyEnd closed s) := by
  rw [bodyEnd.eq_def]
  split
  · exact endless_nil
  · cases closed <;> simp

mutual

theorem Stmt.endless (closed : Bool) : ∀ s : Stmt, Endless (s.words closed)
  | .block ss _ => by
    simp [Stmt.words, endless_statements closed ss]
  | .declare v => v.endless
  | .ifElse condition s none _ => by
    simp [Stmt.words, condition.endless, s.endless closed, endless_bodyEnd]
  | .ifElse condition s (some other) _ => by
    simp [Stmt.words, condition.endless, s.endless closed, other.endless closed, endless_bodyEnd]
  | .whileLoop condition s _ => by
    simp [Stmt.words, condition.endless, s.endless closed, endless_bodyEnd]
  | .forLoop init condition update s _ => by
    simp [Stmt.words, endless_forInit, endless_optional, s.endless closed, endless_bodyEnd]
  | .switch subject cases none _ => by
    simp [Stmt.words, subject.endless, endless_clauses closed cases]
  | .switch subject cases (some fallback) _ => by
    simp [Stmt.words, subject.endless, endless_clauses closed cases,
      endless_statements closed fallback]
  | .returns value _ => by
    simp [Stmt.words, endless_optional]
  | .breaks _ => by simp [Stmt.words]
  | .continues _ => by simp [Stmt.words]
  | .expression e _ => e.endless

theorem endless_statements (closed : Bool) : ∀ ss : List Stmt, Endless (statementWords closed ss)
  | [] => endless_nil
  | s :: ss => by
    simp [statementWords, s.endless closed, endless_statements closed ss]

theorem endless_clauses (closed : Bool) : ∀ cases : List Clause, Endless (clauseWords closed cases)
  | [] => endless_nil
  | .case value ss _ :: cases => by
    simp [clauseWords, value.endless, endless_statements closed ss, endless_clauses closed cases]

end

theorem endless_parameters : ∀ ps : List Parameter, Endless (parameterWords ps)
  | [] => endless_nil
  | [p] => by
    simp [parameterWords]
  | p :: p' :: ps => by
    simp [parameterWords, endless_parameters (p' :: ps)]

theorem endless_program (closed : Bool) (program : Program) :
    Endless (Program.words closed program) := by
  intro w hw
  obtain ⟨d, -, hd⟩ := List.mem_flatMap.mp hw
  refine (?_ : Endless (d.words closed)) w hd
  cases d with
  | function f =>
    cases closed <;> simp [Declaration.words, Function.words, endless_parameters, Stmt.endless]
  | global v => simp [Declaration.words, v.endless]
  | statement s => simp [Declaration.words, s.endless]

end Ends

end KanaScript
