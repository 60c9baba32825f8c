import KanaScript.Proofs.C.Escapes
import KanaScript.Proofs.C.ProgramReadBack

/-! The values of the literals in the text of a program.  C finds the literals of the tree, in the
order of the text, and each stands for its own text, but for the format of a print call, which gets
a line feed at its end.  Around a literal the text is the same whatever it stands for. -/

namespace KanaScript

namespace C

section Reading

/-- What a literal stands for. -/
inductive LiteralValue
  | string (text : List Char)
  | char (c : Char)
deriving DecidableEq

/-- The value of a literal with its quotes. -/
def literalValue? : List Char → Option LiteralValue
  | '"' :: cs => (unescape? cs.dropLast).map .string
  | '\'' :: cs => (charValue? cs.dropLast).map .char
  | _ => none

/-- What is read of a token: the value of a literal, if it has one, and nothing of any other. -/
def Token.reading? : Token → Option (Option LiteralValue)
  | literal text => some (literalValue? text.toList)
  | _ => none

/-- What is read of the literals among the tokens. -/
def readings (ts : List Token) : List (Option LiteralValue) := ts.filterMap Token.reading?

@[simp]
theorem readings_nil : readings [] = [] := rfl

@[simp]
theorem readings_word (text : String) (ts : List Token) :
    readings (.word text :: ts) = readings ts := rfl

@[simp]
theorem readings_mark (text : String) (ts : List Token) :
    readings (.mark text :: ts) = readings ts := rfl

@[simp]
theorem readings_append (ts us : List Token) :
    readings (ts ++ us) = readings ts ++ readings us :=
  List.filterMap_append

theorem readings_flatMap {α : Type} (f : α → List Token) (xs : List α) :
    readings (xs.flatMap f) = xs.flatMap fun x => readings (f x) :=
  List.filterMap_flatMap

@[simp]
theorem readings_glueMinus : ∀ ts : List Token, readings (glueMinus ts) = readings ts
  | [] => rfl
  | t :: ts => by
    unfold glueMinus
    split
    · subst t
      rfl
    · split
      · subst t
        rw [readings_mark, readings_mark, readings_glueMinus ts]
      · rw [readings_mark]

@[simp]
theorem readings_numberTokens (cs : List Char) : readings (numberTokens cs) = [] := by
  have unsigned : ∀ cs, readings [unsignedToken cs] = [] := by
    intro cs
    unfold unsignedToken
    split
    · rfl
    · rfl
  unfold numberTokens
  split
  · rw [readings_mark, unsigned]
  · exact unsigned cs

theorem readings_stringLiteral (text : String) :
    readings [.literal (stringLiteral text)] = [some (.string text.toList)] := by
  have hbody := (isBody_stringBody text).value
  simp [readings, Token.reading?, stringLiteral, literalValue?, hbody]

theorem readings_charLiteral (text : String) :
    readings [.literal (charLiteral text)] = [some (.char (text.toList.headD '\x00'))] := by
  have hbody := charValue?_charBody text
  simp [readings, Token.reading?, charLiteral, literalValue?, hbody]

end Reading

/-- The text that a format prints: one that does not end its line, with a line feed or the escape of
one, gets a line feed. -/
def printed (format : List Char) : List Char :=
  if ['\n'] <:+ format ∨ ['\\', 'n'] <:+ format then format else format ++ ['\n']

theorem toList_withLineFeed (format : String) :
    (withLineFeed format).toList = printed format.toList := by
  simp only [withLineFeed, printed, Bool.or_eq_true, List.isSuffixOf_iff_suffix]
  split
  · rfl
  · simp

/-- The value of an argument that is the format of a print call. -/
def formatValue? (print : Bool) : Expr → Option (List LiteralValue)
  | .string text _ => if print then some [.string (printed text.toList)] else none
  | _ => none

end C

open C

section Trees

/-- Whether an expression is a name of the function that prints, in C or in the script. -/
def Expr.namesPrint : Expr → Bool
  | .name text _ => text == "printf" || text == "ジョウジ"
  | _ => false

theorem isPrint_eq_namesPrint (e : Expr) : isPrint e = e.namesPrint := by
  cases e with
  | name text position =>
    simp only [isPrint, printFunctions, Expr.namesPrint, List.contains_cons, List.contains_nil,
      Bool.or_false]
  | _ => rfl

mutual

/-- The values of the literals in an expression, in the order of its text. -/
def Expr.literals : Expr → List LiteralValue
  | .binary _ left right _ => left.literals ++ right.literals
  | .prefixed _ operand _ => operand.literals
  | .suffixed _ operand _ => operand.literals
  | .assign target value _ => target.literals ++ value.literals
  | .call callee arguments _ => callee.literals ++ argumentLiterals callee.namesPrint arguments
  | .index array index _ => array.literals ++ index.literals
  | .name _ _ => []
  | .number _ _ => []
  | .string text _ => [.string text.toList]
  | .char text _ => [.char (text.toList.headD '\x00')]

/-- The first of the arguments is a format if `print` says so. -/
def argumentLiterals (print : Bool) : List Expr → List LiteralValue
  | [] => []
  | e :: es => (formatValue? print e).getD e.literals ++ argumentLiterals false es

end

def Variable.literals (v : Variable) : List LiteralValue := (v.init.map Expr.literals).getD []

def ForInit.literals : ForInit → List LiteralValue
  | declare v => v.literals
  | expression e => e.literals

def optionalLiterals (e : Option Expr) : List LiteralValue := (e.map Expr.literals).getD []

mutual

def Stmt.literals : Stmt → List LiteralValue
  | .block statements _ => statementLiterals statements
  | .declare v => v.literals
  | .ifElse condition consequent none _ => condition.literals ++ consequent.literals
  | .ifElse condition consequent (some alternative) _ =>
    condition.literals ++ (consequent.literals ++ alternative.literals)
  | .whileLoop condition body _ => condition.literals ++ body.literals
  | .forLoop init condition update body _ =>
    (init.map ForInit.literals).getD [] ++ (optionalLiterals condition ++
      (optionalLiterals update ++ body.literals))
  | .switch subject cases none _ => subject.literals ++ clauseLiterals cases
  | .switch subject cases (some fallback) _ =>
    subject.literals ++ (clauseLiterals cases ++ statementLiterals fallback)
  | .returns none _ => []
  | .returns (some value) _ => value.literals
  | .breaks _ => []
  | .continues _ => []
  | .expression e _ => e.literals

def statementLiterals : List Stmt → List LiteralValue
  | [] => []
  | s :: ss => s.literals ++ statementLiterals ss

def clauseLiterals : List Clause → List LiteralValue
  | [] => []
  | .case value statements _ :: others =>
    value.literals ++ (statementLiterals statements ++ clauseLiterals others)

end

def Declaration.literals : Declaration → List LiteralValue
  | function f => statementLiterals f.body.statements
  | global v => v.literals
  | statement s => s.literals

/-- The values of the literals of a program, in the order of its text. -/
def Program.literals (program : Program) : List LiteralValue :=
  List.flatMap Declaration.literals program

end Trees

section Found

theorem readings_format {print : Bool} {e : Expr}
    (h : readings e.tokens = e.literals.map some) :
    readings (((formatCode? print e).map fun code => [C.Token.literal code]).getD e.tokens) =
      ((formatValue? print e).getD e.literals).map some := by
  cases e with
  | string text position =>
    cases print with
    | false => exact h
    | true =>
      simp only [formatCode?, formatValue?, if_true, Option.map_some, Option.getD_some,
        readings_stringLiteral, toList_withLineFeed, List.map_cons, List.map_nil]
  | _ => exact h

mutual

/-- The literals among the tokens of an expression have the values of those in the tree. -/
theorem Expr.readings_tokens : ∀ e : Expr, readings e.tokens = e.literals.map some
  | .binary op left right _ => by
    simp [Expr.tokens, Expr.literals, left.readings_tokens, right.readings_tokens]
  | .prefixed op operand _ => by
    rw [Expr.tokens, Expr.literals, ← operand.readings_tokens]
    split
    · exact readings_glueMinus _
    · exact readings_mark _ _
  | .suffixed op operand _ => by simp [Expr.tokens, Expr.literals, operand.readings_tokens]
  | .assign target value _ => by
    simp [Expr.tokens, Expr.literals, target.readings_tokens, value.readings_tokens]
  | .call callee arguments _ => by
    simp [Expr.tokens, Expr.literals, callee.readings_tokens, readings_argumentTokens,
      isPrint_eq_namesPrint]
  | .index array index _ => by
    simp [Expr.tokens, Expr.literals, array.readings_tokens, index.readings_tokens]
  | .name text _ => by simp [Expr.tokens, Expr.literals]
  | .number value _ => by simp [Expr.tokens, Expr.literals]
  | .string text _ => by simp [Expr.tokens, Expr.literals, readings_stringLiteral]
  | .char text _ => by simp [Expr.tokens, Expr.literals, readings_charLiteral]

theorem readings_argumentTokens : ∀ (print : Bool) (es : List Expr),
    readings (argumentTokens print es) = (argumentLiterals print es).map some
  | _, [] => by simp [argumentTokens, argumentLiterals]
  | print, [e] => by
    rw [argumentTokens, argumentLiterals, argumentLiterals, List.append_nil,
      readings_format e.readings_tokens]
  | print, e :: e' :: es => by
    rw [argumentTokens, argumentLiterals, readings_append, readings_mark, List.map_append,
      readings_format e.readings_tokens, readings_argumentTokens false (e' :: es)]

end

theorem readings_optionalTokens (e : Option Expr) :
    readings (optionalTokens e) = (optionalLiterals e).map some := by
  cases e with
  | none => rfl
  | some e => exact e.readings_tokens

theorem Variable.readings_tokens (v : Variable) : readings v.tokens = v.literals.map some := by
  have hdeclarator : readings v.declarator = [] := by
    unfold Variable.declarator
    split
    · rfl
    · rfl
  rw [Variable.tokens, readings_append, hdeclarator, List.nil_append, Variable.literals]
  cases v.init with
  | none => rfl
  | some e => exact e.readings_tokens

theorem readings_forInit (init : Option ForInit) :
    readings ((init.map ForInit.tokens).getD []) =
      ((init.map ForInit.literals).getD []).map some := by
  match init with
  | none => rfl
  | some (.declare v) => exact v.readings_tokens
  | some (.expression e) => exact e.readings_tokens

@[simp]
theorem readings_inParentheses (ts : List C.Token) : readings (inParentheses ts) = readings ts := by
  simp [inParentheses]

mutual

theorem Stmt.readings_outline : ∀ s : Stmt,
    readings s.outline.tokens = s.literals.map some
  | .block statements _ => by
    simp [Stmt.outline, Outline.tokens, Stmt.literals, readings_statementItems statements]
  | .declare v => by simp [Stmt.outline, Outline.tokens, Stmt.literals, v.readings_tokens]
  | .ifElse condition consequent none _ => by
    simp [Stmt.outline, Outline.tokens, Stmt.literals, condition.readings_tokens,
      consequent.readings_outline]
  | .ifElse condition consequent (some alternative) _ => by
    simp [Stmt.outline, Outline.tokens, Stmt.literals, condition.readings_tokens,
      consequent.readings_outline, alternative.readings_outline]
  | .whileLoop condition body _ => by
    simp [Stmt.outline, Outline.tokens, Stmt.literals, condition.readings_tokens,
      body.readings_outline]
  | .forLoop init condition update body _ => by
    simp [Stmt.outline, Outline.tokens, Stmt.literals, readings_forInit, readings_optionalTokens,
      body.readings_outline]
  | .switch subject cases none _ => by
    simp [Stmt.outline, Outline.tokens, Stmt.literals, subject.readings_tokens,
      readings_clauseItems cases]
  | .switch subject cases (some fallback) _ => by
    simp [Stmt.outline, Outline.tokens, Item.tokens, itemsTokens, itemsTokens_append,
      Stmt.literals, subject.readings_tokens, readings_clauseItems cases,
      readings_statementItems fallback]
  | .returns none _ => by simp [Stmt.outline, Outline.tokens, Stmt.literals]
  | .returns (some value) _ => by
    simp [Stmt.outline, Outline.tokens, Stmt.literals, value.readings_tokens]
  | .breaks _ => by simp [Stmt.outline, Outline.tokens, Stmt.literals]
  | .continues _ => by simp [Stmt.outline, Outline.tokens, Stmt.literals]
  | .expression e _ => by simp [Stmt.outline, Outline.tokens, Stmt.literals, e.readings_tokens]

theorem readings_statementItems : ∀ ss : List Stmt,
    readings (itemsTokens (statementItems ss)) = (statementLiterals ss).map some
  | [] => by simp [statementItems, itemsTokens, statementLiterals]
  | s :: ss => by
    simp [statementItems, itemsTokens, Item.tokens, statementLiterals, s.readings_outline,
      readings_statementItems ss]

theorem readings_clauseItems : ∀ cases : List Clause,
    readings (itemsTokens (clauseItems cases)) = (clauseLiterals cases).map some
  | [] => by simp [clauseItems, itemsTokens, clauseLiterals]
  | .case value statements _ :: others => by
    simp [clauseItems, itemsTokens, itemsTokens_append, Item.tokens, clauseLiterals,
      value.readings_tokens, readings_statementItems statements, readings_clauseItems others]

end

theorem readings_parameterTokens : ∀ ps : List Parameter, readings (parameterTokens ps) = []
  | [] => rfl
  | [p] => rfl
  | p :: p' :: ps => by
    simp [parameterTokens, Parameter.tokens, readings_parameterTokens (p' :: ps)]

theorem Declaration.readings_outline (d : Declaration) :
    readings d.outline.tokens = d.literals.map some := by
  cases d with
  | function f =>
    have hheader : readings f.headerTokens = [] := by
      simp only [Function.headerTokens, readings_word, readings_inParentheses]
      split
      · rfl
      · exact readings_parameterTokens f.parameters
    simp [Declaration.outline, External.tokens, Declaration.literals, hheader,
      readings_statementItems]
  | global v =>
    simp [Declaration.outline, External.tokens, Outline.tokens, Declaration.literals,
      v.readings_tokens]
  | statement s => exact s.readings_outline

/-- C finds in the text of a program the literals of its tree. -/
theorem Program.exists_readings {program : Program} (known : ∀ d ∈ program, d.HasKnownParts) :
    ∃ ts, tokens? true program.code.toList = some ts ∧
      readings ts = program.literals.map some := by
  refine ⟨_, Program.tokens?_code known, ?_⟩
  rw [readings_flatMap, Program.outline, List.flatMap_map, Program.literals, List.map_flatMap]
  simp only [Declaration.readings_outline]

end Found

section Places

/-- A place in a node of the tree, with the other parts of the node. -/
inductive Expr.Frame
  | left (op : String) (other : Expr) (position : Position)
  | right (op : String) (other : Expr) (position : Position)
  | prefixed (op : String) (position : Position)
  | suffixed (op : String) (position : Position)
  | target (other : Expr) (position : Position)
  | value (other : Expr) (position : Position)
  | callee (list : List Expr) (position : Position)
  | argument (function : Expr) (before after : List Expr) (position : Position)
  | array (other : Expr) (position : Position)
  | index (other : Expr) (position : Position)

namespace Expr.Frame

/-- The node with `e` at the place. -/
def plug (e : Expr) : Frame → Expr
  | left op other position => .binary op e other position
  | right op other position => .binary op other e position
  | prefixed op position => .prefixed op e position
  | suffixed op position => .suffixed op e position
  | target other position => .assign e other position
  | value other position => .assign other e position
  | callee list position => .call e list position
  | argument function before after position => .call function (before ++ e :: after) position
  | array other position => .index e other position
  | index other position => .index other e position

/-- Whether the place is that of a format: the first argument of a print call. -/
def isFormat : Frame → Bool
  | argument function [] _ _ => function.namesPrint
  | _ => false

/-- The tree with `e` at a place in it, which the frames give from the inside out. -/
def plugAll (frames : List Frame) (e : Expr) : Expr := frames.foldl (fun e frame => frame.plug e) e

theorem isPrint_plug (frame : Frame) (e : Expr) : isPrint (frame.plug e) = false := by
  cases frame <;> rfl

theorem formatCode?_plug (frame : Frame) (e : Expr) (print : Bool) :
    formatCode? print (frame.plug e) = none := by
  cases frame <;> rfl

theorem exists_intercalate (separator : String) (xs ys : List String) :
    ∃ before after : String, ∀ text,
      separator.intercalate (xs ++ text :: ys) = before ++ text ++ after := by
  induction xs with
  | nil =>
    cases ys with
    | nil => exact ⟨"", "", fun text => by simp⟩
    | cons y ys =>
      refine ⟨"", separator ++ separator.intercalate (y :: ys), fun text => ?_⟩
      rw [List.nil_append, String.intercalate_cons_of_ne_nil (by simp), String.empty_append,
        String.append_assoc]
  | cons x xs ih =>
    obtain ⟨before, after, h⟩ := ih
    refine ⟨x ++ separator ++ before, after, fun text => ?_⟩
    rw [List.cons_append, String.intercalate_cons_of_ne_nil (by simp), h]
    simp only [String.append_assoc]

@[simp]
theorem formatCode?_false (e : Expr) : formatCode? false e = none := by
  cases e <;> rfl

theorem argumentCodes_append (print : Bool) (before : List Expr) (e : Expr) (after : List Expr) :
    argumentCodes print (before ++ e :: after) = argumentCodes print before ++
      (formatCode? (before.isEmpty && print) e).getD e.code :: argumentCodes false after := by
  induction before generalizing print with
  | nil => simp [argumentCodes]
  | cons first before ih =>
    rw [List.cons_append, argumentCodes, ih, argumentCodes]
    simp

/-- The text of a node around one of its parts does not depend on the part. -/
theorem exists_code_plug (frame : Frame) : ∃ before after : String, ∀ e, isPrint e = false →
    (frame.plug e).code = before ++ (formatCode? frame.isFormat e).getD e.code ++ after := by
  cases frame with
  | left op other position =>
    exact ⟨"(", " " ++ op ++ " " ++ other.code ++ ")", fun e _ => by
      simp [plug, isFormat, Expr.code, String.append_assoc]⟩
  | right op other position =>
    exact ⟨"(" ++ other.code ++ " " ++ op ++ " ", ")", fun e _ => by
      simp [plug, isFormat, Expr.code, String.append_assoc]⟩
  | prefixed op position =>
    exact ⟨op, "", fun e _ => by simp [plug, isFormat, Expr.code]⟩
  | suffixed op position =>
    exact ⟨"", op, fun e _ => by simp [plug, isFormat, Expr.code]⟩
  | target other position =>
    exact ⟨"", " = " ++ other.code, fun e _ => by
      simp [plug, isFormat, Expr.code, String.append_assoc]⟩
  | value other position =>
    exact ⟨other.code ++ " = ", "", fun e _ => by simp [plug, isFormat, Expr.code]⟩
  | callee list position =>
    exact ⟨"", "(" ++ ", ".intercalate (argumentCodes false list) ++ ")", fun e he => by
      simp [plug, isFormat, Expr.code, he, String.append_assoc]⟩
  | argument function before after position =>
    obtain ⟨opening, closing, h⟩ := exists_intercalate ", "
      (argumentCodes (isPrint function) before) (argumentCodes false after)
    have hformat : (argument function before after position).isFormat =
        (before.isEmpty && isPrint function) := by
      rw [isPrint_eq_namesPrint]
      cases before <;> rfl
    refine ⟨function.code ++ "(" ++ opening, closing ++ ")", fun e _ => ?_⟩
    rw [hformat, plug, Expr.code, argumentCodes_append, h]
    simp only [String.append_assoc]
  | array other position =>
    exact ⟨"", "[" ++ other.code ++ "]", fun e _ => by
      simp [plug, isFormat, Expr.code, String.append_assoc]⟩
  | index other position =>
    exact ⟨other.code ++ "[", "]", fun e _ => by
      simp [plug, isFormat, Expr.code, String.append_assoc]⟩

/-- The text of a tree around a node of it does not depend on the node. -/
theorem exists_code_plugAll_node (frames : List Frame) : ∃ before after : String,
    ∀ (frame : Frame) (e : Expr),
      (plugAll frames (frame.plug e)).code = before ++ (frame.plug e).code ++ after := by
  induction frames with
  | nil => exact ⟨"", "", fun frame e => by simp [plugAll]⟩
  | cons outer frames ih =>
    obtain ⟨before, after, hall⟩ := ih
    obtain ⟨opening, closing, hone⟩ := exists_code_plug outer
    refine ⟨before ++ opening, closing ++ after, fun frame e => ?_⟩
    have hnode := hall outer (frame.plug e)
    rw [hone _ (frame.isPrint_plug e), frame.formatCode?_plug, Option.getD_none] at hnode
    simpa only [plugAll, List.foldl_cons, String.append_assoc] using hnode

/-- The text of a tree around a part of it depends on the part only where the part is a function to
call. -/
theorem exists_code_plugAll (frames : List Frame) : ∃ before after : String, ∀ e,
    isPrint e = false →
    (plugAll frames e).code =
      before ++ (formatCode? (frames.head?.any isFormat) e).getD e.code ++ after := by
  cases frames with
  | nil => exact ⟨"", "", fun e _ => by simp [plugAll]⟩
  | cons frame frames =>
    obtain ⟨before, after, hall⟩ := exists_code_plugAll_node frames
    obtain ⟨opening, closing, hone⟩ := exists_code_plug frame
    refine ⟨before ++ opening, closing ++ after, fun e hprint => ?_⟩
    have hnode := hall frame e
    rw [hone e hprint] at hnode
    simpa only [plugAll, List.foldl_cons, List.head?_cons, Option.any_some, String.append_assoc]
      using hnode

end Expr.Frame

/-- At each place of a tree, a string is written as the body of its own text, or of the text that it
prints. -/
theorem Expr.Frame.exists_isBody (frames : List Frame) : ∃ before after : String,
    ∀ text position, ∃ body : String,
      (plugAll frames (.string text position)).code =
        before ++ "\"" ++ body ++ "\"" ++ after ∧
      IsBody (if frames.head?.any isFormat then printed text.toList else text.toList)
        body.toList := by
  obtain ⟨before, after, h⟩ := exists_code_plugAll frames
  refine ⟨before, after, fun text position => ?_⟩
  have hcode := h (.string text position) rfl
  cases hformat : frames.head?.any isFormat with
  | false =>
    refine ⟨stringBody text, ?_, isBody_stringBody text⟩
    rw [hcode, hformat]
    simp [formatCode?, Expr.code, stringLiteral, String.append_assoc]
  | true =>
    refine ⟨stringBody (withLineFeed text), ?_, ?_⟩
    · rw [hcode, hformat]
      simp [formatCode?, stringLiteral, String.append_assoc]
    · rw [if_pos rfl, ← toList_withLineFeed]
      exact isBody_stringBody (withLineFeed text)

end Places

/-- The text of every literal is escaped so that C reads it back: each text by itself, each string
at its place in a tree, and all literals in the text of a program with the operators of the grammar
and the types of the vocabulary, as every program that was read has them. -/
theorem literals_read_back {program : Program} (known : ∀ d ∈ program, d.HasKnownParts) :
    (∀ text : String, IsBody text.toList (stringBody text).toList ∧
      (stringBody text).toList =
        replaceChar '\r' ['\\', 'r'] (replaceChar '\t' ['\\', 't'] (replaceChar '\n' ['\\', 'n']
          (replaceChar '"' ['\\', '"'] (replaceChar '\\' ['\\', '\\'] text.toList)))) ∧
      charValue? (charBody text).toList = some (text.toList.headD '\x00')) ∧
    (∀ frames : List Expr.Frame, ∃ before after : String, ∀ text position, ∃ body : String,
      (Expr.Frame.plugAll frames (.string text position)).code =
        before ++ "\"" ++ body ++ "\"" ++ after ∧
      IsBody (if frames.head?.any Expr.Frame.isFormat then printed text.toList else text.toList)
        body.toList) ∧
    ∃ ts, tokens? true program.code.toList = some ts ∧
      readings ts = program.literals.map some := by
  refine ⟨fun text => ⟨isBody_stringBody text, stringBody_eq_replaceChar text,
    charValue?_charBody text⟩, Expr.Frame.exists_isBody, Program.exists_readings known⟩

/-- In `ジョウジ("a", ゲゲル("b", 'c'))` only the format gets a line feed. -/
theorem literals_read_back_printed :
    let program : Program := [.statement (.expression (.call (.name "ジョウジ" ⟨1, 1⟩)
      [.string "a" ⟨1, 6⟩, .call (.name "ゲゲル" ⟨1, 10⟩) [.string "b" ⟨1, 14⟩, .char "c" ⟨1, 18⟩]
        ⟨1, 10⟩] ⟨1, 1⟩) ⟨1, 1⟩)]
    (∀ d ∈ program, d.HasKnownParts) ∧
      ∃ ts, tokens? true program.code.toList = some ts ∧
        readings ts = [some (.string ['a', '\n']), some (.string ['b']), some (.char 'c')] := by
  intro program
  have known : ∀ d ∈ program, d.HasKnownParts := by
    simp [program, Declaration.HasKnownParts, Declaration.HasKnownHeader, Declaration.nodes,
      Stmt.nodes, Stmt.HasKnownParts, Stmt.expressions, Stmt.variables, Expr.HasKnownOperators,
      Expr.nodes, argumentNodes, Expr.hasKnownOperator]
  obtain ⟨-, -, ts, hts, hreadings⟩ := literals_read_back known
  refine ⟨known, ts, hts, hreadings.trans ?_⟩
  cbv

end KanaScript
