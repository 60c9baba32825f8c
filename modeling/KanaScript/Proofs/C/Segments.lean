import KanaScript.Proofs.C.ProgramOutline

/-! The C text of a program in segments: text that is there whatever the names are, and the names in
its expressions, each with the place that it was read at.  With the names written in another way,
the text differs in these places only. -/

namespace KanaScript

namespace C

inductive Segment
  | fixed (text : String)
  /-- A name in an expression. -/
  | name (text : String) (position : Position)

/-- How the names of expressions are written, by their places. -/
abbrev Naming := Position → String → String

def Segment.code (naming : Naming) : Segment → String
  | fixed text => text
  | name text position => naming position text

/-- The text of segments. -/
def write (naming : Naming) : List Segment → String
  | [] => ""
  | s :: ss => s.code naming ++ write naming ss

variable {naming other : Naming}

@[simp]
theorem write_nil : write naming [] = "" := rfl

@[simp]
theorem write_fixed (text : String) (ss : List Segment) :
    write naming (.fixed text :: ss) = text ++ write naming ss := rfl

@[simp]
theorem write_append (ss others : List Segment) :
    write naming (ss ++ others) = write naming ss ++ write naming others := by
  induction ss with
  | nil => simp
  | cons s ss ih => rw [List.cons_append, write, write, ih, String.append_assoc]

theorem write_intercalate (separator : String) : ∀ parts : List (List Segment),
    write naming ([.fixed separator].intercalate parts) =
      separator.intercalate (parts.map (write naming))
  | [] => rfl
  | [part] => by simp [List.intercalate]
  | part :: next :: parts => by
    have hne : (next :: parts).map (write naming) ≠ [] := by simp
    rw [List.intercalate_cons_cons, write_append, write_append, write_fixed, write_nil,
      String.append_empty, write_intercalate separator (next :: parts),
      List.map_cons (l := next :: parts), String.intercalate_cons_of_ne_nil hne]

theorem append_eq_iff {a b x y : String} (h : a.length = b.length) :
    a ++ x = b ++ y ↔ a = b ∧ x = y := by
  constructor
  · intro happend
    have hlists := congrArg String.toList happend
    rw [String.toList_append, String.toList_append] at hlists
    have hlength : a.toList.length = b.toList.length := by
      rwa [String.length_toList, String.length_toList]
    obtain ⟨hfirst, hsecond⟩ := List.append_inj hlists hlength
    exact ⟨String.toList_inj.mp hfirst, String.toList_inj.mp hsecond⟩
  · rintro ⟨rfl, rfl⟩
    rfl

/-- Two ways to write the names that differ in no length give the same text only if they write
every name in the same way. -/
theorem write_eq_iff {ss : List Segment}
    (h : ∀ text position, .name text position ∈ ss →
      (naming position text).length = (other position text).length) :
    write naming ss = write other ss ↔
      ∀ text position, .name text position ∈ ss → naming position text = other position text := by
  induction ss with
  | nil => simp
  | cons s ss ih =>
    have ih := ih fun text position hmem => h text position (List.mem_cons_of_mem s hmem)
    cases s with
    | fixed text => simp [ih]
    | name first place =>
      rw [write, write, Segment.code, Segment.code,
        append_eq_iff (h first place List.mem_cons_self), ih]
      constructor
      · rintro ⟨hfirst, hmore⟩ text position hmem
        rcases List.mem_cons.mp hmem with heq | hmem
        · cases heq
          exact hfirst
        · exact hmore text position hmem
      · intro hall
        exact ⟨hall first place List.mem_cons_self,
          fun text position hmem => hall text position (List.mem_cons_of_mem _ hmem)⟩

end C

open C

mutual

def Expr.segments : Expr → List Segment
  | .binary op left right _ =>
    .fixed "(" :: (left.segments ++ .fixed (" " ++ op ++ " ") :: (right.segments ++ [.fixed ")"]))
  | .prefixed op operand _ => .fixed op :: operand.segments
  | .suffixed op operand _ => operand.segments ++ [.fixed op]
  | .assign target value _ => target.segments ++ .fixed " = " :: value.segments
  | .call callee arguments _ =>
    callee.segments ++ .fixed "(" ::
      ([.fixed ", "].intercalate (argumentSegments (isPrint callee) arguments) ++ [.fixed ")"])
  | .index array index _ => array.segments ++ .fixed "[" :: (index.segments ++ [.fixed "]"])
  | .name text position => [.name text position]
  | .number value _ => [.fixed value.text]
  | .string text _ => [.fixed (stringLiteral text)]
  | .char text _ => [.fixed (charLiteral text)]

/-- The segments of arguments, the first of which is a format if `print` says so. -/
def argumentSegments (print : Bool) : List Expr → List (List Segment)
  | [] => []
  | e :: es =>
    ((formatCode? print e).map fun code => [.fixed code]).getD e.segments ::
      argumentSegments false es

end

/-- A line at a level of nesting. -/
def C.segmentLine (level : Nat) (ss : List Segment) : List Segment :=
  .fixed ("".pushn ' ' (4 * level)) :: ss

def C.optionalSegments (e : Option Expr) : List Segment := (e.map Expr.segments).getD []

/-- The name that a variable gets is none of an expression. -/
def Variable.segments (v : Variable) : List Segment :=
  .fixed { v with init := none }.code ::
    (v.init.map fun init => .fixed " = " :: init.segments).getD []

def ForInit.segments : ForInit → List Segment
  | declare v => v.segments
  | expression e => e.segments

mutual

def Stmt.segmentLines (level : Nat) (lead : String) : Stmt → List (List Segment)
  | .block statements _ =>
    segmentLine level [.fixed "\x7b"] ::
      (statementSegmentLines (level + 1) statements ++ [segmentLine level [.fixed "\x7d"]])
  | .declare v => [segmentLine level (v.segments ++ [.fixed ";"])]
  | .ifElse condition consequent none _ =>
    segmentLine level (.fixed (lead ++ "if (") :: (condition.segments ++ [.fixed ")"])) ::
      consequent.segmentLines (consequent.bodyLevel level) ""
  | .ifElse condition consequent (some alternative) _ =>
    segmentLine level (.fixed (lead ++ "if (") :: (condition.segments ++ [.fixed ")"])) ::
      (consequent.segmentLines (consequent.bodyLevel level) "" ++
        if alternative.isIf then alternative.segmentLines level "else "
        else segmentLine level [.fixed "else"] ::
          alternative.segmentLines (alternative.bodyLevel level) "")
  | .whileLoop condition body _ =>
    segmentLine level (.fixed "while (" :: (condition.segments ++ [.fixed ")"])) ::
      body.segmentLines (body.bodyLevel level) ""
  | .forLoop init condition update body _ =>
    segmentLine level (.fixed "for (" :: ((init.map ForInit.segments).getD [] ++ .fixed "; " ::
        (optionalSegments condition ++ .fixed "; " :: (optionalSegments update ++
          [.fixed ")"])))) ::
      body.segmentLines (body.bodyLevel level) ""
  | .switch subject cases none _ =>
    segmentLine level (.fixed "switch (" :: (subject.segments ++ [.fixed ")"])) ::
      segmentLine level [.fixed "\x7b"] ::
      (clauseSegmentLines level cases ++ [segmentLine level [.fixed "\x7d"]])
  | .switch subject cases (some fallback) _ =>
    segmentLine level (.fixed "switch (" :: (subject.segments ++ [.fixed ")"])) ::
      segmentLine level [.fixed "\x7b"] ::
      (clauseSegmentLines level cases ++ segmentLine level [.fixed "default:"] ::
        (statementSegmentLines (level + 1) fallback ++ [segmentLine level [.fixed "\x7d"]]))
  | .returns none _ => [segmentLine level [.fixed "return;"]]
  | .returns (some value) _ =>
    [segmentLine level (.fixed "return " :: (value.segments ++ [.fixed ";"]))]
  | .breaks _ => [segmentLine level [.fixed "break;"]]
  | .continues _ => [segmentLine level [.fixed "continue;"]]
  | .expression e _ => [segmentLine level (e.segments ++ [.fixed ";"])]

def statementSegmentLines (level : Nat) : List Stmt → List (List Segment)
  | [] => []
  | s :: ss => s.segmentLines level "" ++ statementSegmentLines level ss

def clauseSegmentLines (level : Nat) : List Clause → List (List Segment)
  | [] => []
  | .case value statements _ :: others =>
    segmentLine level (.fixed "case " :: (value.segments ++ [.fixed ":"])) ::
      (statementSegmentLines (level + 1) statements ++ clauseSegmentLines level others)

end

def Declaration.segmentLines : Declaration → List (List Segment)
  | function f => segmentLine 0 [.fixed f.header] ::
    (Stmt.block f.body.statements f.body.position).segmentLines 0 ""
  | global v => [segmentLine 0 (v.segments ++ [.fixed ";"])]
  | statement s => s.segmentLines 0 ""

namespace Program

def segments (program : Program) : List Segment :=
  [.fixed "\n"].intercalate (preamble.map (fun line => [.fixed line]) ++
    program.flatMap fun d => d.segmentLines ++ [[]])

/-- The C text of a program with the names of its expressions written as `naming` says. -/
def codeWith (naming : Naming) (program : Program) : String := write naming program.segments

end Program

section Text

/-- The names as they are written in C. -/
abbrev C.identifiers : Naming := fun _ text => identifier text

mutual

theorem Expr.write_segments : ∀ e : Expr, write identifiers e.segments = e.code
  | .binary op left right _ => by
    simp [Expr.segments, Expr.code, left.write_segments, right.write_segments, String.append_assoc]
  | .prefixed op operand _ => by simp [Expr.segments, Expr.code, operand.write_segments]
  | .suffixed op operand _ => by simp [Expr.segments, Expr.code, operand.write_segments]
  | .assign target value _ => by
    simp [Expr.segments, Expr.code, target.write_segments, value.write_segments,
      String.append_assoc]
  | .call callee arguments _ => by
    simp [Expr.segments, Expr.code, callee.write_segments, write_intercalate,
      write_argumentSegments, String.append_assoc]
  | .index array index _ => by
    simp [Expr.segments, Expr.code, array.write_segments, index.write_segments,
      String.append_assoc]
  | .name text _ => by simp [Expr.segments, Expr.code, write, Segment.code]
  | .number value _ => by simp [Expr.segments, Expr.code]
  | .string text _ => by simp [Expr.segments, Expr.code]
  | .char text _ => by simp [Expr.segments, Expr.code]

theorem write_argumentSegments : ∀ (print : Bool) (es : List Expr),
    (argumentSegments print es).map (write identifiers) = argumentCodes print es
  | _, [] => rfl
  | print, e :: es => by
    rw [argumentSegments, argumentCodes, List.map_cons, write_argumentSegments false es]
    cases formatCode? print e with
    | none => simp [e.write_segments]
    | some code => simp

end

@[simp]
theorem write_segmentLine (level : Nat) (ss : List Segment) :
    write identifiers (segmentLine level ss) = line level (write identifiers ss) := rfl

theorem write_optionalSegments (e : Option Expr) :
    write identifiers (optionalSegments e) = optionalCode e := by
  cases e with
  | none => rfl
  | some e => exact e.write_segments

theorem Variable.write_segments (v : Variable) : write identifiers v.segments = v.code := by
  obtain ⟨typeName, name, init, position⟩ := v
  cases init with
  | none => exact String.append_empty
  | some init =>
    simp only [Variable.segments, Option.map_some, Option.getD_some, write_fixed,
      init.write_segments, ← String.append_assoc]
    rfl

theorem ForInit.write_segments (init : ForInit) : write identifiers init.segments = init.code := by
  cases init with
  | declare v => exact v.write_segments
  | expression e => exact e.write_segments

mutual

theorem Stmt.write_segmentLines : ∀ (level : Nat) (lead : String) (s : Stmt),
    (s.segmentLines level lead).map (write identifiers) = s.lines level lead
  | level, _, .block statements _ => by
    simp [Stmt.segmentLines, Stmt.lines, write_statementSegmentLines (level + 1) statements]
  | _, _, .declare v => by simp [Stmt.segmentLines, Stmt.lines, v.write_segments]
  | level, _, .ifElse condition consequent none _ => by
    simp [Stmt.segmentLines, Stmt.lines, condition.write_segments,
      consequent.write_segmentLines (consequent.bodyLevel level) "", String.append_assoc]
  | level, _, .ifElse condition consequent (some alternative) _ => by
    have hother : (if alternative.isIf then alternative.segmentLines level "else "
        else segmentLine level [.fixed "else"] ::
          alternative.segmentLines (alternative.bodyLevel level) "").map (write identifiers) =
        if alternative.isIf then alternative.lines level "else "
        else line level "else" :: alternative.lines (alternative.bodyLevel level) "" := by
      split
      · exact alternative.write_segmentLines level "else "
      · simp [alternative.write_segmentLines (alternative.bodyLevel level) ""]
    simp [Stmt.segmentLines, Stmt.lines, condition.write_segments, hother,
      consequent.write_segmentLines (consequent.bodyLevel level) "", String.append_assoc]
  | level, _, .whileLoop condition body _ => by
    simp [Stmt.segmentLines, Stmt.lines, condition.write_segments,
      body.write_segmentLines (body.bodyLevel level) "", String.append_assoc]
  | level, _, .forLoop init condition update body _ => by
    have hinit : write identifiers ((init.map ForInit.segments).getD []) =
        (init.map ForInit.code).getD "" := by
      cases init with
      | none => rfl
      | some init => exact init.write_segments
    simp [Stmt.segmentLines, Stmt.lines, hinit, write_optionalSegments,
      body.write_segmentLines (body.bodyLevel level) "", String.append_assoc]
  | level, _, .switch subject cases none _ => by
    simp [Stmt.segmentLines, Stmt.lines, subject.write_segments,
      write_clauseSegmentLines level cases, String.append_assoc]
  | level, _, .switch subject cases (some fallback) _ => by
    simp [Stmt.segmentLines, Stmt.lines, subject.write_segments,
      write_clauseSegmentLines level cases, write_statementSegmentLines (level + 1) fallback,
      String.append_assoc]
  | _, _, .returns none _ => by simp [Stmt.segmentLines, Stmt.lines]
  | _, _, .returns (some value) _ => by
    simp [Stmt.segmentLines, Stmt.lines, value.write_segments, String.append_assoc]
  | _, _, .breaks _ => by simp [Stmt.segmentLines, Stmt.lines]
  | _, _, .continues _ => by simp [Stmt.segmentLines, Stmt.lines]
  | _, _, .expression e _ => by simp [Stmt.segmentLines, Stmt.lines, e.write_segments]

theorem write_statementSegmentLines : ∀ (level : Nat) (ss : List Stmt),
    (statementSegmentLines level ss).map (write identifiers) = statementLines level ss
  | _, [] => rfl
  | level, s :: ss => by
    rw [statementSegmentLines, statementLines, List.map_append, s.write_segmentLines level "",
      write_statementSegmentLines level ss]

theorem write_clauseSegmentLines : ∀ (level : Nat) (cases : List Clause),
    (clauseSegmentLines level cases).map (write identifiers) = clauseLines level cases
  | _, [] => rfl
  | level, .case value statements _ :: others => by
    simp [clauseSegmentLines, clauseLines, value.write_segments,
      write_clauseSegmentLines level others, write_statementSegmentLines (level + 1) statements,
      String.append_assoc]

end

theorem Declaration.write_segmentLines (d : Declaration) :
    d.segmentLines.map (write identifiers) = d.lines := by
  cases d with
  | function f =>
    simp [Declaration.segmentLines, Declaration.lines, Function.lines, Stmt.write_segmentLines]
  | global v => simp [Declaration.segmentLines, Declaration.lines, v.write_segments]
  | statement s => exact s.write_segmentLines 0 ""

/-- With its names as C has them, the text of a program is its C text. -/
theorem Program.codeWith_identifiers (program : Program) :
    program.codeWith identifiers = program.code := by
  have hpreamble : (preamble.map fun line => [.fixed line]).map (write identifiers) = preamble := by
    simp [Function.comp_def]
  have hbody : (program.flatMap fun d => d.segmentLines ++ [[]]).map (write identifiers) =
      program.flatMap fun d => d.lines ++ [""] := by
    simp [List.map_flatMap, Declaration.write_segmentLines]
  rw [codeWith, segments, write_intercalate, List.map_append, hpreamble, hbody, code, lines]

end Text

section Names

variable {text : String} {position : Position}

/-- An expression of the statements has the name at the place. -/
def NamedIn (ss : List Stmt) (text : String) (position : Position) : Prop :=
  ∃ s ∈ ss, ∃ e ∈ s.expressions, Expr.name text position ∈ e.nodes

@[simp]
theorem namedIn_nil : NamedIn [] text position ↔ False := by simp [NamedIn]

@[simp]
theorem namedIn_cons {s : Stmt} {ss : List Stmt} : NamedIn (s :: ss) text position ↔
    (∃ e ∈ s.expressions, Expr.name text position ∈ e.nodes) ∨ NamedIn ss text position := by
  simp [NamedIn]

@[simp]
theorem namedIn_append {ss others : List Stmt} : NamedIn (ss ++ others) text position ↔
    NamedIn ss text position ∨ NamedIn others text position := by
  simp [NamedIn, or_and_right, exists_or]

theorem C.name_mem_intercalate {separator : String} : ∀ {parts : List (List Segment)},
    .name text position ∈ [.fixed separator].intercalate parts ↔
      .name text position ∈ parts.flatten
  | [] => by simp [List.intercalate]
  | [part] => by simp [List.intercalate]
  | part :: next :: parts => by
    rw [List.intercalate_cons_cons, List.mem_append, List.mem_append, name_mem_intercalate,
      List.flatten_cons, List.mem_append]
    simp

mutual

theorem Expr.name_mem_segments : ∀ e : Expr,
    .name text position ∈ e.segments ↔ Expr.name text position ∈ e.nodes
  | .binary op left right _ => by
    simp [Expr.segments, Expr.nodes, left.name_mem_segments, right.name_mem_segments]
  | .prefixed op operand _ => by simp [Expr.segments, Expr.nodes, operand.name_mem_segments]
  | .suffixed op operand _ => by simp [Expr.segments, Expr.nodes, operand.name_mem_segments]
  | .assign target value _ => by
    simp [Expr.segments, Expr.nodes, target.name_mem_segments, value.name_mem_segments]
  | .call callee arguments _ => by
    simp [Expr.segments, Expr.nodes, callee.name_mem_segments, name_mem_intercalate,
      name_mem_argumentSegments]
  | .index array index _ => by
    simp [Expr.segments, Expr.nodes, array.name_mem_segments, index.name_mem_segments]
  | .name text position => by simp [Expr.segments, Expr.nodes]
  | .number value _ => by simp [Expr.segments, Expr.nodes]
  | .string text _ => by simp [Expr.segments, Expr.nodes]
  | .char text _ => by simp [Expr.segments, Expr.nodes]

theorem name_mem_argumentSegments : ∀ (print : Bool) (es : List Expr),
    .name text position ∈ (argumentSegments print es).flatten ↔
      Expr.name text position ∈ argumentNodes es
  | _, [] => by simp [argumentSegments, argumentNodes]
  | print, e :: es => by
    have hfirst : .name text position ∈
        ((formatCode? print e).map fun code => [.fixed code]).getD e.segments ↔
          Expr.name text position ∈ e.nodes := by
      cases hformat : formatCode? print e with
      | none => exact e.name_mem_segments
      | some code =>
        -- a format is a string, in which there are no names
        cases e with
        | string => simp [Expr.nodes]
        | _ => cases hformat
    rw [argumentSegments, argumentNodes, List.flatten_cons, List.mem_append, List.mem_append,
      name_mem_argumentSegments, hfirst]

end

@[simp]
theorem name_mem_segmentLine {level : Nat} {ss : List Segment} :
    .name text position ∈ segmentLine level ss ↔ .name text position ∈ ss := by
  simp [segmentLine]

theorem name_mem_optionalSegments {e : Option Expr} :
    .name text position ∈ optionalSegments e ↔
      ∃ value ∈ e.toList, Expr.name text position ∈ value.nodes := by
  cases e with
  | none => simp [optionalSegments]
  | some e => simp [optionalSegments, e.name_mem_segments]

theorem Variable.name_mem_segments (v : Variable) : .name text position ∈ v.segments ↔
    ∃ e ∈ v.init.toList, Expr.name text position ∈ e.nodes := by
  cases hinit : v.init with
  | none => simp [Variable.segments, hinit]
  | some init => simp [Variable.segments, hinit, init.name_mem_segments]

theorem ForInit.name_mem_segments (init : ForInit) : .name text position ∈ init.segments ↔
    ∃ e ∈ init.expressions, Expr.name text position ∈ e.nodes := by
  cases init with
  | declare v => exact v.name_mem_segments
  | expression e => simp [ForInit.segments, ForInit.expressions, e.name_mem_segments]

mutual

/-- The names among the segments of a statement are those in its expressions. -/
theorem Stmt.name_mem_segmentLines : ∀ (level : Nat) (lead : String) (s : Stmt),
    .name text position ∈ (s.segmentLines level lead).flatten ↔ NamedIn s.nodes text position
  | level, _, .block statements _ => by
    simp [Stmt.segmentLines, Stmt.nodes, Stmt.expressions, -List.mem_flatten,
      name_mem_statementSegmentLines (level + 1) statements]
  | _, _, .declare v => by
    simp [Stmt.segmentLines, Stmt.nodes, Stmt.expressions, v.name_mem_segments]
  | level, _, .ifElse condition consequent none _ => by
    simp [Stmt.segmentLines, Stmt.nodes, Stmt.expressions, -List.mem_flatten,
      condition.name_mem_segments, consequent.name_mem_segmentLines (consequent.bodyLevel level) ""]
  | level, _, .ifElse condition consequent (some alternative) _ => by
    have hother : .name text position ∈
        (if alternative.isIf then alternative.segmentLines level "else "
          else segmentLine level [.fixed "else"] ::
            alternative.segmentLines (alternative.bodyLevel level) "").flatten ↔
        NamedIn alternative.nodes text position := by
      split
      · exact alternative.name_mem_segmentLines level "else "
      · simp [-List.mem_flatten,
          alternative.name_mem_segmentLines (alternative.bodyLevel level) ""]
    simp [Stmt.segmentLines, Stmt.nodes, Stmt.expressions, -List.mem_flatten,
      condition.name_mem_segments, hother,
      consequent.name_mem_segmentLines (consequent.bodyLevel level) ""]
  | level, _, .whileLoop condition body _ => by
    simp [Stmt.segmentLines, Stmt.nodes, Stmt.expressions, -List.mem_flatten,
      condition.name_mem_segments, body.name_mem_segmentLines (body.bodyLevel level) ""]
  | level, _, .forLoop init condition update body _ => by
    have hinit : .name text position ∈ (init.map ForInit.segments).getD [] ↔
        ∃ e ∈ (init.map ForInit.expressions).getD [], Expr.name text position ∈ e.nodes := by
      cases init with
      | none => simp
      | some init => exact init.name_mem_segments
    simp [Stmt.segmentLines, Stmt.nodes, Stmt.expressions, -List.mem_flatten, hinit,
      name_mem_optionalSegments, or_and_right, exists_or, or_assoc,
      body.name_mem_segmentLines (body.bodyLevel level) ""]
  | level, _, .switch subject cases none _ => by
    simp [Stmt.segmentLines, Stmt.nodes, Stmt.expressions, -List.mem_flatten, or_assoc,
      subject.name_mem_segments, name_mem_clauseSegmentLines level cases]
  | level, _, .switch subject cases (some fallback) _ => by
    simp [Stmt.segmentLines, Stmt.nodes, Stmt.expressions, -List.mem_flatten, or_assoc,
      subject.name_mem_segments, name_mem_clauseSegmentLines level cases,
      name_mem_statementSegmentLines (level + 1) fallback]
  | _, _, .returns none _ => by simp [Stmt.segmentLines, Stmt.nodes, Stmt.expressions]
  | _, _, .returns (some value) _ => by
    simp [Stmt.segmentLines, Stmt.nodes, Stmt.expressions, value.name_mem_segments]
  | _, _, .breaks _ => by simp [Stmt.segmentLines, Stmt.nodes, Stmt.expressions]
  | _, _, .continues _ => by simp [Stmt.segmentLines, Stmt.nodes, Stmt.expressions]
  | _, _, .expression e _ => by
    simp [Stmt.segmentLines, Stmt.nodes, Stmt.expressions, e.name_mem_segments]

theorem name_mem_statementSegmentLines : ∀ (level : Nat) (ss : List Stmt),
    .name text position ∈ (statementSegmentLines level ss).flatten ↔
      NamedIn (statementNodes ss) text position
  | _, [] => by simp [statementSegmentLines, statementNodes, namedIn_nil]
  | level, s :: ss => by
    rw [statementSegmentLines, statementNodes, List.flatten_append, List.mem_append,
      namedIn_append, s.name_mem_segmentLines level "", name_mem_statementSegmentLines level ss]

/-- The expression of a clause belongs to the `switch`. -/
theorem name_mem_clauseSegmentLines : ∀ (level : Nat) (cases : List Clause),
    .name text position ∈ (clauseSegmentLines level cases).flatten ↔
      (∃ e ∈ cases.map Clause.value, Expr.name text position ∈ e.nodes) ∨
        NamedIn (clauseNodes cases) text position
  | _, [] => by simp [clauseSegmentLines, clauseNodes, namedIn_nil]
  | level, .case value statements _ :: others => by
    simp [clauseSegmentLines, clauseNodes, Clause.value, -List.mem_flatten, or_assoc,
      value.name_mem_segments, name_mem_statementSegmentLines (level + 1) statements,
      name_mem_clauseSegmentLines level others, or_left_comm]

end

theorem Declaration.name_mem_segmentLines (d : Declaration) :
    .name text position ∈ d.segmentLines.flatten ↔ NamedIn d.nodes text position := by
  cases d with
  | function f =>
    simp [Declaration.segmentLines, Declaration.nodes, -List.mem_flatten,
      Stmt.name_mem_segmentLines, Stmt.nodes, Stmt.expressions]
  | global v =>
    simp [Declaration.segmentLines, Declaration.nodes, Stmt.expressions, v.name_mem_segments]
  | statement s => exact s.name_mem_segmentLines 0 ""

theorem Program.name_mem_segments (program : Program) :
    .name text position ∈ program.segments ↔ NamedIn program.statements text position := by
  have hpreamble : .name text position ∉
      (preamble.map fun line => [Segment.fixed line]).flatten := by
    simp
  rw [segments, name_mem_intercalate, List.flatten_append, List.mem_append, statements]
  refine (or_iff_right hpreamble).trans ?_
  induction program with
  | nil => simp
  | cons d program ih =>
    simp [-List.mem_flatten, d.name_mem_segmentLines, ih]

end Names

end KanaScript
