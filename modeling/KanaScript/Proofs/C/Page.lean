import KanaScript.C.Program
import KanaScript.Proofs.C.ProgramTokens

/-! Printing a program line by line.  The printer keeps a page: the lines written so far, and the
level of the next one.  It goes deeper and back as it walks through the tree, and an `if` after an
`else` goes on with the last line.  What it writes are the lines of the tree, after all lines that
were there, and it ends at the level where it started. -/

namespace KanaScript

namespace C

/-- The lines written so far, and the level of the next one. -/
structure Page where
  lines : List String
  level : Nat

namespace Page

def blank : Page := ⟨[], 0⟩

/-- The page with lines below its own. -/
def add (page : Page) (lines : List String) : Page := { page with lines := page.lines ++ lines }

/-- A new line at the level of the page. -/
def put (page : Page) (code : String) : Page := page.add [line page.level code]

/-- More of the last line.  Without a last line, a new one starts. -/
def extend (page : Page) (code : String) : Page :=
  match page.lines.getLast? with
  | some last => { page with lines := page.lines.dropLast ++ [last ++ code] }
  | none => page.put (String.ofList (code.toList.dropWhile isSpace))

def indent (page : Page) : Page := { page with level := page.level + 1 }

def dedent (page : Page) : Page := { page with level := page.level - 1 }

/-- A head, on a line of its own or, if `joined`, on that of the `else` before it. -/
def head (page : Page) (joined : Bool) (code : String) : Page :=
  if joined then page.extend (" " ++ code) else page.put code

/-- A body under its head: a block at the same level, anything else one level deeper. -/
def body (page : Page) (s : Stmt) (print : Page → Page) : Page :=
  match s with
  | .block _ _ => print page
  | _ => (print page.indent).dedent

end Page

end C

open C

mutual

/-- The page after a statement.  An `if` may be `joined` to the `else` that the page ends with. -/
def Stmt.print (joined : Bool) : Stmt → Page → Page
  | .block statements _, page =>
    ((printStatements statements (page.put "\x7b").indent).dedent).put "\x7d"
  | .declare v, page => page.put (v.code ++ ";")
  | .ifElse condition consequent none _, page =>
    (page.head joined ("if (" ++ condition.code ++ ")")).body consequent (consequent.print false)
  | .ifElse condition consequent (some alternative) _, page =>
    let page := ((page.head joined ("if (" ++ condition.code ++ ")")).body consequent
      (consequent.print false)).put "else"
    if alternative.isIf then alternative.print true page
    else page.body alternative (alternative.print false)
  | .whileLoop condition body _, page =>
    (page.put ("while (" ++ condition.code ++ ")")).body body (body.print false)
  | .forLoop init condition update body _, page =>
    (page.put ("for (" ++ (init.map ForInit.code).getD "" ++ "; " ++ optionalCode condition ++
      "; " ++ optionalCode update ++ ")")).body body (body.print false)
  | .switch subject cases none _, page =>
    (printClauses cases ((page.put ("switch (" ++ subject.code ++ ")")).put "\x7b")).put "\x7d"
  | .switch subject cases (some fallback) _, page =>
    let page := printClauses cases ((page.put ("switch (" ++ subject.code ++ ")")).put "\x7b")
    ((printStatements fallback (page.put "default:").indent).dedent).put "\x7d"
  | .returns none _, page => page.put "return;"
  | .returns (some value) _, page => page.put ("return " ++ value.code ++ ";")
  | .breaks _, page => page.put "break;"
  | .continues _, page => page.put "continue;"
  | .expression e _, page => page.put (e.code ++ ";")

def printStatements : List Stmt → Page → Page
  | [], page => page
  | s :: ss, page => printStatements ss (s.print false page)

def printClauses : List Clause → Page → Page
  | [], page => page
  | .case value statements _ :: others, page =>
    printClauses others
      (printStatements statements (page.put ("case " ++ value.code ++ ":")).indent).dedent

end

def Declaration.print : Declaration → Page → Page
  | function f, page =>
    (Stmt.block f.body.statements f.body.position).print false (page.put f.header)
  | global v, page => page.put (v.code ++ ";")
  | statement s, page => s.print false page

/-- The page of a program. -/
def Program.print (program : Program) : Page :=
  program.foldl (fun page d => (d.print page).put "") (preamble.foldl Page.put Page.blank)

section Printed

namespace C.Page

variable (page : Page)

@[simp]
theorem level_add (lines : List String) : (page.add lines).level = page.level := rfl

@[simp]
theorem add_add (lines more : List String) :
    (page.add lines).add more = page.add (lines ++ more) := by
  simp [add]

theorem put_eq (code : String) : page.put code = page.add [line page.level code] := rfl

@[simp]
theorem level_indent : page.indent.level = page.level + 1 := rfl

/-- What was written one level deeper stays below, and the level is the old one again. -/
@[simp]
theorem dedent_add_indent (lines : List String) :
    (page.indent.add lines).dedent = page.add lines := rfl

/-- A statement starts on a line of its own or, if it is an `if`, right after an `else`. -/
inductive Starts (page : Page) : Stmt → Bool → String → Page → Prop
  | fresh {s : Stmt} : Starts page s false "" page
  | afterElse {condition : Expr} {consequent : Stmt} {alternative : Option Stmt}
      {position : Position} : Starts page (.ifElse condition consequent alternative position) true
        "else " (page.put "else")

theorem Starts.of_isIf {page : Page} {s : Stmt} (h : s.isIf = true) :
    Starts page s true "else " (page.put "else") := by
  cases s with
  | ifElse condition consequent alternative position => exact .afterElse
  | _ => cases h

theorem Starts.head_eq {page start : Page} {s : Stmt} {joined : Bool} {lead : String}
    (h : Starts page s joined lead start) (code : String) :
    start.head joined code = page.add [line page.level (lead ++ code)] := by
  cases h with
  | fresh => simp [head, put_eq]
  | afterElse =>
    have hlead : "else " ++ code = "else" ++ (" " ++ code) := by
      rw [← String.append_assoc]
      rfl
    simp [head, put, add, extend, line, String.append_assoc, hlead]

theorem body_eq {s : Stmt} {print : Page → Page}
    (h : ∀ page : Page, print page = page.add (s.lines page.level "")) :
    page.body s print = page.add (s.lines (s.bodyLevel page.level) "") := by
  cases s with
  | block statements position => exact h page
  | _ => exact (congrArg dedent (h page.indent)).trans (dedent_add_indent page _)

end C.Page

open C.Page

mutual

/-- A statement is printed as its lines, below those of the page and at its level. -/
theorem Stmt.print_eq : ∀ {s : Stmt} {page start : Page} {joined : Bool} {lead : String},
    Starts page s joined lead start →
    s.print joined start = page.add (s.lines page.level lead)
  | .ifElse condition consequent none _, page, _, _, _, h => by
    rw [Stmt.print, Stmt.lines, h.head_eq, body_eq _ fun _ => consequent.print_eq .fresh]
    simp [String.append_assoc]
  | .ifElse condition consequent (some alternative) _, page, _, _, _, h => by
    rw [Stmt.print, Stmt.lines, h.head_eq, body_eq _ fun _ => consequent.print_eq .fresh]
    split
    · rename_i hif
      rw [alternative.print_eq (.of_isIf hif)]
      simp [String.append_assoc]
    · rw [body_eq _ fun _ => alternative.print_eq .fresh, put_eq]
      simp [String.append_assoc]
  | .block statements _, page, _, _, _, .fresh => by
    rw [Stmt.print, Stmt.lines]
    simp [put_eq, printStatements_eq statements]
  | .declare v, page, _, _, _, .fresh => by
    rw [Stmt.print, Stmt.lines, put_eq]
  | .whileLoop condition body _, page, _, _, _, .fresh => by
    rw [Stmt.print, Stmt.lines, body_eq _ fun _ => body.print_eq .fresh]
    simp [put_eq]
  | .forLoop init condition update body _, page, _, _, _, .fresh => by
    rw [Stmt.print, Stmt.lines, body_eq _ fun _ => body.print_eq .fresh]
    simp [put_eq]
  | .switch subject cases none _, page, _, _, _, .fresh => by
    rw [Stmt.print, Stmt.lines]
    simp [put_eq, printClauses_eq cases]
  | .switch subject cases (some fallback) _, page, _, _, _, .fresh => by
    rw [Stmt.print, Stmt.lines]
    simp [put_eq, printClauses_eq cases, printStatements_eq fallback]
  | .returns none _, page, _, _, _, .fresh => by
    rw [Stmt.print, Stmt.lines, put_eq]
  | .returns (some value) _, page, _, _, _, .fresh => by
    rw [Stmt.print, Stmt.lines, put_eq]
  | .breaks _, page, _, _, _, .fresh => by
    rw [Stmt.print, Stmt.lines, put_eq]
  | .continues _, page, _, _, _, .fresh => by
    rw [Stmt.print, Stmt.lines, put_eq]
  | .expression e _, page, _, _, _, .fresh => by
    rw [Stmt.print, Stmt.lines, put_eq]

theorem printStatements_eq : ∀ (ss : List Stmt) (page : Page),
    printStatements ss page = page.add (statementLines page.level ss)
  | [], page => by simp [printStatements, statementLines, add]
  | s :: ss, page => by
    rw [printStatements, statementLines, s.print_eq .fresh, printStatements_eq ss, add_add,
      level_add]

theorem printClauses_eq : ∀ (cases : List Clause) (page : Page),
    printClauses cases page = page.add (clauseLines page.level cases)
  | [], page => by simp [printClauses, clauseLines, add]
  | .case value statements _ :: others, page => by
    rw [printClauses, clauseLines, printStatements_eq statements, dedent_add_indent,
      printClauses_eq others]
    simp [put_eq]

end

theorem Declaration.print_eq (d : Declaration) (page : Page) (h : page.level = 0) :
    d.print page = page.add d.lines := by
  cases d with
  | function f =>
    rw [Declaration.print, Declaration.lines, Function.lines, Stmt.print_eq .fresh]
    simp [put_eq, h]
  | global v => rw [Declaration.print, Declaration.lines, put_eq, h]
  | statement s => rw [Declaration.print, Declaration.lines, s.print_eq .fresh, h]

theorem print_declarations_eq (ds : List Declaration) (page : Page) (h : page.level = 0) :
    ds.foldl (fun page d => (d.print page).put "") page =
      page.add (ds.flatMap fun d => d.lines ++ [""]) := by
  induction ds generalizing page with
  | nil => simp [add]
  | cons d ds ih =>
    have hblank : (page.add d.lines).put "" = page.add (d.lines ++ [""]) := by
      rw [put_eq, level_add, h, add_add]
      rfl
    rw [List.foldl_cons, d.print_eq page h, hblank, ih (page.add _) h, add_add,
      List.flatMap_cons]

/-- A program is printed as its lines, and the page ends at the level where it started. -/
theorem Program.print_eq (program : Program) : program.print = ⟨program.lines, 0⟩ := by
  have hpreamble : preamble.foldl Page.put Page.blank = ⟨preamble, 0⟩ := rfl
  rw [Program.print, hpreamble, print_declarations_eq program _ rfl]
  rfl

end Printed

section Indentation

theorem C.line_line (level deeper : Nat) (code : String) :
    line level (line deeper code) = line (level + deeper) code := by
  apply String.toList_inj.mp
  simp only [line, String.toList_append, toList_pushn, ← List.append_assoc,
    List.replicate_append_replicate, Nat.mul_add]

theorem Stmt.bodyLevel_add (level deeper : Nat) (s : Stmt) :
    s.bodyLevel (level + deeper) = level + s.bodyLevel deeper := by
  cases s <;> rfl

mutual

/-- Deeper down, a statement has the same lines with more blanks in front. -/
theorem Stmt.lines_add (level : Nat) : ∀ (s : Stmt) (deeper : Nat) (lead : String),
    s.lines (level + deeper) lead = (s.lines deeper lead).map (line level)
  | .block statements _, deeper, _ => by
    simp [Stmt.lines, line_line, statementLines_add level statements, Nat.add_assoc]
  | .declare v, deeper, _ => by simp [Stmt.lines, line_line]
  | .ifElse condition consequent none _, deeper, _ => by
    simp [Stmt.lines, line_line, Stmt.bodyLevel_add, consequent.lines_add level]
  | .ifElse condition consequent (some alternative) _, deeper, _ => by
    rw [Stmt.lines, Stmt.lines]
    split
    · simp [line_line, Stmt.bodyLevel_add, consequent.lines_add level, alternative.lines_add level]
    · simp [line_line, Stmt.bodyLevel_add, consequent.lines_add level, alternative.lines_add level]
  | .whileLoop condition body _, deeper, _ => by
    simp [Stmt.lines, line_line, Stmt.bodyLevel_add, body.lines_add level]
  | .forLoop init condition update body _, deeper, _ => by
    simp [Stmt.lines, line_line, Stmt.bodyLevel_add, body.lines_add level]
  | .switch subject cases none _, deeper, _ => by
    simp [Stmt.lines, line_line, clauseLines_add level cases]
  | .switch subject cases (some fallback) _, deeper, _ => by
    simp [Stmt.lines, line_line, clauseLines_add level cases, statementLines_add level fallback,
      Nat.add_assoc]
  | .returns none _, deeper, _ => by simp [Stmt.lines, line_line]
  | .returns (some value) _, deeper, _ => by simp [Stmt.lines, line_line]
  | .breaks _, deeper, _ => by simp [Stmt.lines, line_line]
  | .continues _, deeper, _ => by simp [Stmt.lines, line_line]
  | .expression e _, deeper, _ => by simp [Stmt.lines, line_line]

theorem statementLines_add (level : Nat) : ∀ (ss : List Stmt) (deeper : Nat),
    statementLines (level + deeper) ss = (statementLines deeper ss).map (line level)
  | [], _ => by simp [statementLines]
  | s :: ss, deeper => by
    simp [statementLines, s.lines_add level, statementLines_add level ss]

theorem clauseLines_add (level : Nat) : ∀ (cases : List Clause) (deeper : Nat),
    clauseLines (level + deeper) cases = (clauseLines deeper cases).map (line level)
  | [], _ => by simp [clauseLines]
  | .case value statements _ :: others, deeper => by
    simp [clauseLines, line_line, statementLines_add level statements,
      clauseLines_add level others, Nat.add_assoc]

end

end Indentation

end KanaScript
