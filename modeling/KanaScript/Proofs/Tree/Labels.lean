import KanaScript.Proofs.C.Lines
import KanaScript.Proofs.Text.Run
import KanaScript.Tree.Listing

/-! The lines of a listing as labels at depths.  The lines of a forest of labels tell the forest: a
node ends in front of the next line that is not deeper. -/

namespace KanaScript

open C (Unbroken)

/-- What a line of a listing starts with, which tells the kind of its node. -/
inductive Tag
  | functionDecl
  | parameter
  | varDecl
  | blockStmt
  | ifStmt
  | whileStmt
  | forStmt
  | switchStmt
  | caseClause
  | defaultClause
  | returnStmt
  | breakStmt
  | continueStmt
  | exprStmt
  | binaryExpr
  | unaryExpr
  | assignExpr
  | callExpr
  | indexExpr
  | identifier
  | numberLiteral
  | stringLiteral
  | charLiteral
deriving DecidableEq

namespace Tag

def all : List Tag :=
  [functionDecl, parameter, varDecl, blockStmt, ifStmt, whileStmt, forStmt, switchStmt, caseClause,
    defaultClause, returnStmt, breakStmt, continueStmt, exprStmt, binaryExpr, unaryExpr, assignExpr,
    callExpr, indexExpr, identifier, numberLiteral, stringLiteral, charLiteral]

def text : Tag → String
  | functionDecl => "FunctionDecl: "
  | parameter => "Parameter: "
  | varDecl => "VarDecl: "
  | blockStmt => "BlockStmt"
  | ifStmt => "IfStmt"
  | whileStmt => "WhileStmt"
  | forStmt => "ForStmt"
  | switchStmt => "SwitchStmt"
  | caseClause => "CaseClause"
  | defaultClause => "DefaultClause"
  | returnStmt => "ReturnStmt"
  | breakStmt => "BreakStmt"
  | continueStmt => "ContinueStmt"
  | exprStmt => "ExprStmt"
  | binaryExpr => "BinaryExpr: "
  | unaryExpr => "UnaryExpr: "
  | assignExpr => "AssignExpr"
  | callExpr => "CallExpr"
  | indexExpr => "IndexExpr"
  | identifier => "Identifier: "
  | numberLiteral => "NumberLiteral: "
  | stringLiteral => "StringLiteral: "
  | charLiteral => "CharLiteral: "

theorem mem_all (tag : Tag) : tag ∈ all := by
  cases tag <;> decide

/-- No tag starts another. -/
theorem eq_of_starts {tag other : Tag} (h : tag.text.toList <+: other.text.toList) :
    tag = other :=
  (by decide : ∀ tag ∈ all, ∀ other ∈ all, tag.text.toList <+: other.text.toList → tag = other)
    tag tag.mem_all other other.mem_all h

theorem head_text (tag : Tag) : ∃ c cs, tag.text.toList = c :: cs ∧ c ≠ ' ' := by
  cases tag <;> exact ⟨_, _, rfl, by decide⟩

end Tag

/-- A tag and what follows it on its line. -/
structure Label where
  tag : Tag
  detail : String

namespace Label

def text (label : Label) : String := label.tag.text ++ label.detail

/-- The label as a line at a depth. -/
def line (depth : Nat) (label : Label) : String := listingLine depth label.text

theorem text_injective {label other : Label} (h : label.text = other.text) : label = other := by
  obtain ⟨tag, detail⟩ := label
  obtain ⟨tag', detail'⟩ := other
  have hlist := congrArg String.toList h
  simp only [text, String.toList_append] at hlist
  obtain rfl : tag = tag' := by
    rcases List.append_eq_append_iff.mp hlist with ⟨cs, htag, -⟩ | ⟨cs, htag, -⟩
    · exact Tag.eq_of_starts ⟨cs, htag.symm⟩
    · exact (Tag.eq_of_starts ⟨cs, htag.symm⟩).symm
  rw [String.toList_inj.mp (List.append_cancel_left hlist)]

theorem toList_line (depth : Nat) (label : Label) :
    (label.line depth).toList = List.replicate (2 * depth) ' ' ++ label.text.toList := by
  rw [line, listingLine, String.toList_append, C.toList_pushn]

/-- The blanks in front of a label are as many as they can be. -/
theorem isRun_blanks (n : Nat) (label : Label) :
    Text.IsRun (· == ' ') (List.replicate n ' ') label.text.toList := by
  refine ⟨fun c hc => by rw [List.eq_of_mem_replicate hc]; rfl, ?_⟩
  obtain ⟨c, cs, htag, hc⟩ := label.tag.head_text
  rw [text, String.toList_append, htag]
  simpa using hc

/-- A line tells its depth and its label. -/
theorem line_injective {depth depth' : Nat} {label other : Label}
    (h : label.line depth = other.line depth') : depth = depth' ∧ label = other := by
  have hlist := congrArg String.toList h
  rw [toList_line, toList_line] at hlist
  obtain ⟨hblanks, htext⟩ := (isRun_blanks _ label).unique (isRun_blanks _ other) hlist
  have hlength := congrArg List.length hblanks
  simp only [List.length_replicate] at hlength
  exact ⟨by omega, text_injective (String.toList_inj.mp htext)⟩

end Label

/-- Labels, each with those below it. -/
inductive LabelTree
  | node (label : Label) (children : List LabelTree)

namespace LabelTree

mutual

/-- The labels of a tree in the order of its lines, with their depths. -/
def rows (depth : Nat) : LabelTree → List (Nat × Label)
  | .node label children => (depth, label) :: forestRows (depth + 1) children

def forestRows (depth : Nat) : List LabelTree → List (Nat × Label)
  | [] => []
  | t :: ts => t.rows depth ++ forestRows depth ts

end

/-- The first row is less deep. -/
def IsShallow (depth : Nat) (rows : List (Nat × Label)) : Prop :=
  ∀ row ∈ rows.head?, row.1 < depth

variable {depth : Nat} {rest more : List (Nat × Label)}

theorem not_isShallow {label : Label} : ¬IsShallow depth ((depth, label) :: rest) :=
  fun h => Nat.lt_irrefl depth (h (depth, label) rfl)

theorem isShallow_forestRows (h : IsShallow depth rest) (ts : List LabelTree) :
    IsShallow (depth + 1) (forestRows depth ts ++ rest) := by
  cases ts with
  | nil => exact fun row hrow => Nat.lt_succ_of_lt (h row hrow)
  | cons t ts =>
    cases t with
    | node label children =>
      intro row hrow
      obtain rfl := Option.some.inj hrow
      exact Nat.lt_succ_self depth

/-- The rows of a forest end where a row is less deep. -/
theorem forestRows_append_inj : ∀ {ts us : List LabelTree} {depth : Nat}
    {rest more : List (Nat × Label)}, IsShallow depth rest → IsShallow depth more →
    forestRows depth ts ++ rest = forestRows depth us ++ more → ts = us ∧ rest = more
  | [], [], _, _, _, _, _, h => ⟨rfl, h⟩
  | [], .node _ _ :: _, _, _, _, hrest, _, h => by
    simp only [forestRows, rows, List.nil_append, List.cons_append] at h
    rw [h] at hrest
    exact absurd hrest not_isShallow
  | .node _ _ :: _, [], _, _, _, _, hmore, h => by
    simp only [forestRows, rows, List.nil_append, List.cons_append] at h
    rw [← h] at hmore
    exact absurd hmore not_isShallow
  | .node label children :: ts, .node label' children' :: us, depth, rest, more, hrest, hmore,
    h => by
    simp only [forestRows, rows, List.cons_append, List.append_assoc, List.cons.injEq,
      Prod.mk.injEq, true_and] at h
    obtain ⟨rfl, h⟩ := h
    obtain ⟨rfl, hothers⟩ := forestRows_append_inj (isShallow_forestRows hrest ts)
      (isShallow_forestRows hmore us) h
    obtain ⟨rfl, hrows⟩ := forestRows_append_inj hrest hmore hothers
    exact ⟨rfl, hrows⟩

section Lines

variable {label : Label} {t : LabelTree} {ts us : List LabelTree}

/-- The lines of a tree. -/
def lines (depth : Nat) (t : LabelTree) : List String :=
  (t.rows depth).map fun row => row.2.line row.1

def forestLines (depth : Nat) (ts : List LabelTree) : List String :=
  (forestRows depth ts).map fun row => row.2.line row.1

@[simp]
theorem lines_node : (node label ts).lines depth =
    label.line depth :: forestLines (depth + 1) ts := by
  rw [lines, rows]
  rfl

@[simp]
theorem forestLines_nil : forestLines depth [] = [] := rfl

@[simp]
theorem forestLines_cons : forestLines depth (t :: ts) = t.lines depth ++ forestLines depth ts := by
  simp [lines, forestLines, forestRows]

@[simp]
theorem forestLines_append : forestLines depth (ts ++ us) =
    forestLines depth ts ++ forestLines depth us := by
  induction ts with
  | nil => rfl
  | cons t ts ih => simp [ih]

/-- No line of the tree is broken. -/
def IsUnbroken (t : LabelTree) : Prop := ∀ depth, ∀ line ∈ t.lines depth, Unbroken line

theorem unbroken_text (tag : Tag) : Unbroken tag.text := by
  cases tag <;> decide

theorem unbroken_line (h : Unbroken label.detail) (depth : Nat) :
    Unbroken (label.line depth) := by
  have hblanks : Unbroken ("".pushn ' ' (2 * depth)) := by
    rw [Unbroken, C.toList_pushn]
    simp
  rw [Label.line, listingLine, Label.text, C.unbroken_append, C.unbroken_append]
  exact ⟨hblanks, unbroken_text _, h⟩

theorem unbroken_forestLines (h : ∀ t ∈ ts, t.IsUnbroken) (depth : Nat) :
    ∀ line ∈ forestLines depth ts, Unbroken line := by
  induction ts with
  | nil => simp
  | cons t ts ih =>
    obtain ⟨ht, hts⟩ := List.forall_mem_cons.mp h
    rw [forestLines_cons, List.forall_mem_append]
    exact ⟨ht depth, ih hts⟩

theorem isUnbroken_node (hlabel : Unbroken label.detail)
    (h : ∀ t ∈ ts, t.IsUnbroken) : (node label ts).IsUnbroken := by
  intro depth
  rw [lines_node, List.forall_mem_cons]
  exact ⟨unbroken_line hlabel depth, unbroken_forestLines h (depth + 1)⟩

end Lines

end LabelTree

end KanaScript
