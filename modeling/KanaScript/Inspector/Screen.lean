import KanaScript.Text.Cluster
import KanaScript.Text.Width

/-! Styled text on a screen of cells.  A row is a list of glyphs, each a cluster of characters with
the number of columns that it fills. -/

namespace KanaScript.Inspector

inductive Color
  | rgb (red green blue : UInt8)
  | black
  | white
deriving DecidableEq

/-- A missing colour is the one that the screen has by itself. -/
structure Style where
  foreground : Option Color := none
  background : Option Color := none
  bold : Bool := false
deriving DecidableEq

/-- The style of text in one colour. -/
def Style.colored (color : Color) : Style := { foreground := some color }

def Style.on (style : Style) (color : Color) : Style := { style with background := some color }

def Style.strong (style : Style) : Style := { style with bold := true }

/-- A part of a line in one style. -/
structure Span where
  text : List Char
  style : Style
deriving DecidableEq

/-- The characters of a line of spans. -/
def Span.lineText (spans : List Span) : List Char := spans.flatMap Span.text

structure Glyph where
  text : List Char
  width : Nat
  style : Style

abbrev Row := List Glyph

namespace Row

/-- The clusters of a text.  A line feed by itself is not shown. -/
def ofText (text : List Char) (style : Style) : Row :=
  ((Text.clusters text).filter (· != ['\n'])).map fun cluster =>
    ⟨cluster, Text.width cluster, style⟩

/-- The clusters of each span; none reaches from one span into the next. -/
def ofSpans (spans : List Span) : Row := spans.flatMap fun span => ofText span.text span.style

def width (row : Row) : Nat := row.foldr (fun glyph columns => glyph.width + columns) 0

/-- The glyphs of `row` before the first that does not fit into `columns`. -/
def fit (columns : Nat) : Row → Row
  | [] => []
  | glyph :: others =>
    if glyph.width ≤ columns then glyph :: fit (columns - glyph.width) others else []

/-- The part of `row` that a row of `columns` columns shows.  Glyphs without a width, and those that
no such row can hold, are passed over. -/
def shown (columns : Nat) (row : Row) : Row :=
  fit columns (row.filter fun glyph => 0 < glyph.width && glyph.width ≤ columns)

def blanks (columns : Nat) (style : Style) : Row := List.replicate columns ⟨[' '], 1, style⟩

/-- A row of `columns` columns that starts with as much of `row` as it shows. -/
def fill (columns : Nat) (style : Style) (row : Row) : Row :=
  shown columns row ++ blanks (columns - width (shown columns row)) style

/-- A row of `columns` columns that ends with `row`. -/
def fillRight (columns : Nat) (style : Style) (row : Row) : Row :=
  blanks (columns - width (shown columns row)) style ++ shown columns row

/-- The glyph `before` and as many of those after it as fit into `columns` more columns.  A glyph
without a width goes into the cell of the narrow one before it; behind a wide one it is lost. -/
def packAfter (before : Glyph) (columns : Nat) : Row → Row
  | [] => [before]
  | glyph :: others =>
    if columns < glyph.width then [before]
    else if glyph.width = 0 then
      let text := if before.width = 1 then before.text ++ glyph.text else before.text
      packAfter { before with text } columns others
    else before :: packAfter glyph (columns - glyph.width) others

/-- The glyphs of `row` that fit into `columns`, where those without a width share the cell of the
glyph before them.  At the start of the row they share the cell of the first glyph with a width, and
without one nothing is shown. -/
def pack (columns : Nat) (row : Row) : Row :=
  let opening := row.takeWhile fun glyph => glyph.width == 0
  let text := opening.flatMap Glyph.text
  match row.dropWhile fun glyph => glyph.width == 0 with
  | [] => []
  | glyph :: others =>
    if glyph.width ≤ columns then
      packAfter { glyph with text := text ++ glyph.text } (columns - glyph.width) others
    else if text.isEmpty then []
    else [⟨text, 1, glyph.style⟩]

/-- Neighbours of the same style, joined. -/
def runs : Row → List Span
  | [] => []
  | glyph :: others =>
    match runs others with
    | [] => [⟨glyph.text, glyph.style⟩]
    | run :: rest =>
      if run.style = glyph.style then ⟨glyph.text ++ run.text, run.style⟩ :: rest
      else ⟨glyph.text, glyph.style⟩ :: run :: rest

end Row

/-- The size of a part of the screen. -/
structure Area where
  width : Nat
  height : Nat

namespace Area

/-- The cells that `percent` of `total` cells take, to the nearest; a half counts as one. -/
def share (total percent : Nat) : Nat := (total * percent + 50) / 100

/-- The lines that can be seen inside a border, at least one. -/
def visible (area : Area) : Nat := max (area.height - 2) 1

/-- Rows in a border with a title in it; rows that are missing are blank in the style `inner`. -/
def bordered (area : Area) (title : String) (border inner : Style) (content : List Row) :
    List Row :=
  let columns := area.width - 2
  let rows := area.height - 2
  let line := List.replicate columns '─'
  let top := Row.fit columns (Row.ofText title.toList border)
  let top := top ++ Row.ofText (line.drop (Row.width top)) border
  let shown := content.take rows
  let body := shown ++ List.replicate (rows - shown.length) []
  let side := Row.ofText ['│'] border
  let framed := body.map fun row => side ++ Row.fill columns inner row ++ side
  (Row.ofText ['┌'] border ++ top ++ Row.ofText ['┐'] border) :: framed ++
    [Row.ofText (['└'] ++ line ++ ['┘']) border] |>.take area.height

end Area

end KanaScript.Inspector
