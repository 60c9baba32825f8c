import KanaScript.Inspector.Highlight.Code
import KanaScript.Inspector.Highlight.Listing
import KanaScript.Inspector.Highlight.Script
import KanaScript.Text.Lines

/-! The panes of the inspector.  A pane is drawn for a scroll offset, which it first brings into the
range that its lines and its height allow. -/

namespace KanaScript.Inspector

/-- A drawn pane and the offset that it was drawn for. -/
structure Drawn where
  rows : List Row
  scroll : Nat

/-- The offset as far as `total` lines reach when `visible` of them are seen. -/
def clampScroll (offset total visible : Nat) : Nat :=
  if visible < total then min offset (total - visible) else 0

/-- The offset that brings the line `selected` into view with the least change. -/
def followSelection (offset selected visible : Nat) : Nat :=
  if selected < offset then selected
  else if offset + visible ≤ selected then selected + 1 - visible
  else offset

namespace Pane

/-- The number of a line before its text. -/
def lineNumber (number : Nat) : List Char :=
  let digits := (Nat.repr number).toList
  List.replicate (4 - digits.length) ' ' ++ digits ++ [' ']

/-- A line of the source with its number.  The line of an error loses its colours, the current line
gets a background. -/
def sourceRow (current : Nat) (errorLine : Option Nat) (number : Nat) (line : List Char) : Row :=
  let spans := Highlight.script line
  if errorLine = some number then
    Row.ofText (lineNumber number) (Style.colored Theme.error).strong ++
      Row.ofSpans (spans.map fun span =>
        { span with style := ((Style.colored .white).on Theme.error).strong })
  else if number = current then
    Row.ofText (lineNumber number) (Style.colored Theme.secondary).strong ++
      Row.ofSpans (spans.map fun span => { span with style := span.style.on Theme.currentLine })
  else Row.ofText (lineNumber number) (.colored Theme.comment) ++ Row.ofSpans spans

/-- The source text. -/
def source (area : Area) (text : String) (current : Nat) (errorLine : Option Nat)
    (focused : Bool) (scroll : Nat) : Drawn :=
  let lines := Text.lines text.toList
  let scroll := clampScroll scroll lines.length area.visible
  let shown := (lines.drop scroll).take area.visible
  let rows := shown.zipIdx.map fun (line, i) => sourceRow current errorLine (scroll + i + 1) line
  ⟨area.bordered " Source " (Theme.borderStyle focused) {} rows, scroll⟩

def tokenStyle (isSelected : Bool) : Style :=
  if isSelected then ((Style.colored Theme.secondary).on Theme.currentLine).strong
  else .colored Theme.plain

/-- The rows of an entry of a list, one for each of its lines and at least one. -/
def entry (columns : Nat) (style : Style) (text : List Char) : List Row :=
  let lines := if text.isEmpty then [[]] else Text.lines text
  lines.map fun line =>
    Row.blanks 1 {} ++ Row.fill columns style (Row.pack columns (Row.ofText line style))

/-- The entries before the first that does not fit into `height` rows. -/
def stack (height : Nat) : List (List Row) → List Row
  | [] => []
  | rows :: others =>
    if rows.length ≤ height then rows ++ stack (height - rows.length) others else []

/-- The token listing, with one token selected and always in view. -/
def tokens (area : Area) (lines : List String) (selected : Nat) (focused : Bool) (scroll : Nat) :
    Drawn :=
  let visible := area.visible
  let scroll := clampScroll (followSelection scroll selected visible) lines.length visible
  let shown := (lines.drop scroll).take visible
  let entries := shown.zipIdx.map fun (line, i) =>
    entry (area.width - 3) (tokenStyle (scroll + i == selected)) line.toList
  let rows := stack (area.height - 2) entries
  let title := " Tokens (" ++ Nat.repr lines.length ++ ") "
  ⟨area.bordered title (Theme.borderStyle focused) {} rows, scroll⟩

/-- The tree listing; no line means that there is no tree. -/
def tree (area : Area) (lines : List String) (focused : Bool) (scroll : Nat) : Drawn :=
  if lines.isEmpty then
    let style := Style.colored Theme.comment
    ⟨area.bordered " AST " (Theme.borderStyle focused) style
      [Row.ofText "(no tree)".toList style], scroll⟩
  else
    let scroll := clampScroll scroll lines.length area.visible
    let shown := (lines.drop scroll).take area.visible
    let rows := shown.map fun line => Row.ofSpans (Highlight.listing line.toList)
    ⟨area.bordered " AST " (Theme.borderStyle focused) {} rows, scroll⟩

/-- The C text, or the message of the error that prevented it. -/
def output (area : Area) (result : Except String String) (focused : Bool) (scroll : Nat) : Drawn :=
  match result with
  | .error message =>
    let style := (Style.colored Theme.error).strong
    let rows := (Text.lines message.toList).map fun line => Row.ofText line style
    ⟨area.bordered " Parse Error " style style rows, scroll⟩
  | .ok text =>
    let lines := Text.lines text.toList
    let scroll := clampScroll scroll lines.length area.visible
    let shown := (lines.drop scroll).take area.visible
    let rows := shown.map fun line => Row.ofSpans (Highlight.code line)
    ⟨area.bordered " Generated C " (Theme.borderStyle focused) {} rows, scroll⟩

/-- The bar at the bottom: the state and a message on the left, the keys on the right. -/
def status (width : Nat) (message focusName : String) (failed : Bool) : Row :=
  let bar : Style := { background := some Theme.currentLine }
  let badge (color : Color) : Style := ((Style.colored .black).on color).strong
  let key := (Style.colored .black).on Theme.comment
  let onBar (color : Color) : Style := { bar with foreground := some color }
  let plain := onBar Theme.plain
  let faint := onBar Theme.comment
  let left :=
    Row.ofText (if failed then " ERROR " else " OK ").toList
        (badge (if failed then Theme.error else Theme.success)) ++
      Row.ofText " | ".toList faint ++
      Row.ofText (" " ++ message ++ " ").toList (if failed then onBar Theme.error else plain)
  let help (keys action : String) : Row :=
    Row.ofText keys.toList key ++ Row.ofText action.toList plain ++ Row.ofText ['│'] faint
  let gap := Row.ofText [' '] plain
  let right :=
    help " ⇥ " " focus " ++ gap ++ help " ↑/↓ " " move " ++ gap ++ help " PgUp/PgDn " " page " ++
      gap ++ help "q" " quit " ++ Row.ofText (" " ++ focusName ++ " ").toList (badge Theme.primary)
  let half := Area.share width 50
  Row.fill half bar left ++ Row.fillRight (width - half) bar right

end Pane

end KanaScript.Inspector
