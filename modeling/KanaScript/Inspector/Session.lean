import KanaScript.Compile
import KanaScript.Inspector.Pane
import KanaScript.Tree.Listing

/-! A session of the inspector: a source with all that compiling it yields, and what the keys have
changed since. -/

namespace KanaScript.Inspector

inductive Focus
  | source
  | tokens
  | tree
  | output
deriving DecidableEq

namespace Focus

def next : Focus → Focus
  | source => tokens
  | tokens => tree
  | tree => output
  | output => source

def previous : Focus → Focus
  | source => output
  | tokens => source
  | tree => tokens
  | output => tree

def name : Focus → String
  | source => "Source"
  | tokens => "Tokens"
  | tree => "AST"
  | output => "Output"

end Focus

inductive Key
  | up
  | down
  | pageUp
  | pageDown
  | home
  | last
  | tab (shift : Bool)
  | backTab
  | escape
  | char (c : Char)
  | other

/-- A step through the lines of a pane. -/
inductive Motion
  | back (amount : Nat)
  | forward (amount : Nat)

namespace Motion

/-- The largest offset. -/
def limit : Nat := UInt64.size - 1

/-- The offset after the motion, at least zero and at most `limit`. -/
def apply (offset : Nat) : Motion → Nat
  | back amount => offset - amount
  | forward amount => min (offset + amount) limit

/-- The lines that a page has. -/
def page : Nat := 10

def ofKey? : Key → Option Motion
  | .up => some (back 1)
  | .down => some (forward 1)
  | .pageUp => some (back page)
  | .pageDown => some (forward page)
  | .home => some (back (UInt64.size / 2))
  | .last => some (forward (UInt64.size / 2 - 1))
  | _ => none

end Motion

/-- The scroll offset of each pane. -/
structure Offsets where
  source : Nat
  tokens : Nat
  tree : Nat
  output : Nat

/-- The sizes of the four panes and of the status bar below them. -/
structure Frame where
  source : Area
  tokens : Area
  tree : Area
  output : Area
  status : Area

/-- The frame that fills a screen: the source above the tokens, the C text above the tree, the
status bar in the last row. -/
def Frame.ofScreen (screen : Area) : Frame :=
  let height := screen.height - 1
  let left := Area.share screen.width 50
  let right := screen.width - left
  let upper := Area.share height 60
  let lower := height - upper
  { source := ⟨left, upper⟩, tokens := ⟨left, lower⟩, tree := ⟨right, lower⟩,
    output := ⟨right, upper⟩, status := ⟨screen.width, min screen.height 1⟩ }

/-- What happens in a session: a key is pressed, or a frame is drawn. -/
inductive Event
  | key (key : Key)
  | draw (frame : Frame)

structure Session where
  source : String
  tokens : List Token
  /-- The lines of the tree listing, none if the source does not compile. -/
  treeLines : List String
  output : Except ParseError String
  focus : Focus
  /-- The index of the selected token. -/
  selected : Nat
  offsets : Offsets
  quit : Bool
  status : String

namespace Session

/-- The lines of the source that stay in view above the line of interest. -/
def contextLines : Nat := 3

/-- The source offset that shows `line` with its context. -/
def offsetFor (line : Nat) : Nat := line - (contextLines + 1)

/-- A session starts at the first token, or at the one where reading failed. -/
def start (source : String) : Session :=
  let tokens := tokenize source
  match parse tokens with
  | .ok program =>
    { source, tokens, treeLines := Program.listing program, output := .ok (Program.code program),
      focus := .source, selected := 0, offsets := ⟨0, 0, 0, 0⟩, quit := false,
      status := "Compiled " ++ Nat.repr tokens.length ++ " tokens" }
  | .error error =>
    { source, tokens, treeLines := [], output := .error error, focus := .source,
      selected := (tokens.findIdx? (·.same error.token)).getD 0,
      offsets := ⟨offsetFor error.token.position.line, 0, 0, 0⟩, quit := false,
      status := error.message }

/-- The line of the selected token. -/
def selectedLine (session : Session) : Nat :=
  (session.tokens[session.selected]?.map fun token => token.position.line).getD 0

/-- The line of the parse error. -/
def errorLine? (session : Session) : Option Nat :=
  match session.output with
  | .ok _ => none
  | .error error => some error.token.position.line

/-- Moves the selection, which then sets the status and brings its line into view. -/
def select (session : Session) (motion : Motion) : Session :=
  let session := { session with
    selected := min (motion.apply session.selected) (session.tokens.length - 1) }
  { session with
    status := (session.tokens[session.selected]?.map Token.listing).getD session.status
    offsets := { session.offsets with source := offsetFor session.selectedLine } }

/-- Scrolls the pane that has the focus, or moves the selection. -/
def move (session : Session) (motion : Motion) : Session :=
  let offsets := session.offsets
  match session.focus with
  | .tokens => session.select motion
  | .source => { session with offsets := { offsets with source := motion.apply offsets.source } }
  | .tree => { session with offsets := { offsets with tree := motion.apply offsets.tree } }
  | .output => { session with offsets := { offsets with output := motion.apply offsets.output } }

/-- The session after a key. -/
def press (session : Session) (key : Key) : Session :=
  match Motion.ofKey? key with
  | some motion => session.move motion
  | none =>
    match key with
    | .escape => { session with quit := true }
    | .char c => if c = 'q' ∨ c = 'Q' then { session with quit := true } else session
    | .backTab => { session with focus := session.focus.previous }
    | .tab shift =>
      { session with focus := if shift then session.focus.previous else session.focus.next }
    | _ => session

/-- The rows on the left, each with the one on the right behind it.  Where one side has ended the
other goes on alone. -/
def beside : List Row → List Row → List Row
  | [], right => right
  | left, [] => left
  | row :: left, other :: right => (row ++ other) :: beside left right

/-- Draws the panes and the status bar of a frame.  Drawing brings the offsets into range. -/
def drawIn (session : Session) (frame : Frame) : List Row × Session :=
  let focused (focus : Focus) := session.focus == focus
  let source := Pane.source frame.source session.source session.selectedLine session.errorLine?
    (focused .source) session.offsets.source
  let tokens := Pane.tokens frame.tokens (session.tokens.map Token.listing) session.selected
    (focused .tokens) session.offsets.tokens
  let output := Pane.output frame.output (session.output.mapError ParseError.message)
    (focused .output) session.offsets.output
  let tree := Pane.tree frame.tree session.treeLines (focused .tree) session.offsets.tree
  let status := Pane.status frame.status.width session.status session.focus.name
    session.errorLine?.isSome
  (beside source.rows output.rows ++ beside tokens.rows tree.rows ++
      [status].take frame.status.height,
    { session with offsets := ⟨source.scroll, tokens.scroll, tree.scroll, output.scroll⟩ })

/-- Draws a screen. -/
def draw (session : Session) (screen : Area) : List Row × Session :=
  session.drawIn (.ofScreen screen)

/-- The session after an event. -/
def after (session : Session) : Event → Session
  | .key key => session.press key
  | .draw frame => (session.drawIn frame).2

/-- The session after a sequence of events. -/
def run (session : Session) (events : List Event) : Session := events.foldl after session

end Session

end KanaScript.Inspector
