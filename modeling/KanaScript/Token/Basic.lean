import KanaScript.Number.Basic
import KanaScript.Text.Quoted
import KanaScript.Vocabulary

/-! Tokens with their positions. -/

namespace KanaScript

/-- A place in a text.  Lines and columns count from one. -/
structure Position where
  line : Nat
  column : Nat
deriving DecidableEq

namespace Position

def start : Position := ⟨1, 1⟩

/-- The position after `c`. -/
def step (position : Position) (c : Char) : Position :=
  if c = '\n' then ⟨position.line + 1, 1⟩ else ⟨position.line, position.column + 1⟩

/-- The position after `text`. -/
def advance (position : Position) (text : List Char) : Position := text.foldl step position

@[simp]
theorem advance_nil (position : Position) : position.advance [] = position := rfl

end Position

/-- What a token carries besides its kind. -/
inductive Payload
  | none
  | text (value : String)
  | number (value : Number)
deriving DecidableEq

namespace Payload

def text? : Payload → Option String
  | text value => some value
  | _ => Option.none

/-- Whether two payloads are equal, with doubles compared as numbers. -/
def same : Payload → Payload → Bool
  | number (.real x), number (.real y) => x.same y
  | a, b => a == b

/-- The payload as listings and messages show it. -/
def display : Payload → String
  | none => "none"
  | text value => Text.quote value
  | number value => value.text

end Payload

structure Token where
  kind : TokenKind
  payload : Payload
  position : Position
deriving DecidableEq

namespace Token

/-- The text that a token carries, empty if it carries none. -/
def text (token : Token) : String := token.payload.text?.getD ""

/-- Whether two tokens are equal, with doubles compared as numbers. -/
def same (t u : Token) : Bool :=
  t.kind == u.kind && t.payload.same u.payload && t.position == u.position

/-- Whether a token is of kind `kind` and carries exactly `text`. -/
def isWord (token : Token) (kind : TokenKind) (text : String) : Bool :=
  token.kind == kind && token.payload == .text text

/-- A token as messages name it. -/
def display (token : Token) : String :=
  if token.kind = .eof then "end of input" else token.kind.name ++ " " ++ token.payload.display

/-- A token as a line of a listing. -/
def listing (token : Token) : String :=
  "Token(" ++ token.kind.name ++ ", " ++ token.payload.display ++ ", L" ++
    Nat.repr token.position.line ++ ":" ++ Nat.repr token.position.column ++ ")"

/-- One line for each token. -/
def listings (tokens : List Token) : String :=
  String.join (tokens.map fun token => token.listing ++ "\n")

end Token

end KanaScript
