import KanaScript.Numeral
import KanaScript.Text.Identifier
import KanaScript.Text.Katakana
import KanaScript.Token.Basic
import KanaScript.Token.Layout

/-! Scanning.  A text is cut into lexemes, each with the layout before it, and the layout at the end;
their spellings joined are the text.  No text fails: a character outside the script is a lexeme of
unknown kind. -/

namespace KanaScript

/-- A token's kind and payload with the characters that spell it. -/
structure Lexeme where
  kind : TokenKind
  payload : Payload
  spelling : List Char

namespace Lexeme

/-- The meaning of a katakana word that is no bracket: a keyword, an operator, a numeral or else a
name. -/
def classify (word : String) : TokenKind × Payload :=
  match Vocabulary.keyword? word with
  | some (kind, spelling) => (kind, .text (if spelling.isEmpty then word else spelling))
  | none =>
    match Vocabulary.operator? word with
    | some spelling => (.operator, .text spelling)
    | none =>
      match Numeral.read? word.toList with
      | some value => (.number, .number (.int value))
      | none => (.identifier, .text word)

/-- The lexeme of the katakana word that starts with `c`.  A bracket word ends where it is complete,
even inside a longer run. -/
def word (c : Char) (cs : List Char) : Lexeme :=
  match Vocabulary.bracket? (c :: cs) with
  | some bracket => ⟨bracket.kind, .text bracket.text, bracket.word⟩
  | none =>
    let run := c :: cs.takeWhile Text.continuesWord
    let (kind, payload) := classify (String.ofList run)
    ⟨kind, payload, run⟩

/-- The lexeme of a literal that `opening` has opened: all characters before `closing`, or all there
are. -/
def literal (kind : TokenKind) (opening closing : Char) (cs : List Char) : Lexeme :=
  let body := cs.takeWhile (· != closing)
  ⟨kind, .text (String.ofList body), opening :: cs.take (body.length + 1)⟩

def continuesNumber (c : Char) : Bool := c.isDigit || c == '.'

/-- The lexeme that the text `c :: cs` starts with. -/
def first (c : Char) (cs : List Char) : Lexeme :=
  match Vocabulary.punctuation? c with
  | some (kind, text) => ⟨kind, .text text, [c]⟩
  | none =>
    if c = '「' then literal .stringLiteral '「' '」' cs
    else if c = '『' then literal .charLiteral '『' '』' cs
    else if Text.isKatakana c then word c cs
    else if Text.startsName c then
      let name := c :: cs.takeWhile Text.continuesName
      ⟨.identifier, .text (String.ofList name), name⟩
    else if c.isDigit then
      let digits := c :: cs.takeWhile continuesNumber
      ⟨.number, .number (.ofLiteral digits), digits⟩
    else ⟨.unknown, .text (String.singleton c), [c]⟩

end Lexeme

/-- A lexeme with the layout before it. -/
structure Piece where
  layout : List Char
  lexeme : Lexeme

/-- The lexemes of `cs`, the first with `layout` before it, and the layout after the last. -/
def piecesAfter (layout : List Char) : List Char → List Piece × List Char
  | [] => ([], layout)
  | c :: cs =>
    let lexeme := Lexeme.first c cs
    let rest := cs.drop (lexeme.spelling.length - 1)
    let next := Layout.leading rest
    let (others, trailing) := piecesAfter next (rest.drop next.length)
    (⟨layout, lexeme⟩ :: others, trailing)
termination_by cs => cs.length
decreasing_by simp only [List.length_drop, List.length_cons]; omega

/-- The lexemes of a text and the layout after the last. -/
def pieces (cs : List Char) : List Piece × List Char :=
  piecesAfter (Layout.leading cs) (cs.drop (Layout.leading cs).length)

/-- A text being scanned: what is left of it, and the position reached. -/
structure Scanner where
  rest : List Char
  position : Position

namespace Scanner

def ofSource (source : String) : Scanner := ⟨source.toList, .start⟩

/-- The tokens of `pieces` in a text that starts at `position`, and the position after them. -/
def place (position : Position) : List Piece → List Token × Position
  | [] => ([], position)
  | piece :: others =>
    let first := position.advance piece.layout
    let (tokens, last) := place (first.advance piece.lexeme.spelling) others
    (⟨piece.lexeme.kind, piece.lexeme.payload, first⟩ :: tokens, last)

/-- All remaining tokens, an end token last, and the scanner at the end of the text. -/
def run (scanner : Scanner) : List Token × Scanner :=
  let (found, trailing) := pieces scanner.rest
  let (tokens, position) := place scanner.position found
  let last := position.advance trailing
  (tokens ++ [⟨.eof, .none, last⟩], ⟨[], last⟩)

end Scanner

/-- The tokens of a source text, an end token last. -/
def tokenize (source : String) : List Token := (Scanner.ofSource source).run.1

end KanaScript
