import KanaScript.Text.Identifier

/-! How C cuts a text into tokens.  Blanks, comments and directives are passed over; then the
longest token that the text starts with is taken, again and again. -/

namespace KanaScript.C

inductive Token
  /-- An identifier or a keyword. -/
  | word (text : String)
  | number (text : String)
  /-- A string or a character, with its quotes. -/
  | literal (text : String)
  /-- An operator or a bracket. -/
  | mark (text : String)
deriving DecidableEq

def Token.text : Token → String
  | word text => text
  | number text => text
  | literal text => text
  | mark text => text

/-- All operators and brackets of C, a longer one before any that it starts with. -/
def marks : List String :=
  ["%:%:", "<<=", ">>=", "...", "->", "++", "--", "<<", ">>", "<=", ">=", "==", "!=", "&&", "||",
    "*=", "/=", "%=", "+=", "-=", "&=", "^=", "|=", "##", "<:", ":>", "<%", "%>", "%:", "::", "[",
    "]", "(", ")", "\x7b", "\x7d", ".", "&", "*", "+", "-", "~", "!", "/", "%", "<", ">", "^", "|",
    "?", ":", ";", "=", ",", "#"]

def mark? (cs : List Char) : Option String := marks.find? fun mark => mark.toList.isPrefixOf cs

/-- What belongs to a number after its first character: letters, digits and points, and a sign right
after the letter of an exponent. -/
def numberTail : List Char → List Char
  | c :: sign :: cs =>
    if ['e', 'E', 'p', 'P'].contains c && ['+', '-'].contains sign then c :: sign :: numberTail cs
    else if Text.continuesName c || c == '.' then c :: numberTail (sign :: cs)
    else []
  | [c] => if Text.continuesName c || c == '.' then [c] else []
  | [] => []

/-- What belongs to a literal after its opening quote, its closing quote included.  A character that
a backslash has `escaped` closes nothing, and the line must not end. -/
def literalTail? (quote : Char) (escaped : Bool) : List Char → Option (List Char)
  | [] => none
  | c :: cs =>
    if c = '\n' then none
    else if escaped then (literalTail? quote false cs).map fun tail => c :: tail
    else if c = quote then some [c]
    else (literalTail? quote (c == '\\') cs).map fun tail => c :: tail

/-- What belongs to a comment between `/*` and its end, which is included. -/
def blockComment : List Char → List Char
  | '*' :: '/' :: _ => ['*', '/']
  | c :: cs => c :: blockComment cs
  | [] => []

/-- The comment that the text starts with, empty if it starts with none. -/
def comment : List Char → List Char
  | '/' :: '/' :: cs => '/' :: '/' :: cs.takeWhile (· != '\n')
  | '/' :: '*' :: cs => '/' :: '*' :: blockComment cs
  | _ => []

def startsWithDigit : List Char → Bool
  | c :: _ => c.isDigit
  | [] => false

/-- The token that the text `c :: cs` starts with. -/
def first? (c : Char) (cs : List Char) : Option Token :=
  if Text.startsName c then some (.word (String.ofList (c :: cs.takeWhile Text.continuesName)))
  else if c.isDigit || c == '.' && startsWithDigit cs then
    some (.number (String.ofList (c :: numberTail cs)))
  else if c = '"' ∨ c = '\'' then
    (literalTail? c false cs).map fun tail => .literal (String.ofList (c :: tail))
  else (mark? (c :: cs)).map .mark

def isSpace (c : Char) : Bool := [' ', '\t', '\n', '\r', '\x0b', '\x0c'].contains c

/-- The tokens of a text, `none` if it cannot be cut.  A directive is a line that starts with `#`,
and `fresh` says that the line so far has only blanks. -/
def tokens? (fresh : Bool) : List Char → Option (List Token)
  | [] => some []
  | c :: cs =>
    if isSpace c then tokens? (fresh || c == '\n') cs
    else if fresh && c == '#' then tokens? false (cs.drop (cs.takeWhile (· != '\n')).length)
    else if comment (c :: cs) ≠ [] then tokens? fresh (cs.drop ((comment (c :: cs)).length - 1))
    else
      match first? c cs with
      | some token =>
        (tokens? false (cs.drop (token.text.length - 1))).map fun others => token :: others
      | none => none
termination_by cs => cs.length
decreasing_by all_goals simp only [List.length_drop, List.length_cons]; omega

end KanaScript.C
