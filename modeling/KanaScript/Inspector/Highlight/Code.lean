import KanaScript.Inspector.Theme
import KanaScript.Text.Alphanumeric

/-! Colours for a line of C. -/

namespace KanaScript.Inspector.Highlight

def codeTypes : List String :=
  ["int", "char", "void", "float", "double", "long", "short", "unsigned"]

def codeKeywords : List String :=
  ["struct", "typedef", "return", "if", "else", "while", "for", "switch", "case", "default",
    "break", "continue", "sizeof"]

/-- The style of a word, which names a function if a parenthesis follows it. -/
def codeWordStyle (word : List Char) (called : Bool) : Style :=
  let text := String.ofList word
  if codeTypes.contains text then .colored Theme.typeName
  else if codeKeywords.contains text then (Style.colored Theme.keyword).strong
  else if text = "NULL" || (word.head?.map Char.isDigit).getD false then .colored Theme.literal
  else if called then .colored Theme.function
  else .colored Theme.plain

def isWordChar (c : Char) : Bool := Text.isAlphanumeric c || c == '_' || c == '.'

/-- What follows the opening quote `quote` of a literal, with its closing quote.  A backslash keeps
the character after it. -/
def quotedTail (quote : Char) : List Char → List Char
  | [] => []
  | [c] => [c]
  | c :: d :: cs =>
    if c = quote then [c]
    else if c = '\\' then c :: d :: quotedTail quote cs
    else c :: quotedTail quote (d :: cs)

def isCodeBracket (c : Char) : Bool := "()[]\x7b\x7d".toList.contains c

/-- The first span of the line `c :: cs`. -/
def codeHead (c : Char) (cs : List Char) : Span :=
  if c = '"' || c = '\'' then ⟨c :: quotedTail c cs, .colored Theme.literal⟩
  else if isWordChar c then
    let word := c :: cs.takeWhile isWordChar
    ⟨word, codeWordStyle word ((cs.dropWhile isWordChar).head? == some '(')⟩
  else ⟨[c], .colored (if isCodeBracket c then Theme.primary else Theme.plain)⟩

/-- The spans of a line that is no directive. -/
def codeSpans : List Char → List Span
  | [] => []
  | c :: cs => codeHead c cs :: codeSpans (cs.drop ((codeHead c cs).text.length - 1))
termination_by cs => cs.length
decreasing_by simp only [List.length_drop, List.length_cons]; omega

/-- The spans of a line of C; a directive is one span. -/
def code (line : List Char) : List Span :=
  if line.head? = some '#' then [⟨line, .colored Theme.comment⟩] else codeSpans line

end KanaScript.Inspector.Highlight
