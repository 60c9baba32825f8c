/-! Literals in C: text and single characters, with C's escapes. -/

namespace KanaScript.C

/-- How `c` is written inside a string literal. -/
def escapeInString (c : Char) : List Char :=
  if c = '\\' then ['\\', '\\']
  else if c = '"' then ['\\', '"']
  else if c = '\n' then ['\\', 'n']
  else if c = '\t' then ['\\', 't']
  else if c = '\r' then ['\\', 'r']
  else [c]

/-- What stands between the quotes of a string literal. -/
def stringBody (text : String) : String := String.ofList (text.toList.flatMap escapeInString)

def stringLiteral (text : String) : String := "\"" ++ stringBody text ++ "\""

/-- How `c` is written in a character literal. -/
def escapeAsChar (c : Char) : List Char :=
  if c = '\\' then ['\\', '\\']
  else if c = '\'' then ['\\', '\'']
  else if c = '\n' then ['\\', 'n']
  else if c = '\t' then ['\\', 't']
  else if c = '\r' then ['\\', 'r']
  else [c]

/-- What stands between the quotes of a character literal: the first character of `text`, or the null
character. -/
def charBody (text : String) : String :=
  match text.toList with
  | [] => "\\0"
  | c :: _ => String.ofList (escapeAsChar c)

def charLiteral (text : String) : String := "'" ++ charBody text ++ "'"

end KanaScript.C
