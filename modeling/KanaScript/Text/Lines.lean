/-! Lines of a text.  A line feed ends a line, a carriage return right before it belongs to the line
end, and a text that ends in a line feed has no empty last line. -/

namespace KanaScript.Text

/-- A line read backwards, without the carriage return at its end. -/
def dropReturn : List Char → List Char
  | '\r' :: cs => cs
  | cs => cs

/-- The lines of a text after the characters `before`, read backwards, of its first line. -/
def linesAfter (before : List Char) : List Char → List (List Char)
  | [] => if before.isEmpty then [] else [before.reverse]
  | '\n' :: cs => (dropReturn before).reverse :: linesAfter [] cs
  | c :: cs => linesAfter (c :: before) cs

/-- The lines of a text, without their line ends. -/
def lines (cs : List Char) : List (List Char) := linesAfter [] cs

end KanaScript.Text
