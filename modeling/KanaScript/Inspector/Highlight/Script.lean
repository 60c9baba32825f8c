import KanaScript.Inspector.Theme
import KanaScript.Numeral
import KanaScript.Text.Katakana
import KanaScript.Token.Layout
import KanaScript.Vocabulary

/-! Colours for a line of a script.  Each line is coloured on its own, so a literal or a comment that
goes on in the next line is not known there. -/

namespace KanaScript.Inspector.Highlight

/-- The style of a katakana word that starts with no bracket word. -/
def wordStyle (word : String) : Style :=
  if word = Vocabulary.functionMarker then (Style.colored Theme.function).strong
  else
    match Vocabulary.keyword? word with
    | some (.typeKeyword, _) => .colored Theme.typeName
    | some _ => (Style.colored Theme.keyword).strong
    | none =>
      if (Vocabulary.operator? word).isSome then .colored Theme.operator
      else if (Numeral.read? word.toList).isSome then .colored Theme.literal
      else .colored Theme.plain

/-- The bracket words that a run starts with, then the rest of it as one word. -/
def wordSpans : List Char → List Span
  | [] => []
  | c :: cs =>
    match Vocabulary.bracket? (c :: cs) with
    | some bracket =>
      let more := cs.take (bracket.word.length - 1)
      ⟨c :: more, .colored Theme.primary⟩ :: wordSpans (cs.drop more.length)
    | none => [⟨c :: cs, wordStyle (String.ofList (c :: cs))⟩]
termination_by cs => cs.length
decreasing_by simp only [List.length_drop, List.length_cons]; omega

/-- What follows the opening mark of a literal, with its closing mark. -/
def literalTail (closing : Char) (cs : List Char) : List Char :=
  cs.take ((cs.takeWhile (· != closing)).length + 1)

/-- What follows the first character of a comment, if `c :: cs` starts with one. -/
def commentTail? (c : Char) (cs : List Char) : Option (List Char) :=
  match c, cs with
  | 'ゴ', 'ゴ' :: _ => some cs
  | 'ゴ', 'ビ' :: body => some ('ビ' :: Layout.blockBody body)
  | _, _ => none

def isBracket (c : Char) : Bool := "()[]\x7b\x7d（）［］｛｝".toList.contains c

/-- The first spans of the line `c :: cs`, and how many characters after `c` they cover. -/
def scriptHead (c : Char) (cs : List Char) : List Span × Nat :=
  let one (tail : List Char) (color : Color) : List Span × Nat :=
    ([⟨c :: tail, .colored color⟩], tail.length)
  if c = '「' then one (literalTail '」' cs) Theme.literal
  else if c = '『' then one (literalTail '』' cs) Theme.literal
  else if Text.isKatakana c then
    match commentTail? c cs with
    | some tail => one tail Theme.comment
    | none =>
      let tail := cs.takeWhile Text.continuesWord
      (wordSpans (c :: tail), tail.length)
  else if c.isDigit then one (cs.takeWhile fun d => d.isDigit || d == '.') Theme.literal
  else one [] (if isBracket c then Theme.primary else Theme.plain)

/-- The spans of a line of a script. -/
def script : List Char → List Span
  | [] => []
  | c :: cs => (scriptHead c cs).1 ++ script (cs.drop (scriptHead c cs).2)
termination_by cs => cs.length
decreasing_by simp only [List.length_drop, List.length_cons]; omega

end KanaScript.Inspector.Highlight
