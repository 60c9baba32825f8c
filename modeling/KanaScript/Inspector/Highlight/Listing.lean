import KanaScript.Inspector.Theme
import KanaScript.Text.Blank

/-! Colours for a line of a tree listing. -/

namespace KanaScript.Inspector.Highlight

/-- The indentation, the label up to a colon, and the rest. -/
def listing (line : List Char) : List Span :=
  let node := line.dropWhile Text.isWhiteSpace
  [⟨line.takeWhile Text.isWhiteSpace, .colored Theme.comment⟩,
    ⟨node.takeWhile (· != ':'), .colored Theme.keyword⟩,
    ⟨node.dropWhile (· != ':'), .colored Theme.plain⟩]

end KanaScript.Inspector.Highlight
