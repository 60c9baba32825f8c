import KanaScript.Text.Blank

/-! Layout: white space and comments, which stand between tokens and mean nothing.  `ゴゴ` starts a
comment that ends before the line feed, `ゴビ` one that ends with `ビゴ` or with the text. -/

namespace KanaScript.Layout

/-- The part of `cs` that belongs to a block comment, with its end mark. -/
def blockBody : List Char → List Char
  | 'ビ' :: 'ゴ' :: _ => ['ビ', 'ゴ']
  | c :: cs => c :: blockBody cs
  | [] => []

/-- The part of `cs` that belongs to a line comment. -/
def lineBody (cs : List Char) : List Char := cs.takeWhile (· != '\n')

/-- The layout that `cs` starts with. -/
def leading : List Char → List Char
  | 'ゴ' :: 'ゴ' :: cs =>
    'ゴ' :: 'ゴ' :: (lineBody cs ++ leading (cs.drop (lineBody cs).length))
  | 'ゴ' :: 'ビ' :: cs =>
    'ゴ' :: 'ビ' :: (blockBody cs ++ leading (cs.drop (blockBody cs).length))
  | c :: cs => if Text.isBlank c then c :: leading cs else []
  | [] => []
termination_by cs => cs.length
decreasing_by all_goals simp only [List.length_drop, List.length_cons]; omega

theorem isPrefix_blockBody (cs : List Char) : blockBody cs <+: cs := by
  fun_induction blockBody cs with
  | case1 rest => exact ⟨rest, rfl⟩
  | case2 c cs _ ih => simpa using ih
  | case3 => exact List.prefix_rfl

end KanaScript.Layout
