import KanaScript.Text.Joining

/-! Clusters.  A cluster is what a reader takes for one character: a letter with its marks, a Hangul
syllable, a conjunct, a flag, or pictographs that joiners link.  The clusters of a text divide it
without loss. -/

namespace KanaScript.Text

/-- Whether `c` goes on with the cluster whose characters, read backwards, are `before`.  Anything
goes on with an empty one. -/
def joins (before : List Char) (c : Char) : Bool :=
  match before with
  | [] => true
  | last :: earlier =>
    match Joining.ofChar last, Joining.ofChar c with
    | .carriageReturn, .lineFeed => true
    | .carriageReturn, _ | .lineFeed, _ | .control, _ => false
    | _, .carriageReturn | _, .lineFeed | _, .control => false
    | _, .extending | _, .joiner | _, .linker | _, .spacing => true
    | .leading, _ => true
    | .hangul first, .hangul second => first.joins second
    | .regional, .regional =>
      (before.takeWhile fun d => Joining.ofChar d = .regional).length % 2 = 1
    | .joiner, .pictograph =>
      ((earlier.dropWhile fun d => (Joining.ofChar d).isExtending).head?.map Joining.ofChar) =
        some .pictograph
    | _, .consonant =>
      (before.takeWhile fun d => (Joining.ofChar d).isMark).any (linkers.contains ·) &&
        ((before.dropWhile fun d => (Joining.ofChar d).isMark).head?.map Joining.ofChar) =
          some .consonant
    | _, _ => false

/-- The clusters of a text after the characters `before`, read backwards, of its first cluster. -/
def clustersAfter (before : List Char) : List Char → List (List Char)
  | [] => if before.isEmpty then [] else [before.reverse]
  | c :: cs =>
    if joins before c then clustersAfter (c :: before) cs
    else before.reverse :: clustersAfter [c] cs

/-- The clusters of a text. -/
def clusters (cs : List Char) : List (List Char) := clustersAfter [] cs

theorem flatten_clustersAfter (before cs : List Char) :
    (clustersAfter before cs).flatten = before.reverse ++ cs := by
  induction cs generalizing before with
  | nil => cases before <;> simp [clustersAfter]
  | cons c cs ih =>
    unfold clustersAfter
    split
    · simp [ih]
    · simp [ih]

theorem flatten_clusters (cs : List Char) : (clusters cs).flatten = cs :=
  flatten_clustersAfter [] cs

end KanaScript.Text
