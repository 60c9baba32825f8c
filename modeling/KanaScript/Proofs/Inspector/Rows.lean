import KanaScript.Inspector.Pane
import KanaScript.Proofs.Inspector.ScriptSpans
import KanaScript.Proofs.Text.Digits
import KanaScript.Proofs.Text.Lines

/-! The rows of the source pane.  A row has the characters of a line and of its number, cut into
clusters, and of these as many as the columns of the pane have room for. -/

namespace KanaScript

namespace Text

/-- Each character goes on with those behind it in the list, which are read backwards. -/
def IsJoined : List Char → Prop
  | [] => True
  | c :: before => joins before c = true ∧ IsJoined before

theorem clusters_append {before : List Char} (h : IsJoined before) (cs : List Char) :
    clusters (before.reverse ++ cs) = clustersAfter before cs := by
  induction before generalizing cs with
  | nil => rfl
  | cons c before ih =>
    rw [List.reverse_cons, List.append_assoc, ih h.2, List.singleton_append, clustersAfter,
      if_pos h.1]

theorem clusters_reverse {before : List Char} (h : IsJoined before) (hne : before ≠ []) :
    clusters before.reverse = [before.reverse] := by
  have hall := clusters_append h []
  rwa [List.append_nil, clustersAfter, if_neg (by simpa using hne)] at hall

theorem clusters_of_mem_clustersAfter {before cs : List Char} (h : IsJoined before) :
    ∀ cluster ∈ clustersAfter before cs, clusters cluster = [cluster] := by
  induction cs generalizing before with
  | nil =>
    cases before with
    | nil => exact nofun
    | cons c before =>
      exact List.forall_mem_singleton.mpr (clusters_reverse h (List.cons_ne_nil _ _))
  | cons c cs ih =>
    unfold clustersAfter
    split
    · next hjoins => exact ih ⟨hjoins, h⟩
    · next hjoins =>
      have hne : before ≠ [] := by
        rintro rfl
        exact hjoins rfl
      exact List.forall_mem_cons.mpr ⟨clusters_reverse h hne, ih ⟨rfl, trivial⟩⟩

/-- A cluster of a text is the only one of its own. -/
theorem clusters_of_mem_clusters {cs cluster : List Char} (h : cluster ∈ clusters cs) :
    clusters cluster = [cluster] :=
  @clusters_of_mem_clustersAfter [] cs trivial cluster h

theorem not_mem_of_mem_linesAfter {before cs : List Char} (h : '\n' ∉ before) :
    ∀ line ∈ linesAfter before cs, '\n' ∉ line := by
  fun_induction linesAfter before cs with
  | case1 => exact nofun
  | case2 before => exact List.forall_mem_singleton.mpr (by simpa using h)
  | case3 before cs ih =>
    have hkept : '\n' ∉ dropReturn before := by
      unfold dropReturn
      split
      · exact fun hmem => h (List.mem_cons_of_mem _ hmem)
      · exact h
    exact List.forall_mem_cons.mpr ⟨by simpa using hkept, ih List.not_mem_nil⟩
  | case4 before c cs hc ih => exact ih (by simpa [h] using Ne.symm hc)

/-- No line has a line feed in it. -/
theorem not_mem_of_mem_lines {cs line : List Char} (h : line ∈ lines cs) : '\n' ∉ line :=
  @not_mem_of_mem_linesAfter [] cs List.not_mem_nil line h

end Text

namespace Inspector

/-- The glyph is one cluster, and it is as wide as that. -/
structure Glyph.IsCluster (glyph : Glyph) : Prop where
  clusters : Text.clusters glyph.text = [glyph.text]
  width : glyph.width = Text.width glyph.text

namespace Row

/-- The characters of a row. -/
def text (row : Row) : List Char := row.flatMap Glyph.text

theorem text_ofText {text : List Char} (h : '\n' ∉ text) (style : Style) :
    (ofText text style).text = text := by
  have hall : (Text.clusters text).filter (· != ['\n']) = Text.clusters text := by
    refine List.filter_eq_self.mpr fun cluster hcluster => bne_iff_ne.mpr ?_
    rintro rfl
    have hmem := List.mem_flatten.mpr ⟨_, hcluster, List.mem_singleton_self _⟩
    rw [Text.flatten_clusters] at hmem
    exact h hmem
  rw [Row.text, ofText, hall, List.flatMap_map]
  exact List.flatMap_id.trans (Text.flatten_clusters text)

theorem ofText_append_ofSpans (text : List Char) (style : Style) (spans : List Span) :
    ofText text style ++ ofSpans spans = ofSpans (⟨text, style⟩ :: spans) := rfl

theorem text_ofSpans {spans : List Span} (h : '\n' ∉ Span.lineText spans) :
    (ofSpans spans).text = Span.lineText spans := by
  induction spans with
  | nil => rfl
  | cons span spans ih =>
    rw [Span.lineText, List.flatMap_cons, ← Span.lineText, List.mem_append, not_or] at h
    have hothers := ih h.2
    rw [← ofText_append_ofSpans, text, List.flatMap_append, ← text, ← text, text_ofText h.1, hothers]
    rfl

theorem isCluster_ofSpans {spans : List Span} : ∀ glyph ∈ ofSpans spans, glyph.IsCluster := by
  intro glyph hglyph
  obtain ⟨span, -, hspan⟩ := List.mem_flatMap.mp hglyph
  obtain ⟨cluster, hcluster, rfl⟩ := List.mem_map.mp hspan
  exact ⟨Text.clusters_of_mem_clusters (List.mem_of_mem_filter hcluster), rfl⟩

/-- The glyphs that fit are the first ones, and the next one does not fit. -/
theorem exists_fit (columns : Nat) (row : Row) : ∃ hidden,
    row = fit columns row ++ hidden ∧ (fit columns row).width ≤ columns ∧
      ∀ glyph ∈ hidden.head?, columns < (fit columns row).width + glyph.width := by
  induction row generalizing columns with
  | nil => exact ⟨[], rfl, Nat.zero_le _, nofun⟩
  | cons glyph row ih =>
    unfold fit
    split
    · next hfits =>
      obtain ⟨hidden, hrow, hwidth, hnext⟩ := ih (columns - glyph.width)
      refine ⟨hidden, congrArg (glyph :: ·) hrow, ?_, fun next hhead => ?_⟩
      · show glyph.width + width _ ≤ columns
        omega
      · have hlt := hnext next hhead
        show columns < glyph.width + width _ + next.width
        omega
    · next hwide => exact ⟨glyph :: row, rfl, Nat.zero_le _, by simpa [width] using hwide⟩

end Row

/-- The number of a line in at least four places, and the line behind a blank. -/
def numbered (number : Nat) (line : List Char) : List Char :=
  let digits := (Nat.repr number).toList
  List.replicate (4 - digits.length) ' ' ++ digits ++ ' ' :: line

theorem not_mem_numbered {number : Nat} {line : List Char} (h : '\n' ∉ line) :
    '\n' ∉ numbered number line := by
  rw [numbered, List.mem_append, List.mem_append, List.mem_cons]
  rintro ((hmem | hmem) | (hmem | hmem))
  · exact absurd (List.eq_of_mem_replicate hmem) (by decide)
  · exact absurd (Text.isDigit_of_mem_repr hmem) (by decide)
  · exact absurd hmem (by decide)
  · exact h hmem

/-- The row shows a line and its number between the sides of a border, from the left on and as far
as the columns there reach.  Clusters that have no width, and those that are too wide for any row of
the pane, are passed over. -/
inductive ShowsLine (columns number : Nat) (line : List Char) : Row → Prop
  | intro {cells shown hidden rest : Row} {side : Glyph} {style : Style}
      (text_eq : cells.text = numbered number line)
      (isCluster : ∀ cell ∈ cells, cell.IsCluster)
      (cut : (cells.filter fun cell => 0 < cell.width && cell.width ≤ columns) = shown ++ hidden)
      (fits : shown.width ≤ columns)
      (full : ∀ cell ∈ hidden.head?, columns < shown.width + cell.width)
      (border : side.text = ['│']) :
      ShowsLine columns number line
        (side :: shown ++ Row.blanks (columns - shown.width) style ++ side :: rest)

theorem ShowsLine.append {columns number : Nat} {line : List Char} {row : Row}
    (h : ShowsLine columns number line row) (right : Row) :
    ShowsLine columns number line (row ++ right) := by
  obtain ⟨text_eq, isCluster, cut, fits, full, border⟩ := h
  rw [List.append_assoc, List.cons_append]
  exact .intro text_eq isCluster cut fits full border

section Source

variable {area : Area} {current number : Nat} {errorLine : Option Nat} {line : List Char}

theorem lineText_map {f : Span → Span} (h : ∀ span, (f span).text = span.text)
    (spans : List Span) : Span.lineText (spans.map f) = Span.lineText spans := by
  simp [Span.lineText, List.flatMap_map, h]

/-- Whatever its colours, the row of a line has the characters of the number and of the line. -/
theorem Pane.exists_sourceRow : ∃ spans, sourceRow current errorLine number line =
    Row.ofSpans spans ∧ Span.lineText spans = numbered number line := by
  have htext : ∀ {f : Span → Span} {style : Style}, (∀ span, (f span).text = span.text) →
      Span.lineText (⟨lineNumber number, style⟩ :: (Highlight.script line).map f) =
        numbered number line := by
    intro f style hf
    rw [Span.lineText, List.flatMap_cons, ← Span.lineText, lineText_map hf,
      Highlight.lineText_script, lineNumber, numbered]
    simp
  unfold sourceRow
  dsimp only
  simp only [Row.ofText_append_ofSpans]
  split
  · exact ⟨_, rfl, htext fun _ => rfl⟩
  split
  · exact ⟨_, rfl, htext fun _ => rfl⟩
  · exact ⟨_, rfl, by simpa only [List.map_id] using @htext id _ fun _ => rfl⟩

/-- A row between the sides of a border. -/
def Area.framed (area : Area) (border inner : Style) (row : Row) : Row :=
  Row.ofText ['│'] border ++ Row.fill (area.width - 2) inner row ++ Row.ofText ['│'] border

theorem Pane.showsLine_sourceRow (h : '\n' ∉ line) (border inner : Style) :
    ShowsLine (area.width - 2) number line
      (area.framed border inner (sourceRow current errorLine number line)) := by
  obtain ⟨spans, hrow, htext⟩ := @exists_sourceRow current number errorLine line
  rw [hrow]
  obtain ⟨hidden, hcut, hfits, hfull⟩ := Row.exists_fit (area.width - 2)
    ((Row.ofSpans spans).filter fun cell => 0 < cell.width && cell.width ≤ area.width - 2)
  have hcells : (Row.ofSpans spans).text = numbered number line :=
    (Row.text_ofSpans (htext ▸ not_mem_numbered h)).trans htext
  exact .intro hcells Row.isCluster_ofSpans hcut hfits hfull rfl

/-- The rows stand below the upper border. -/
theorem Area.getElem?_bordered {title : String} {border inner : Style} {content : List Row}
    {i : Nat} {row : Row} (hi : i < area.height - 2) (h : content[i]? = some row) :
    (area.bordered title border inner content)[i + 1]? = some (area.framed border inner row) := by
  have hshown : (content.take (area.height - 2))[i]? = some row := by
    rw [List.getElem?_take_of_lt hi, h]
  obtain ⟨hlt, -⟩ := List.getElem?_eq_some_iff.mp hshown
  rw [bordered, List.getElem?_take_of_lt (by omega), List.cons_append, List.getElem?_cons_succ,
    List.getElem?_append_left (by rw [List.length_map, List.length_append]; omega),
    List.getElem?_map, List.getElem?_append_left hlt, hshown]
  rfl

/-- The line at `scroll + i` is in the row `i` below the upper border. -/
theorem Pane.exists_row_source {text : String} {focused : Bool} {scroll i : Nat}
    (hi : i < area.height - 2)
    (h : (Text.lines text.toList)[
      (source area text current errorLine focused scroll).scroll + i]? = some line) :
    ∃ row, (source area text current errorLine focused scroll).rows[i + 1]? = some row ∧
      ShowsLine (area.width - 2)
        ((source area text current errorLine focused scroll).scroll + i + 1) line row := by
  have hline : '\n' ∉ line := Text.not_mem_of_mem_lines (List.mem_of_getElem? h)
  refine ⟨_, Area.getElem?_bordered hi ?_, @showsLine_sourceRow _ current _ errorLine _ hline _ _⟩
  have hvisible : i < area.visible := Nat.lt_of_lt_of_le hi (Nat.le_max_left _ _)
  rw [List.getElem?_map, List.getElem?_zipIdx, List.getElem?_take_of_lt hvisible,
    List.getElem?_drop]
  simp only [source] at h ⊢
  rw [h]
  simp

end Source

end Inspector

end KanaScript
