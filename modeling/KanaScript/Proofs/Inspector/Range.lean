import KanaScript.Inspector.Session
import KanaScript.Proofs.Compile.Concatenation
import KanaScript.Proofs.Grammar.Failure
import Mathlib.Algebra.Group.Nat.Defs

/-! The range of a session's state.  Whatever keys are pressed and whatever frames are drawn, the
selection is a token; a frame shows the selected token and no pane of it scrolls beyond its last
line; and the arithmetic of scrolling stays within machine words. -/

namespace KanaScript

section Sizes

theorem Scans.length_le {before rest : List Char} {tokens : List Token}
    (h : Scans before rest tokens) : tokens.length ≤ rest.length + 1 := by
  induction h with
  | last => exact Nat.le_add_left _ _
  | token hgap hstarts spelled others ih =>
    have hpos := List.length_pos_iff.mpr spelled.ne_nil
    rw [List.length_cons, List.length_append, List.length_append]
    omega

theorem length_tokenize_le (source : String) : (tokenize source).length ≤ source.length + 1 :=
  (scans_tokenize source).length_le

theorem length_tokenize_pos (source : String) : 0 < (tokenize source).length := by
  obtain ⟨t, ht, -⟩ := exists_eof_tokenize source
  exact List.length_pos_of_mem ht

/-- No token stands below the last line. -/
theorem line_le_of_mem_tokenize {source : String} {token : Token} (h : token ∈ tokenize source) :
    token.position.line ≤ source.length + 1 := by
  obtain ⟨front, hfront, hposition⟩ := (scans_tokenize source).exists_position token h
  have hline := Position.after_line_le front
  have hlength := hfront.length_le
  rw [hposition, List.nil_append]
  exact hline.trans (Nat.succ_le_succ hlength)

theorem error_mem_tokenize {source : String} {error : ParseError}
    (h : parse (tokenize source) = .error error) : error.token ∈ tokenize source := by
  obtain ⟨used, others, htokens, -⟩ :=
    Grammar.parse_stuck (exists_eof_tokenize source) (scans_tokenize source).isProper h
  rw [htokens]
  exact List.mem_append_right _ List.mem_cons_self

end Sizes

namespace Inspector

section Scrolling

/-- Line `line` is one of the `visible` lines from `offset` on. -/
def InWindow (offset visible line : Nat) : Prop := offset ≤ line ∧ line < offset + visible

theorem Area.visible_pos (area : Area) : 0 < area.visible := Nat.le_max_right _ _

theorem clampScroll_le (offset total visible : Nat) :
    clampScroll offset total visible ≤ total - visible := by
  unfold clampScroll
  split <;> omega

theorem clampScroll_le_self (offset total visible : Nat) :
    clampScroll offset total visible ≤ offset := by
  unfold clampScroll
  split <;> omega

theorem inWindow_followSelection (offset selected : Nat) {visible : Nat} (hvisible : 0 < visible) :
    InWindow (followSelection offset selected visible) visible selected := by
  unfold followSelection InWindow
  split
  · omega
  · split <;> omega

/-- Clamping an offset hides no line in its window. -/
theorem InWindow.clampScroll {offset visible line total : Nat} (h : InWindow offset visible line)
    (hline : line < total) : InWindow (clampScroll offset total visible) visible line := by
  obtain ⟨hoffset, hvisible⟩ := h
  unfold Inspector.clampScroll InWindow
  split <;> omega

theorem Pane.tree_scroll_le (area : Area) (lines : List String) (focused : Bool) (scroll : Nat) :
    (tree area lines focused scroll).scroll ≤ scroll := by
  unfold tree
  split
  · exact le_rfl
  · exact clampScroll_le_self _ _ _

theorem Pane.output_scroll_le (area : Area) (result : Except String String) (focused : Bool)
    (scroll : Nat) : (output area result focused scroll).scroll ≤ scroll := by
  unfold output
  split
  · exact le_rfl
  · exact clampScroll_le_self _ _ _

end Scrolling

section Words

/-- The sum of two words, unless it overflows. -/
def sum? (a b : Nat) : Option Nat := if a + b ≤ Motion.limit then some (a + b) else none

/-- The difference of two words, unless it is negative. -/
def difference? (a b : Nat) : Option Nat := if b ≤ a then some (a - b) else none

/-- `clampScroll` in words. -/
def clampScroll? (offset total visible : Nat) : Option Nat :=
  if visible < total then do
    let last ← difference? total visible
    return min offset last
  else some 0

/-- `followSelection` in words. -/
def followSelection? (offset selected visible : Nat) : Option Nat :=
  if selected < offset then some selected
  else do
    let stop ← sum? offset visible
    if stop ≤ selected then
      let next ← sum? selected 1
      difference? next visible
    else some offset

/-- `Motion.apply` in words, for an amount that a signed word has room for. -/
def Motion.step? (offset : Nat) : Motion → Option Nat
  | back amount => if amount ≤ 2 ^ 63 then some (offset - amount) else none
  | forward amount => if amount < 2 ^ 63 then some (min (offset + amount) limit) else none

theorem Motion.step?_eq {key : Key} {motion : Motion} (h : ofKey? key = some motion)
    (offset : Nat) : motion.step? offset = some (motion.apply offset) := by
  cases key <;> cases h <;> rfl

theorem Motion.apply_le (motion : Motion) {offset bound : Nat} (hlimit : limit ≤ bound)
    (h : offset ≤ bound) : motion.apply offset ≤ bound := by
  cases motion <;> simp only [apply] <;> omega

/-- Clamping never leaves the words. -/
theorem clampScroll?_eq (offset total visible : Nat) :
    clampScroll? offset total visible = some (clampScroll offset total visible) := by
  unfold clampScroll? clampScroll
  split
  · next h => rw [difference?, if_pos (Nat.le_of_lt h)]; rfl
  · rfl

theorem followSelection?_eq {offset selected visible : Nat}
    (hstop : offset + visible ≤ Motion.limit) (hselected : selected < Motion.limit) :
    followSelection? offset selected visible = some (followSelection offset selected visible) := by
  unfold followSelection? followSelection
  split
  · rfl
  · rw [sum?, if_pos hstop, Option.bind_eq_bind, Option.bind_some]
    split
    · next h =>
      rw [sum?, if_pos (by omega), Option.bind_some, difference?, if_pos (by omega)]
    · rfl

end Words

namespace Session

/-- The session shows `source`, its selection is a token, and its offsets are in range. -/
structure InRange (source : String) (session : Session) : Prop where
  source_eq : session.source = source
  tokens_eq : session.tokens = tokenize source
  treeLines_eq : session.treeLines = (start source).treeLines
  output_eq : session.output = (start source).output
  selected_lt : session.selected < (tokenize source).length
  source_le : session.offsets.source ≤ max Motion.limit (source.length + 1)
  tokens_le : session.offsets.tokens ≤ (tokenize source).length
  tree_le : session.offsets.tree ≤ Motion.limit
  output_le : session.offsets.output ≤ Motion.limit

variable {source : String} {session : Session}

theorem inRange_start (source : String) : InRange source (start source) := by
  have hpos := length_tokenize_pos source
  cases h : parse (tokenize source) with
  | ok program => constructor <;> simp [start, h, hpos]
  | error error =>
    have hline := line_le_of_mem_tokenize (error_mem_tokenize h)
    have hselected : ((tokenize source).findIdx? (·.same error.token)).getD 0 <
        (tokenize source).length := by
      cases hi : (tokenize source).findIdx? (·.same error.token) with
      | none => exact hpos
      | some i => exact (List.findIdx?_eq_some_iff_getElem.mp hi).1
    constructor <;> simp only [start, h, Nat.zero_le]
    · exact hselected
    · rw [offsetFor]
      omega

theorem InRange.selectedLine_le (h : InRange source session) :
    session.selectedLine ≤ source.length + 1 := by
  have hlt : session.selected < session.tokens.length := h.tokens_eq ▸ h.selected_lt
  have hmem := List.getElem_mem hlt
  rw [selectedLine, List.getElem?_eq_getElem hlt]
  exact line_le_of_mem_tokenize (h.tokens_eq ▸ hmem)

theorem InRange.select (h : InRange source session) (motion : Motion) :
    InRange source (session.select motion) := by
  have hpos := length_tokenize_pos source
  have hselected : InRange source { session with
      selected := min (motion.apply session.selected) (session.tokens.length - 1) } :=
    { h with selected_lt := by rw [h.tokens_eq]; simp only; omega }
  have hline := hselected.selectedLine_le
  have hsource : offsetFor (selectedLine _) ≤ max Motion.limit (source.length + 1) :=
    (Nat.sub_le _ _).trans (hline.trans (Nat.le_max_right _ _))
  exact { hselected with source_le := hsource }

theorem InRange.move (h : InRange source session) (motion : Motion) :
    InRange source (session.move motion) := by
  unfold Session.move
  split
  · exact h.select motion
  · exact { h with source_le := motion.apply_le (Nat.le_max_left _ _) h.source_le }
  · exact { h with tree_le := motion.apply_le le_rfl h.tree_le }
  · exact { h with output_le := motion.apply_le le_rfl h.output_le }

theorem InRange.press (h : InRange source session) (key : Key) :
    InRange source (session.press key) := by
  unfold Session.press
  split
  · exact h.move _
  · split
    · exact { h with }
    · split
      · exact { h with }
      · exact h
    · exact { h with }
    · exact { h with }
    · exact h

theorem tokens_drawIn (session : Session) (frame : Frame) :
    (session.drawIn frame).2.offsets.tokens =
      clampScroll (followSelection session.offsets.tokens session.selected frame.tokens.visible)
        session.tokens.length frame.tokens.visible := by
  show clampScroll _ (session.tokens.map Token.listing).length _ = _
  rw [List.length_map]

theorem source_drawIn_le (session : Session) (frame : Frame) :
    (session.drawIn frame).2.offsets.source ≤
      (Text.lines session.source.toList).length - frame.source.visible := clampScroll_le _ _ _

theorem tree_drawIn_le (frame : Frame) (h : session.treeLines ≠ []) :
    (session.drawIn frame).2.offsets.tree ≤ session.treeLines.length - frame.tree.visible := by
  show (Pane.tree _ _ _ _).scroll ≤ _
  rw [Pane.tree, if_neg (by simpa using h)]
  exact clampScroll_le _ _ _

theorem output_drawIn_le (frame : Frame) {text : String} (h : session.output = .ok text) :
    (session.drawIn frame).2.offsets.output ≤
      (Text.lines text.toList).length - frame.output.visible := by
  show (Pane.output _ (session.output.mapError _) _ _).scroll ≤ _
  rw [h]
  exact clampScroll_le _ _ _

theorem InRange.drawIn (h : InRange source session) (frame : Frame) :
    InRange source (session.drawIn frame).2 := by
  have htokens : (session.drawIn frame).2.offsets.tokens ≤ (tokenize source).length := by
    rw [tokens_drawIn, h.tokens_eq]
    exact (clampScroll_le _ _ _).trans (Nat.sub_le _ _)
  exact { h with
    source_le := (clampScroll_le_self _ _ _).trans h.source_le
    tokens_le := htokens
    tree_le := (Pane.tree_scroll_le _ _ _ _).trans h.tree_le
    output_le := (Pane.output_scroll_le _ _ _ _).trans h.output_le }

theorem InRange.after (h : InRange source session) (event : Event) :
    InRange source (session.after event) := by
  cases event with
  | key key => exact h.press key
  | draw frame => exact h.drawIn frame

theorem InRange.run (h : InRange source session) (events : List Event) :
    InRange source (session.run events) := by
  induction events generalizing session with
  | nil => exact h
  | cons event events ih => exact ih (h.after event)

/-- A frame shows the selected token. -/
theorem InRange.inWindow_drawIn (h : InRange source session) (frame : Frame) :
    InWindow (session.drawIn frame).2.offsets.tokens frame.tokens.visible session.selected := by
  rw [tokens_drawIn]
  exact (inWindow_followSelection _ _ frame.tokens.visible_pos).clampScroll
    (h.tokens_eq ▸ h.selected_lt)

theorem InRange.compiled_drawIn_le (h : InRange source session) (frame : Frame) {program : Program}
    (hprogram : parse (tokenize source) = .ok program) :
    (session.drawIn frame).2.offsets.tree ≤
        (Program.listing program).length - frame.tree.visible ∧
      (session.drawIn frame).2.offsets.output ≤
        (Text.lines (Program.code program).toList).length - frame.output.visible := by
  have htree : session.treeLines = Program.listing program := by
    rw [h.treeLines_eq, start, hprogram]
  have houtput : session.output = .ok (Program.code program) := by
    rw [h.output_eq, start, hprogram]
  have hne : session.treeLines ≠ [] := by
    rw [htree]
    exact List.cons_ne_nil _ _
  exact ⟨htree ▸ tree_drawIn_le frame hne, output_drawIn_le frame houtput⟩

theorem InRange.le_limit (h : InRange source session) (hsize : source.length < 2 ^ 63) :
    ∀ value ∈ [session.selected, session.offsets.source, session.offsets.tokens,
      session.offsets.tree, session.offsets.output], value ≤ Motion.limit := by
  have htokens := length_tokenize_le source
  have hlimit : Motion.limit = 2 ^ 64 - 1 := rfl
  have hselected := h.selected_lt
  have hsource := h.source_le
  have hoffset := h.tokens_le
  simp only [List.forall_mem_cons, List.not_mem_nil, false_imp_iff, implies_true, and_true]
  exact ⟨by omega, by omega, by omega, h.tree_le, h.output_le⟩

theorem InRange.followSelection?_eq (h : InRange source session) (hsize : source.length < 2 ^ 63)
    {frame : Frame} (hheight : frame.tokens.height < 2 ^ 16) :
    followSelection? session.offsets.tokens session.selected frame.tokens.visible =
      some (followSelection session.offsets.tokens session.selected frame.tokens.visible) := by
  have htokens := length_tokenize_le source
  have hlimit : Motion.limit = 2 ^ 64 - 1 := rfl
  have hselected := h.selected_lt
  have hoffset := h.tokens_le
  have hvisible : frame.tokens.visible ≤ 2 ^ 16 := by
    rw [Area.visible]
    omega
  exact Inspector.followSelection?_eq (by omega) (by omega)

/-- Over every session the selection is a token; every frame shows it and scrolls no pane beyond its
last line; and no sum or difference leaves the words, as long as the source fits into memory and the
frame into a screen. -/
theorem run_inRange (source : String) (events : List Event) :
    let session := (start source).run events
    session.selected < (tokenize source).length ∧
    (∀ frame : Frame,
      let drawn := (session.drawIn frame).2
      drawn.offsets.tokens ≤ drawn.selected ∧
      drawn.selected < drawn.offsets.tokens + frame.tokens.visible ∧
      drawn.offsets.source ≤ (Text.lines source.toList).length - frame.source.visible ∧
      drawn.offsets.tokens ≤ (tokenize source).length - frame.tokens.visible ∧
      ∀ program, parse (tokenize source) = .ok program →
        drawn.offsets.tree ≤ (Program.listing program).length - frame.tree.visible ∧
        drawn.offsets.output ≤
          (Text.lines (Program.code program).toList).length - frame.output.visible) ∧
    (source.length < 2 ^ 63 →
      (∀ value ∈ [session.selected, session.offsets.source, session.offsets.tokens,
        session.offsets.tree, session.offsets.output], value ≤ Motion.limit) ∧
      (∀ key motion, Motion.ofKey? key = some motion → ∀ value ≤ Motion.limit,
        motion.step? value = some (motion.apply value) ∧ motion.apply value ≤ Motion.limit) ∧
      (∀ offset total visible,
        clampScroll? offset total visible = some (clampScroll offset total visible)) ∧
      ∀ frame : Frame, frame.tokens.height < 2 ^ 16 →
        followSelection? session.offsets.tokens session.selected frame.tokens.visible =
          some (followSelection session.offsets.tokens session.selected frame.tokens.visible)) := by
  intro session
  have h : InRange source session := (inRange_start source).run events
  refine ⟨h.selected_lt, fun frame => ?_, fun hsize => ?_⟩
  · obtain ⟨hfirst, hlast⟩ := h.inWindow_drawIn frame
    refine ⟨hfirst, hlast, h.source_eq ▸ source_drawIn_le session frame, ?_, ?_⟩
    · rw [tokens_drawIn, h.tokens_eq]
      exact clampScroll_le _ _ _
    · exact fun program hprogram => h.compiled_drawIn_le frame hprogram
  · refine ⟨h.le_limit hsize, ?_, clampScroll?_eq, ?_⟩
    · intro key motion hkey value hvalue
      exact ⟨Motion.step?_eq hkey value, motion.apply_le le_rfl hvalue⟩
    · exact fun frame hheight => h.followSelection?_eq hsize hheight

/-- The end token is selected after a large frame was drawn, and a small one then shows it. -/
theorem run_inRange_shrunk :
    let session := (start "ガ ガ。").run
      [.key (.tab false), .draw (.ofScreen ⟨80, 31⟩), .key .last]
    let drawn := (session.drawIn (.ofScreen ⟨80, 11⟩)).2
    ∃ program, parse (tokenize "ガ ガ。") = .ok program ∧ session.selected < 4 ∧
      drawn.offsets.tokens ≤ drawn.selected ∧ drawn.selected < drawn.offsets.tokens + 2 ∧
      drawn.offsets.tree ≤ (Program.listing program).length - 2 ∧
      (Motion.forward (2 ^ 63 - 1)).step? session.selected =
        some ((Motion.forward (2 ^ 63 - 1)).apply session.selected) ∧
      followSelection? session.offsets.tokens session.selected 2 =
        some (followSelection session.offsets.tokens session.selected 2) := by
  intro session drawn
  have htokens : tokenize "ガ ガ。" = [⟨.identifier, .text "ガ", ⟨1, 1⟩⟩,
      ⟨.identifier, .text "ガ", ⟨1, 3⟩⟩, ⟨.semicolon, .text ";", ⟨1, 4⟩⟩,
      ⟨.eof, .none, ⟨1, 5⟩⟩] := by decide +kernel
  have hparse : parse (tokenize "ガ ガ。") =
      .ok [.statement (.expression (.name "ガ" ⟨1, 1⟩) ⟨1, 1⟩),
        .statement (.expression (.name "ガ" ⟨1, 3⟩) ⟨1, 3⟩)] := by
    rw [htokens]
    cbv
  obtain ⟨hselected, hdrawn, hwords⟩ := run_inRange "ガ ガ。"
    [.key (.tab false), .draw (.ofScreen ⟨80, 31⟩), .key .last]
  obtain ⟨hfirst, hlast, -, -, hcompiled⟩ := hdrawn (.ofScreen ⟨80, 11⟩)
  obtain ⟨hvalues, hmotion, -, hfollow⟩ := hwords (by decide)
  have hlength : (tokenize "ガ ガ。").length = 4 := congrArg List.length htokens
  refine ⟨_, hparse, hlength ▸ hselected, hfirst, hlast, (hcompiled _ hparse).1, ?_, ?_⟩
  · exact (hmotion .last _ rfl _ (hvalues _ List.mem_cons_self)).1
  · exact hfollow (.ofScreen ⟨80, 11⟩) (by decide)

end Session

end Inspector

end KanaScript
