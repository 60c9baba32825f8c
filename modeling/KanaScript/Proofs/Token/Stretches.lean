import KanaScript.Proofs.Token.Seam

/-! The stretches of a text: white space, comments and lexemes, as the scanner cuts them.  A
character has the role of its stretch, and it has the role of a token exactly if a token stands
there. -/

namespace KanaScript

open Layout (IsLayout Starts)

/-- What the scanner takes a character for. -/
inductive Role
  | blank
  | comment
  | token (kind : TokenKind)
deriving DecidableEq

/-- Characters that the scanner takes together. -/
structure Stretch where
  role : Role
  text : List Char
deriving DecidableEq

/-- The role of each character. -/
def Stretch.roles (stretches : List Stretch) : List Role :=
  stretches.flatMap fun stretch => stretch.text.map fun _ => stretch.role

/-- The white space and the comments that layout is made of. -/
def Layout.stretches : List Char → List Stretch
  | 'ゴ' :: 'ゴ' :: cs =>
    ⟨.comment, 'ゴ' :: 'ゴ' :: lineBody cs⟩ :: stretches (cs.drop (lineBody cs).length)
  | 'ゴ' :: 'ビ' :: cs =>
    ⟨.comment, 'ゴ' :: 'ビ' :: blockBody cs⟩ :: stretches (cs.drop (blockBody cs).length)
  | c :: cs => ⟨.blank, [c]⟩ :: stretches cs
  | [] => []
termination_by cs => cs.length
decreasing_by all_goals simp only [List.length_drop, List.length_cons]; omega

def Lexeme.stretch (lexeme : Lexeme) : Stretch := ⟨.token lexeme.kind, lexeme.spelling⟩

/-- The stretches of a text, taken from the scanner's pieces. -/
def stretches (text : List Char) : List Stretch :=
  (pieces text).1.flatMap (fun piece => Layout.stretches piece.layout ++ [piece.lexeme.stretch]) ++
    Layout.stretches (pieces text).2

section Making

theorem Layout.stretches_blank {c : Char} (hc : Text.isBlank c = true) (cs : List Char) :
    stretches (c :: cs) = ⟨.blank, [c]⟩ :: stretches cs := by
  have hne : c ≠ 'ゴ' := by
    rintro rfl
    exact absurd hc (by decide)
  rw [stretches]
  · simp [hne]
  · simp [hne]

theorem stretches_layout {gap : List Char} (hgap : IsLayout [] gap) :
    stretches gap = Layout.stretches gap := by
  have hpieces := pieces_append hgap nofun
  rw [List.append_nil, piecesAfter] at hpieces
  rw [stretches, hpieces]
  rfl

/-- The scanner cuts layout and a lexeme from a text and goes on with the rest. -/
theorem stretches_append {gap rest : List Char} {lexeme : Lexeme}
    (hgap : IsLayout (lexeme.spelling ++ rest) gap) (hstarts : ¬Starts (lexeme.spelling ++ rest))
    (spelled : lexeme.Spelled rest) : stretches (gap ++ (lexeme.spelling ++ rest)) =
      Layout.stretches gap ++ lexeme.stretch :: stretches rest := by
  have hpieces := (pieces_append hgap hstarts).trans (piecesAfter_of_spelled spelled gap)
  rw [stretches, hpieces, List.flatMap_cons, stretches]
  simp

/-- The text is made of the stretches, each of which ends where what follows it makes it end. -/
inductive MadeOf : List Char → List Stretch → Prop
  | nil : MadeOf [] []
  | blank {c : Char} {rest : List Char} {others : List Stretch} (hc : Text.isBlank c = true)
      (following : MadeOf rest others) : MadeOf (c :: rest) (⟨.blank, [c]⟩ :: others)
  | line {body rest : List Char} {others : List Stretch} (hbody : '\n' ∉ body)
      (hrest : ∀ c ∈ rest.head?, c = '\n') (following : MadeOf rest others) :
      MadeOf ('ゴ' :: 'ゴ' :: (body ++ rest)) (⟨.comment, 'ゴ' :: 'ゴ' :: body⟩ :: others)
  | block {body rest : List Char} {others : List Stretch}
      (hbody : Layout.blockBody (body ++ rest) = body) (following : MadeOf rest others) :
      MadeOf ('ゴ' :: 'ビ' :: (body ++ rest)) (⟨.comment, 'ゴ' :: 'ビ' :: body⟩ :: others)
  | token {lexeme : Lexeme} {rest : List Char} {others : List Stretch}
      (hstarts : ¬Starts (lexeme.spelling ++ rest)) (spelled : lexeme.Spelled rest)
      (following : MadeOf rest others) :
      MadeOf (lexeme.spelling ++ rest) (lexeme.stretch :: others)

theorem Layout.IsLayout.madeOf {rest gap : List Char} {others : List Stretch}
    (h : IsLayout rest gap) (following : MadeOf rest others) :
    MadeOf (gap ++ rest) (Layout.stretches gap ++ others) := by
  induction h with
  | nil =>
    rw [Layout.stretches]
    exact following
  | blank hc _ ih =>
    rw [Layout.stretches_blank hc]
    exact .blank hc ih
  | @line body cs hbody _ ih =>
    have hline : Layout.lineBody (body ++ '\n' :: cs) = body :=
      Layout.lineBody_append hbody (by simp)
    rw [Layout.stretches, hline, List.drop_left, List.cons_append, List.cons_append,
      List.append_assoc]
    exact .line hbody (by simp) ih
  | @block body cs hbody _ ih =>
    have hmark : body ++ 'ビ' :: 'ゴ' :: cs = body ++ ['ビ', 'ゴ'] ++ cs := by simp
    rw [hmark, Layout.stretches, Layout.blockBody_append hbody, List.drop_left, List.cons_append,
      List.cons_append, List.append_assoc (body ++ _)]
    exact .block (Layout.blockBody_append hbody _) ih
  | @lastLine body last hbody =>
    have hline : Layout.lineBody body = body := by
      simpa using @Layout.lineBody_append body [] hbody nofun
    rw [Layout.stretches, hline, List.drop_length, Layout.stretches]
    exact .line hbody (by simp [last]) following
  | @lastBlock body last hbody =>
    rw [Layout.stretches, Layout.blockBody_eq_self hbody, List.drop_length, Layout.stretches]
    refine .block ?_ following
    rw [last, List.append_nil, Layout.blockBody_eq_self hbody]

theorem Scans.madeOf {before text : List Char} {tokens : List Token}
    (h : Scans before text tokens) : MadeOf text (stretches text) := by
  induction h with
  | @last before gap hgap =>
    have hmade := hgap.madeOf .nil
    rwa [List.append_nil, List.append_nil, ← stretches_layout hgap] at hmade
  | token hgap hstarts spelled _ ih =>
    rw [stretches_append hgap hstarts spelled]
    exact hgap.madeOf (.token hstarts spelled ih)

theorem madeOf_stretches (text : List Char) : MadeOf text (stretches text) :=
  (@scans_run _ [] text rfl).madeOf

/-- Nothing of the text is lost. -/
theorem MadeOf.flatMap_text {text : List Char} {stretches : List Stretch}
    (h : MadeOf text stretches) : stretches.flatMap Stretch.text = text := by
  induction h with
  | nil => rfl
  | blank _ _ ih => rw [List.flatMap_cons, ih]; rfl
  | line _ _ _ ih => rw [List.flatMap_cons, ih]; rfl
  | block _ _ ih => rw [List.flatMap_cons, ih]; rfl
  | token _ _ _ ih => rw [List.flatMap_cons, ih]; rfl

end Making

section Roles

theorem Stretch.roles_append (front back : List Stretch) :
    roles (front ++ back) = roles front ++ roles back :=
  List.flatMap_append

theorem Stretch.roles_cons (stretch : Stretch) (others : List Stretch) :
    roles (stretch :: others) =
      List.replicate stretch.text.length stretch.role ++ roles others := by
  rw [roles, List.flatMap_cons, List.map_const']
  rfl

theorem Lexeme.roles_stretch (lexeme : Lexeme) (others : List Stretch) :
    Stretch.roles (lexeme.stretch :: others) =
      List.replicate lexeme.spelling.length (.token lexeme.kind) ++ Stretch.roles others :=
  Stretch.roles_cons _ others

theorem Stretch.length_roles (stretches : List Stretch) :
    (roles stretches).length = (stretches.flatMap Stretch.text).length := by
  simp [roles, List.length_flatMap]

theorem Layout.stretches_role {gap : List Char} {stretch : Stretch}
    (h : stretch ∈ Layout.stretches gap) (kind : TokenKind) : stretch.role ≠ .token kind := by
  fun_induction Layout.stretches gap with
  | case1 cs ih =>
    rcases List.mem_cons.mp h with rfl | h
    · exact nofun
    · exact ih h
  | case2 cs ih =>
    rcases List.mem_cons.mp h with rfl | h
    · exact nofun
    · exact ih h
  | case3 c cs _ _ ih =>
    rcases List.mem_cons.mp h with rfl | h
    · exact nofun
    · exact ih h
  | case4 => cases h

theorem Layout.token_notMem_roles (gap : List Char) (kind : TokenKind) :
    .token kind ∉ Stretch.roles (Layout.stretches gap) := by
  intro h
  obtain ⟨stretch, hstretch, hrole⟩ := List.mem_flatMap.mp h
  obtain ⟨_, _, hrole⟩ := List.mem_map.mp hrole
  exact Layout.stretches_role hstretch kind hrole

theorem Layout.IsLayout.length_roles {rest gap : List Char} (h : IsLayout rest gap) :
    (Stretch.roles (Layout.stretches gap)).length = gap.length := by
  have hgap := (h.madeOf (madeOf_stretches rest)).flatMap_text
  rw [List.flatMap_append, (madeOf_stretches rest).flatMap_text] at hgap
  rw [Stretch.length_roles, List.append_cancel_right hgap]

end Roles

section Standing

/-- A token stands at one place only. -/
theorem Token.Stands.unique {text : List Char} {t : Token} {start stop start' stop' : Nat}
    (h : t.Stands text start stop) (h' : t.Stands text start' stop') :
    start = start' ∧ stop = stop' := by
  have hstart : start = start' := by
    have htake := @Position.eq_of_after_eq [] text _ _ (List.take_prefix start text)
      (List.take_prefix start' text) (h.position.symm.trans h'.position)
    have hlength := congrArg List.length htake
    have hlt := h.start_lt_stop
    have hle := h.stop_le
    have hlt' := h'.start_lt_stop
    have hle' := h'.stop_le
    rw [List.length_take, List.length_take] at hlength
    omega
  subst hstart
  refine ⟨rfl, ?_⟩
  have hstop := extract_append_drop text (Nat.le_of_lt h.start_lt_stop)
  have hstop' := extract_append_drop text (Nat.le_of_lt h'.start_lt_stop)
  have hlexeme := h.spelled.unique h'.spelled (hstop.trans hstop'.symm)
  have hlength : (text.extract start stop).length = (text.extract start stop').length :=
    congrArg (fun lexeme => lexeme.spelling.length) hlexeme
  have hlt := h.start_lt_stop
  have hle := h.stop_le
  have hlt' := h'.start_lt_stop
  have hle' := h'.stop_le
  simp only [List.extract_eq_take_drop, List.length_take, List.length_drop] at hlength
  omega

variable {before gap rest text : List Char} {lexeme : Lexeme} {tokens : List Token}

/-- A lexeme stands behind the layout that leads it. -/
theorem stands_of_spelled (hstarts : ¬Starts (lexeme.spelling ++ rest))
    (spelled : lexeme.Spelled rest) :
    Token.Stands (before ++ (lexeme.spelling ++ rest))
      ⟨lexeme.kind, lexeme.payload, .after before⟩ before.length
      (before.length + lexeme.spelling.length) := by
  have hpos := List.length_pos_iff.mpr spelled.ne_nil
  have hextract := extract_append before lexeme.spelling rest
  rw [List.append_assoc, List.length_append] at hextract
  refine ⟨by omega, by simp, ?_, ?_, ?_⟩
  · rwa [List.drop_left]
  · rw [hextract, ← List.append_assoc, ← List.length_append, List.drop_left]
    exact spelled
  · rw [List.take_left]

theorem Scans.length_le_of_stands (h : Scans before text tokens) {t : Token} (ht : t ∈ tokens)
    {start stop : Nat} (stands : t.Stands (before ++ text) start stop) : before.length ≤ start := by
  obtain ⟨front, hfront, hposition⟩ := h.exists_position t ht
  have hprefix : before ++ front <+: before ++ text :=
    (List.prefix_append_right_inj before).mpr hfront
  have htake := @Position.eq_of_after_eq [] _ _ _ hprefix (List.take_prefix start _)
    (hposition.symm.trans stands.position)
  have hlength := congrArg List.length htake
  rw [List.length_append, List.length_take] at hlength
  omega

theorem getElem?_around {α : Type} (front back : List α) (a : α) (n i : Nat) :
    (front ++ (List.replicate n a ++ back))[i]? = if i < front.length then front[i]?
      else if i < front.length + n then some a else back[i - (front.length + n)]? := by
  rw [List.getElem?_append]
  split
  · rfl
  rw [List.getElem?_append, List.length_replicate]
  split
  · rw [List.getElem?_replicate_of_lt (by assumption), if_pos (by omega)]
  · rw [if_neg (by omega), Nat.sub_sub]

/-- A character belongs to a token of a kind if one of the tokens stands there. -/
theorem Scans.exists_stands_iff (h : Scans before text tokens) (kind : TokenKind) (i : Nat) :
    (∃ t ∈ tokens, t.kind = kind ∧ ∃ start stop, t.Stands (before ++ text) start stop ∧
        start ≤ before.length + i ∧ before.length + i < stop) ↔
      (Stretch.roles (stretches text))[i]? = some (.token kind) := by
  induction h generalizing i with
  | @last before gap hgap =>
    rw [stretches_layout hgap]
    constructor
    · rintro ⟨t, ht, -, start, stop, stands, -⟩
      rw [List.eq_of_mem_singleton ht] at stands
      exact absurd rfl stands.spelled.kind_ne_eof
    · intro hrole
      exact absurd (List.mem_of_getElem? hrole) (Layout.token_notMem_roles gap kind)
  | @token before gap rest lexeme tokens hgap hstarts spelled others ih =>
    have htext : before ++ (gap ++ (lexeme.spelling ++ rest)) =
        before ++ gap ++ (lexeme.spelling ++ rest) := (List.append_assoc ..).symm
    have htext' : before ++ gap ++ (lexeme.spelling ++ rest) =
        before ++ gap ++ lexeme.spelling ++ rest := (List.append_assoc ..).symm
    have hfirst := @stands_of_spelled (before ++ gap) rest lexeme hstarts spelled
    have hlength := hgap.length_roles
    rw [stretches_append hgap hstarts spelled, Stretch.roles_append,
      lexeme.roles_stretch, htext, getElem?_around, hlength]
    rw [← htext'] at ih
    simp only [List.length_append] at ih hfirst
    constructor
    · rintro ⟨t, ht, rfl, start, stop, stands, hstart, hstop⟩
      rcases List.mem_cons.mp ht with rfl | ht
      · obtain ⟨rfl, rfl⟩ := hfirst.unique stands
        rw [if_neg (by omega), if_pos (by omega)]
      · have hle := others.length_le_of_stands ht (by rwa [← htext'])
        rw [List.length_append, List.length_append] at hle
        have hrole := (ih (i - (gap.length + lexeme.spelling.length))).mp
          ⟨t, ht, rfl, start, stop, stands, by omega, by omega⟩
        rwa [if_neg (by omega), if_neg (by omega)]
    · intro hrole
      split at hrole
      · exact absurd (List.mem_of_getElem? hrole) (Layout.token_notMem_roles gap kind)
      split at hrole
      · cases hrole
        exact ⟨_, List.mem_cons_self, rfl, _, _, hfirst, by omega, by omega⟩
      · obtain ⟨t, ht, hkind, start, stop, stands, hstart, hstop⟩ := (ih _).mpr hrole
        exact ⟨t, List.mem_cons_of_mem _ ht, hkind, start, stop, stands, by omega, by omega⟩

end Standing

end KanaScript
