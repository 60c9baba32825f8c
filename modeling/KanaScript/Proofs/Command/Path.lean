import KanaScript.Command.Path
import KanaScript.Proofs.Text.Run
import Mathlib.Data.List.Basic
import Mathlib.Tactic.SplitIfs

/-! Paths in two parts: the folder, with the slash at its end, and the file name.  A change of the
extension leaves the folder as it is. -/

namespace KanaScript.Path

open Text (IsRun)

variable {path folder name stem extension : List Char}

/-- The text in front of a file name. -/
def IsFolder (folder : List Char) : Prop := ∀ c ∈ folder.getLast?, c = '/'

/-- The name of a file, as opposed to the names that lead to a directory wherever they stand. -/
structure IsName (name : List Char) : Prop where
  nonempty : name ≠ []
  unbroken : '/' ∉ name
  not_dot : name ≠ ['.']
  not_dots : name ≠ ['.', '.']

section Parts

theorem isFolder_iff : IsFolder folder ↔ folder = [] ∨ ∃ front, folder = front ++ ['/'] := by
  rcases List.eq_nil_or_concat folder with rfl | ⟨front, c, rfl⟩
  · simp [IsFolder]
  · simp [IsFolder]

/-- In front of its folder, read backwards, a name is all up to the first slash. -/
theorem isRun_reverse (hfolder : IsFolder folder) (hname : '/' ∉ name) :
    IsRun (· != '/') name.reverse folder.reverse := by
  refine ⟨fun c hc => bne_iff_ne.mpr fun h => hname ?_, fun c hc => ?_⟩
  · rwa [h, List.mem_reverse] at hc
  · rw [List.head?_reverse] at hc
    simp [hfolder c hc]

/-- Every path is a folder and what stands behind the last slash. -/
theorem exists_parts (path : List Char) :
    ∃ folder name, path = folder ++ name ∧ IsFolder folder ∧ '/' ∉ name := by
  obtain ⟨run, rest, hpath, hrun⟩ := Text.exists_isRun (· != '/') path.reverse
  refine ⟨rest.reverse, run.reverse, ?_, fun c hc => ?_, fun hmem => ?_⟩
  · rw [← List.reverse_append, ← hpath, List.reverse_reverse]
  · rw [List.getLast?_reverse] at hc
    simpa using hrun.stop c hc
  · exact absurd (hrun.all '/' (List.mem_reverse.mp hmem)) (by decide)

theorem parts_unique {folder' name' : List Char} (hfolder : IsFolder folder) (hname : '/' ∉ name)
    (hfolder' : IsFolder folder') (hname' : '/' ∉ name') (h : folder ++ name = folder' ++ name') :
    folder = folder' ∧ name = name' := by
  have hbackwards : name.reverse ++ folder.reverse = name'.reverse ++ folder'.reverse := by
    rw [← List.reverse_append, h, List.reverse_append]
  obtain ⟨hnames, hfolders⟩ :=
    (isRun_reverse hfolder hname).unique (isRun_reverse hfolder' hname') hbackwards
  exact ⟨List.reverse_injective hfolders, List.reverse_injective hnames⟩

theorem split_ne_nil (path : List Char) : split path ≠ [] := by
  cases path with
  | nil => simp [split]
  | cons c path =>
    rw [split]
    split
    · simp
    · split <;> simp

theorem split_append_slash (front back : List Char) :
    split (front ++ '/' :: back) = split front ++ split back := by
  induction front with
  | nil => simp [split]
  | cons c front ih =>
    rw [List.cons_append, split, split, ih]
    obtain ⟨part, parts, hfront⟩ := List.exists_cons_of_ne_nil (split_ne_nil front)
    rw [hfront]
    split <;> rfl

theorem split_of_not_mem (h : '/' ∉ name) : split name = [name] := by
  induction name with
  | nil => rfl
  | cons c name ih =>
    obtain ⟨hc, hname⟩ := not_or.mp (List.mem_cons.not.mp h)
    rw [split, if_neg (Ne.symm hc), ih hname]

/-- The name is the last of the names of the path. -/
theorem names_append (hfolder : IsFolder folder) (hne : name ≠ []) (hname : '/' ∉ name) :
    names (.ofList (folder ++ name)) = names (.ofList folder) ++ [String.ofList name] := by
  have hlast : [name].filterMap
      (fun part => if part.isEmpty then none else some (String.ofList part)) =
        [String.ofList name] := by simp [hne]
  unfold names
  rw [String.toList_ofList, String.toList_ofList]
  rcases isFolder_iff.mp hfolder with rfl | ⟨front, rfl⟩
  · rw [List.nil_append, split_of_not_mem hname, hlast]
    rfl
  · rw [List.append_assoc, List.singleton_append, split_append_slash, split_append_slash,
      split_of_not_mem hname, List.filterMap_append, hlast, List.filterMap_append]
    simp [split]

theorem dropTrailing_reverse (hname : IsName name) (rest : List Char) :
    dropTrailing (name.reverse ++ rest) = name.reverse ++ rest := by
  obtain ⟨c, more, hbackwards⟩ :=
    List.exists_cons_of_ne_nil (List.reverse_ne_nil_iff.mpr hname.nonempty)
  have hslash : '/' ∉ c :: more := by rw [← hbackwards, List.mem_reverse]; exact hname.unbroken
  have hdot : c :: more ≠ ['.'] := fun h =>
    hname.not_dot (List.reverse_injective (hbackwards.trans h))
  rw [hbackwards, List.cons_append]
  unfold dropTrailing
  split
  · rename_i heq
    obtain ⟨rfl, -⟩ := List.cons.inj heq
    exact absurd List.mem_cons_self hslash
  · rename_i heq
    obtain ⟨rfl, hrest⟩ := List.cons.inj heq
    cases more with
    | nil => exact absurd rfl hdot
    | cons d more =>
      obtain ⟨rfl, -⟩ := List.cons.inj hrest
      exact absurd (List.mem_cons_of_mem _ List.mem_cons_self) hslash
  · rfl

theorem fileName?_append (hfolder : IsFolder folder) (hname : IsName name) :
    fileName? (folder ++ name) = some (folder, name) := by
  have hrun := isRun_reverse hfolder hname.unbroken
  rw [fileName?, List.reverse_append, dropTrailing_reverse hname, hrun.takeWhile_append,
    hrun.dropWhile_append]
  simp [hname.nonempty, hname.not_dot, hname.not_dots]

theorem fileName?_dots (hfolder : IsFolder folder) : fileName? (folder ++ ['.', '.']) = none := by
  have hrun : IsRun (· != '/') ['.', '.'].reverse folder.reverse :=
    isRun_reverse hfolder (by decide)
  have hstop : dropTrailing (['.', '.'].reverse ++ folder.reverse) =
      ['.', '.'].reverse ++ folder.reverse := rfl
  rw [fileName?, List.reverse_append, hstop, hrun.takeWhile_append]
  rfl

end Parts

section Extensions

theorem splitExtension_append (hstem : stem ≠ []) (hextension : '.' ∉ extension) :
    splitExtension (stem ++ '.' :: extension) = (stem, extension) := by
  have hrun : IsRun (· != '.') extension.reverse ('.' :: stem.reverse) :=
    Text.isRun_until (List.mem_reverse.not.mpr hextension) _
  have hbackwards : (stem ++ '.' :: extension).reverse =
      extension.reverse ++ '.' :: stem.reverse := by simp
  obtain ⟨c, more, hreverse⟩ := List.exists_cons_of_ne_nil (List.reverse_ne_nil_iff.mpr hstem)
  rw [splitExtension, hbackwards, hrun.takeWhile_append, hrun.dropWhile_append, hreverse]
  dsimp only
  rw [← hreverse, List.reverse_reverse, List.reverse_reverse]

/-- A dot at the start of a name does not count. -/
theorem splitExtension_of_not_mem (h : '.' ∉ name.tail) : splitExtension name = (name, []) := by
  cases name with
  | nil => rfl
  | cons c cs =>
    have hall : ∀ d ∈ cs.reverse, (d != '.') = true := fun d hd =>
      bne_iff_ne.mpr fun hdot => h (hdot ▸ List.mem_reverse.mp hd)
    rw [splitExtension, List.reverse_cons]
    by_cases hc : c = '.'
    · have hrun : IsRun (· != '.') cs.reverse [c] := ⟨hall, by simp [hc]⟩
      rw [hrun.dropWhile_append]
    · have hrun : IsRun (· != '.') (cs.reverse ++ [c]) [] :=
        ⟨List.forall_mem_append.mpr ⟨hall, by simp [hc]⟩, by simp⟩
      have hnone := hrun.dropWhile_append
      rw [List.append_nil] at hnone
      rw [hnone]

theorem exists_extension (h : '.' ∈ name.tail) :
    ∃ stem extension, stem ≠ [] ∧ '.' ∉ extension ∧ name = stem ++ '.' :: extension := by
  cases name with
  | nil => cases h
  | cons c cs =>
    obtain ⟨run, rest, hparts, hrun⟩ := Text.exists_isRun (· != '.') cs.reverse
    have hrun' : '.' ∉ run := fun hmem => absurd (hrun.all '.' hmem) (by decide)
    cases rest with
    | nil =>
      rw [List.append_nil] at hparts
      exact absurd (hparts ▸ List.mem_reverse.mpr h) hrun'
    | cons d rest =>
      obtain rfl : d = '.' := by simpa using hrun.stop d rfl
      have hcs : cs = rest.reverse ++ '.' :: run.reverse := by
        rw [← List.reverse_reverse cs, hparts]
        simp
      exact ⟨c :: rest.reverse, run.reverse, List.cons_ne_nil _ _, List.mem_reverse.not.mpr hrun',
        congrArg (c :: ·) hcs⟩

/-- The file name with another extension.  The name `..x` is left with a dot name in front of its
extension, and becomes that. -/
def renamed (name extension : List Char) : List Char :=
  let stem := (splitExtension name).1
  if stem = ['.'] then ['.', '.'] else stem ++ '.' :: extension

theorem isName_of_stem (hne : stem ≠ []) (hdot : stem ≠ ['.']) (hstem : '/' ∉ stem)
    (hextension : '/' ∉ extension) : IsName (stem ++ '.' :: extension) := by
  refine ⟨by simp, by simp [hstem, hextension], fun h => ?_, fun h => hdot ?_⟩
  · rcases List.append_eq_singleton_iff.mp h with ⟨hnil, -⟩ | ⟨-, hnil⟩
    · exact hne hnil
    · exact List.cons_ne_nil _ _ hnil
  · obtain ⟨c, more, rfl⟩ := List.exists_cons_of_ne_nil hne
    obtain ⟨rfl, hrest⟩ := List.cons.inj h
    rcases List.append_eq_singleton_iff.mp hrest with ⟨rfl, -⟩ | ⟨-, hnil⟩
    · rfl
    · exact absurd hnil (List.cons_ne_nil _ _)

theorem setExtension_append (hfolder : IsFolder folder) (hname : IsName name)
    (extension : List Char) :
    setExtension (folder ++ name) extension =
      folder ++ ((splitExtension name).1 ++ '.' :: extension) := by
  rw [setExtension, fileName?_append hfolder hname]
  exact List.append_assoc ..

/-- A change of the extension changes the file name only. -/
theorem withExtension_append (hfolder : IsFolder folder) (hname : IsName name)
    (extension : List Char) :
    withExtension (folder ++ name) extension = folder ++ renamed name extension := by
  rw [withExtension, fileName?_append hfolder hname, renamed]
  dsimp only
  by_cases hdot : '.' ∈ name.tail
  · obtain ⟨stem, old, hstem, hold, rfl⟩ := exists_extension hdot
    have hcut : folder ++ (stem ++ '.' :: old) = folder ++ (stem ++ ['.']) ++ old := by simp
    have htake : (folder ++ (stem ++ '.' :: old)).take
        ((folder ++ (stem ++ '.' :: old)).length - old.length) = folder ++ (stem ++ ['.']) := by
      rw [hcut, List.length_append, Nat.add_sub_cancel, List.take_left]
    rw [splitExtension_append hstem hold]
    dsimp only
    rw [htake]
    split_ifs with h
    · rw [h, List.singleton_append, setExtension, fileName?_dots hfolder]
    · have hslash : '/' ∉ stem := fun hmem => hname.unbroken (List.mem_append_left _ hmem)
      rw [setExtension_append hfolder (isName_of_stem hstem h hslash List.not_mem_nil),
        splitExtension_append hstem List.not_mem_nil]
  · rw [splitExtension_of_not_mem hdot]
    dsimp only
    rw [List.length_nil, Nat.sub_zero, List.take_length, setExtension_append hfolder hname,
      splitExtension_of_not_mem hdot, if_neg hname.not_dot]

/-- The stem of a name is a part of it. -/
theorem stem_of_isName (hname : IsName name) :
    (splitExtension name).1 ≠ [] ∧ '/' ∉ (splitExtension name).1 := by
  by_cases hdot : '.' ∈ name.tail
  · obtain ⟨stem, old, hstem, hold, rfl⟩ := exists_extension hdot
    rw [splitExtension_append hstem hold]
    exact ⟨hstem, fun hmem => hname.unbroken (List.mem_append_left _ hmem)⟩
  · rw [splitExtension_of_not_mem hdot]
    exact ⟨hname.nonempty, hname.unbroken⟩

theorem isName_renamed (hname : IsName name) (hextension : '/' ∉ extension) :
    renamed name extension = ['.', '.'] ∨ IsName (renamed name extension) := by
  unfold renamed
  dsimp only
  split_ifs with h
  · exact .inl rfl
  · obtain ⟨hne, hslash⟩ := stem_of_isName hname
    exact .inr (isName_of_stem hne h hslash hextension)

/-- A name stays the same exactly if it has the extension already and not only a dot in front of
it. -/
theorem renamed_eq_self_iff (hname : IsName name) (hextension : '.' ∉ extension) :
    renamed name extension = name ↔
      ∃ stem, stem ≠ [] ∧ stem ≠ ['.'] ∧ name = stem ++ '.' :: extension := by
  unfold renamed
  dsimp only
  constructor
  · intro h
    split_ifs at h with hstem
    · exact absurd h.symm hname.not_dots
    · exact ⟨_, (stem_of_isName hname).1, hstem, h.symm⟩
  · rintro ⟨stem, hne, hdot, rfl⟩
    rw [splitExtension_append hne hextension, if_neg hdot]

/-- The file name of a path has this extension. -/
def HasExtension (path : String) (extension : List Char) : Prop :=
  ∃ folder stem, IsFolder folder ∧ stem ≠ [] ∧ '/' ∉ stem ∧
    path.toList = folder ++ (stem ++ '.' :: extension)

theorem hasExtension_iff (hfolder : IsFolder folder) (hname : IsName name)
    (hextension : '/' ∉ extension) : HasExtension (.ofList (folder ++ name)) extension ↔
      ∃ stem, stem ≠ [] ∧ name = stem ++ '.' :: extension := by
  rw [HasExtension, String.toList_ofList]
  constructor
  · rintro ⟨folder', stem, hfolder', hne, hstem, hpath⟩
    have hname' : '/' ∉ stem ++ '.' :: extension := by
      simp [hstem, hextension]
    exact ⟨stem, hne, (parts_unique hfolder hname.unbroken hfolder' hname' hpath).2⟩
  · rintro ⟨stem, hne, rfl⟩
    have hstem : '/' ∉ stem := fun hmem => hname.unbroken (List.mem_append_left _ hmem)
    exact ⟨folder, stem, hfolder, hne, hstem, rfl⟩

end Extensions

end KanaScript.Path
