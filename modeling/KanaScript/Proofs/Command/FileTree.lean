import KanaScript.Command.FileTree
import KanaScript.Proofs.Command.FileSystem

/-! Reading and writing in a file tree.  A file that is written has the new content, and no other
file and no directory changes: writing never makes a directory.  So a tree has a view, in which no
file has two names. -/

open KanaScript.Path (IsFolder IsName)

namespace KanaScript.FileTree

section Names

variable {names others : List String} {bytes : ByteArray} {files : List (List String × ByteArray)}

theorem lookup_put_self : (put names bytes files).lookup names = some bytes := by
  induction files with
  | nil => simp [put]
  | cons file files ih =>
    by_cases h : file.1 = names
    · simp [put, h]
    · have hne : (names == file.1) = false := by simpa using Ne.symm h
      rw [put, if_neg h, List.lookup_cons, hne]
      exact ih

theorem lookup_put_of_ne (hne : others ≠ names) :
    (put names bytes files).lookup others = files.lookup others := by
  have hother : (others == names) = false := by simpa using hne
  induction files with
  | nil => simp [put, List.lookup_cons, hother]
  | cons file files ih =>
    by_cases h : file.1 = names
    · rw [put, if_pos h, List.lookup_cons, List.lookup_cons, h, hother]
    · rw [put, if_neg h, List.lookup_cons, List.lookup_cons, ih]

theorem mem_names_put : others ∈ (put names bytes files).map Prod.fst ↔
    others = names ∨ others ∈ files.map Prod.fst := by
  induction files with
  | nil => simp [put]
  | cons file files ih =>
    by_cases h : file.1 = names
    · rw [put, if_pos h]
      simp [h]
    · rw [put, if_neg h, List.map_cons, List.mem_cons, ih, List.map_cons, List.mem_cons]
      exact or_left_comm

end Names

section Directories

variable {tree : FileTree} {names others : List String}

theorem isDirectory_iff : tree.isDirectory names = true ↔
    names <+: tree.current ∨ (∃ directory ∈ tree.directories, names <+: directory) ∨
      ∃ file ∈ tree.files.map Prod.fst, names <+: file ∧ names.length < file.length := by
  simp [isDirectory, List.any_eq_true, List.isPrefixOf_iff_prefix, or_assoc]

/-- What leads to a directory leads through directories. -/
theorem isDirectory_of_isPrefix (h : tree.isDirectory names = true) (hbegins : others <+: names) :
    tree.isDirectory others = true := by
  rw [isDirectory_iff] at h ⊢
  rcases h with hcurrent | ⟨directory, hmem, hdirectory⟩ | ⟨file, hmem, hfile, hlength⟩
  · exact .inl (hbegins.trans hcurrent)
  · exact .inr (.inl ⟨directory, hmem, hbegins.trans hdirectory⟩)
  · exact .inr (.inr ⟨file, hmem, hbegins.trans hfile,
      Nat.lt_of_le_of_lt hbegins.length_le hlength⟩)

/-- A file that is put into a directory makes no directory. -/
theorem isDirectory_put (hparent : tree.isDirectory names = true) (name : String)
    (bytes : ByteArray) :
    { tree with files := put (names ++ [name]) bytes tree.files }.isDirectory others =
      tree.isDirectory others := by
  rw [Bool.eq_iff_iff]
  constructor
  · intro h
    rcases isDirectory_iff.mp h with hcurrent | hdirectory | ⟨file, hmem, hfile, hlength⟩
    · exact isDirectory_iff.mpr (.inl hcurrent)
    · exact isDirectory_iff.mpr (.inr (.inl hdirectory))
    · rcases mem_names_put.mp hmem with rfl | hmem
      · -- a proper prefix of the new name leads to the directory that it is put into
        refine isDirectory_of_isPrefix hparent ?_
        rcases List.prefix_concat_iff.mp hfile with rfl | hbegins
        · exact absurd hlength (Nat.lt_irrefl _)
        · exact hbegins
      · exact isDirectory_iff.mpr (.inr (.inr ⟨file, hmem, hfile, hlength⟩))
  · intro h
    rcases isDirectory_iff.mp h with hcurrent | hdirectory | ⟨file, hmem, hfile, hlength⟩
    · exact isDirectory_iff.mpr (.inl hcurrent)
    · exact isDirectory_iff.mpr (.inr (.inl hdirectory))
    · exact isDirectory_iff.mpr
        (.inr (.inr ⟨file, mem_names_put.mpr (.inr hmem), hfile, hlength⟩))

theorem isDirectory_of_enter {next : List String} {name : String}
    (hnames : tree.isDirectory names = true) (h : tree.enter names name = .ok next) :
    tree.isDirectory next = true := by
  unfold enter at h
  split at h
  · cases h
    exact hnames
  split at h
  · cases h
    exact isDirectory_of_isPrefix hnames (List.dropLast_prefix names)
  split at h
  · rename_i hdirectory
    cases h
    exact hdirectory
  split at h
  · cases h
  · cases h

theorem foldlM_cons_eq_ok_iff {last : List String} {name : String} {path : List String} :
    (name :: path).foldlM tree.enter names = .ok last ↔
      ∃ next, tree.enter names name = .ok next ∧ path.foldlM tree.enter next = .ok last := by
  rw [List.foldlM_cons]
  cases tree.enter names name with
  | error e => simp [bind, Except.bind]
  | ok next => simp [bind, Except.bind]

theorem isDirectory_of_foldlM {last path : List String} (hnames : tree.isDirectory names = true)
    (h : path.foldlM tree.enter names = .ok last) : tree.isDirectory last = true := by
  induction path generalizing names with
  | nil =>
    cases h
    exact hnames
  | cons name path ih =>
    obtain ⟨next, henter, hlast⟩ := foldlM_cons_eq_ok_iff.mp h
    exact ih (isDirectory_of_enter hnames henter) hlast

theorem isDirectory_start (tree : FileTree) (path : String) :
    tree.isDirectory (tree.start path) = true := by
  rw [isDirectory_iff, start]
  split
  · exact .inl List.nil_prefix
  · exact .inl List.prefix_rfl

end Directories

section Paths

variable {tree after : FileTree} {path other : String} {bytes : ByteArray}

/-- The names of the file that a target is, which need not exist.  A target with a slash after it
and a dot name are no files. -/
def Target.location? (target : Target) : Option (List String) :=
  if target.slash || target.name == "." || target.name == ".." then none
  else some (target.directory ++ [target.name])

/-- The names of the file that a path leads to, which need not exist. -/
def location? (tree : FileTree) (path : String) : Option (List String) :=
  (tree.target path).toOption.bind Target.location?

theorem read_eq_ok_iff : tree.read path = .ok bytes ↔ ∃ names, tree.location? path = some names ∧
    tree.isDirectory names = false ∧ tree.file? names = some bytes := by
  rw [read, location?]
  cases tree.target path with
  | error e => simp [Except.toOption, bind, Except.bind]
  | ok target =>
    obtain ⟨names, name, slash⟩ := target
    simp only [Except.toOption, bind, Except.bind, Option.bind_some, Target.location?]
    split
    · cases tree.enter names name <;> simp
    · cases hdirectory : tree.isDirectory (names ++ [name]) with
      | true => simp [hdirectory]
      | false => cases hfile : tree.file? (names ++ [name]) <;> simp [hdirectory, hfile]

theorem write_eq_ok_iff : tree.write path bytes = .ok after ↔
    ∃ names, tree.location? path = some names ∧ tree.isDirectory names = false ∧
      after = { tree with files := put names bytes tree.files } := by
  rw [write, location?]
  cases tree.target path with
  | error e => simp [Except.toOption, bind, Except.bind]
  | ok target =>
    obtain ⟨names, name, slash⟩ := target
    simp only [Except.toOption, bind, Except.bind, Option.bind_some, Target.location?]
    split
    · simp
    · cases hdirectory : tree.isDirectory (names ++ [name]) with
      | true => simp [hdirectory]
      | false =>
        simp only [Bool.false_eq_true, if_false, Except.ok.injEq, Option.some.injEq,
          exists_eq_left', hdirectory, true_and]
        exact eq_comm

theorem target_eq_ok_iff {target : Target} : tree.target path = .ok target ↔
    (Path.names path).getLast? = some target.name ∧
      (Path.names path).dropLast.foldlM tree.enter (tree.start path) = .ok target.directory ∧
      target.slash = decide (path.toList.getLast? = some '/') := by
  obtain ⟨names, name, slash⟩ := target
  unfold FileTree.target
  cases (Path.names path).getLast? with
  | none => simp
  | some last =>
    change ((Path.names path).dropLast.foldlM tree.enter (tree.start path) >>= fun names =>
      .ok (Target.mk names last (path.toList.getLast? = some '/'))) = _ ↔ _
    cases (Path.names path).dropLast.foldlM tree.enter (tree.start path) with
    | error e => simp [bind, Except.bind]
    | ok last => simp [bind, Except.bind, and_left_comm, eq_comm]

theorem location?_eq_some_iff {location : List String} : tree.location? path = some location ↔
    ∃ target, tree.target path = .ok target ∧ target.slash = false ∧ target.name ≠ "." ∧
      target.name ≠ ".." ∧ target.directory ++ [target.name] = location := by
  rw [location?]
  cases tree.target path with
  | error e => simp [Except.toOption]
  | ok target =>
    simp only [Except.toOption, Option.bind_some, Target.location?, Except.ok.injEq,
      exists_eq_left', Option.ite_none_left_eq_some, Bool.or_eq_true, beq_iff_eq, not_or,
      Bool.not_eq_true, and_assoc, Option.some.injEq, ne_eq]

/-- A file stands in a directory. -/
theorem of_location?_eq_some {location : List String} (h : tree.location? path = some location) :
    ∃ names name, location = names ++ [name] ∧ tree.isDirectory names = true := by
  obtain ⟨target, htarget, -, -, -, rfl⟩ := location?_eq_some_iff.mp h
  exact ⟨target.directory, target.name, rfl,
    isDirectory_of_foldlM (isDirectory_start tree path) (target_eq_ok_iff.mp htarget).2.1⟩

end Paths

section Congruence

variable {tree after : FileTree}

/-- In trees with the same directories the same directories can be entered. -/
theorem enter_congr (h : ∀ names, after.isDirectory names = tree.isDirectory names)
    {names next : List String} {name : String} :
    after.enter names name = .ok next ↔ tree.enter names name = .ok next := by
  simp only [enter, h]
  split
  · rfl
  split
  · rfl
  split
  · rfl
  · constructor <;> intro h <;> split at h <;> cases h

theorem foldlM_congr (h : ∀ names, after.isDirectory names = tree.isDirectory names)
    {names last path : List String} :
    path.foldlM after.enter names = .ok last ↔ path.foldlM tree.enter names = .ok last := by
  induction path generalizing names with
  | nil => rfl
  | cons name path ih => simp only [foldlM_cons_eq_ok_iff, enter_congr h, ih]

theorem location?_congr (hcurrent : after.current = tree.current)
    (h : ∀ names, after.isDirectory names = tree.isDirectory names) (path : String) :
    after.location? path = tree.location? path := by
  have hstart : after.start path = tree.start path := by rw [start, start, hcurrent]
  have htarget : ∀ target, after.target path = .ok target ↔ tree.target path = .ok target :=
    fun target => by rw [target_eq_ok_iff, target_eq_ok_iff, foldlM_congr h, hstart]
  ext location
  simp only [location?_eq_some_iff, htarget]

end Congruence

section Parts

variable {tree : FileTree} {folder name : List Char}

theorem start_append (hne : name ≠ []) (hname : '/' ∉ name) :
    tree.start (.ofList (folder ++ name)) = tree.start (.ofList folder) := by
  obtain ⟨c, more, rfl⟩ := List.exists_cons_of_ne_nil hne
  have hc : c ≠ '/' := fun h => hname (h ▸ List.mem_cons_self)
  unfold start
  rw [String.toList_ofList, String.toList_ofList]
  cases folder with
  | nil => simp [hc]
  | cons d folder => rfl

theorem target_append (hfolder : IsFolder folder) (hne : name ≠ []) (hname : '/' ∉ name)
    {target : Target} : tree.target (.ofList (folder ++ name)) = .ok target ↔
      target.name = .ofList name ∧
        (Path.names (.ofList folder)).foldlM tree.enter (tree.start (.ofList folder)) =
          .ok target.directory ∧ target.slash = false := by
  have hlast : (folder ++ name).getLast? ≠ some '/' := by
    rw [List.getLast?_append_of_ne_nil _ hne]
    exact fun h => hname (List.mem_of_getLast? h)
  rw [target_eq_ok_iff, Path.names_append hfolder hne hname, start_append hne hname,
    String.toList_ofList, decide_eq_false hlast, List.getLast?_concat, List.dropLast_concat,
    Option.some.injEq, eq_comm]

/-- The path of a file is a folder and a name. -/
theorem exists_parts_of_location? {path : String} (h : (tree.location? path).isSome) :
    ∃ folder name, path = .ofList (folder ++ name) ∧ IsFolder folder ∧ IsName name := by
  obtain ⟨location, hlocation⟩ := Option.isSome_iff_exists.mp h
  obtain ⟨target, htarget, hslash, hdot, hdots, -⟩ := location?_eq_some_iff.mp hlocation
  obtain ⟨folder, name, hpath, hfolder, hname⟩ := Path.exists_parts path.toList
  have hne : name ≠ [] := by
    rintro rfl
    obtain ⟨hlast, -, hend⟩ := target_eq_ok_iff.mp htarget
    rw [hslash, hpath, List.append_nil] at hend
    rcases Path.isFolder_iff.mp hfolder with rfl | ⟨front, rfl⟩
    · rw [Path.names, hpath] at hlast
      cases hlast
    · simp at hend
  obtain rfl : path = .ofList (folder ++ name) := by rw [← hpath, String.ofList_toList]
  obtain ⟨hfile, -⟩ := (target_append hfolder hne hname).mp htarget
  rw [hfile] at hdot hdots
  exact ⟨folder, name, rfl, hfolder, hne, hname, fun h => hdot (h ▸ rfl), fun h => hdots (h ▸ rfl)⟩

/-- The last name of a path to a file is the name of the file. -/
theorem getLast?_of_location? (hfolder : IsFolder folder) (hname : IsName name)
    {location : List String} (h : tree.location? (.ofList (folder ++ name)) = some location) :
    location.getLast? = some (String.ofList name) := by
  obtain ⟨target, htarget, -, -, -, rfl⟩ := location?_eq_some_iff.mp h
  rw [List.getLast?_concat,
    ((target_append hfolder hname.nonempty hname.unbroken).mp htarget).1]

end Parts

section View

variable {tree after : FileTree} {path : String} {bytes : ByteArray}

theorem file?_of_read (h : tree.read path = .ok bytes) :
    ∃ names, tree.location? path = some names ∧ tree.file? names = some bytes := by
  obtain ⟨names, hlocation, -, hfile⟩ := read_eq_ok_iff.mp h
  exact ⟨names, hlocation, hfile⟩

theorem file?_of_write (h : tree.write path bytes = .ok after) :
    ∃ names, tree.location? path = some names ∧ after.file? names = some bytes ∧
      ∀ others ≠ names, after.file? others = tree.file? others := by
  obtain ⟨names, hlocation, -, rfl⟩ := write_eq_ok_iff.mp h
  exact ⟨names, hlocation, lookup_put_self, fun others hne => lookup_put_of_ne hne⟩

theorem location?_of_write (h : tree.write path bytes = .ok after) (other : String) :
    after.location? other = tree.location? other := by
  obtain ⟨location, hlocation, -, rfl⟩ := write_eq_ok_iff.mp h
  obtain ⟨names, name, rfl, hparent⟩ := of_location?_eq_some hlocation
  refine location?_congr ?_ (fun others => isDirectory_put hparent name bytes) other
  rfl

/-- The files of a tree by their names. -/
def view : FileView FileTree where
  Location := List String
  location? := location?
  content? := file?
  of_read := file?_of_read
  of_write := file?_of_write
  location?_write := location?_of_write

theorem unlinked_view : view.Unlinked where
  exists_name := exists_parts_of_location?
  name_eq := by
    intro tree folder name other hfolder hname hother hsome heq
    obtain ⟨location, hlocation⟩ := Option.isSome_iff_exists.mp hsome
    have hlast := getLast?_of_location? hfolder hname hlocation
    have hlast' := getLast?_of_location? hfolder hother (heq ▸ hlocation)
    exact String.ofList_injective (Option.some.inj (hlast.symm.trans hlast'))

end View

end KanaScript.FileTree
