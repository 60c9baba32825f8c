import KanaScript.Command.FileSystem
import KanaScript.Proofs.Command.Path

/-! The files of a file system.  A view says which file a path leads to, whether that file is there
or not, and what each file holds.  Nothing is said of when reading or writing fails. -/

open KanaScript.Path (IsFolder IsName)

namespace KanaScript

/-- Where the paths of a file system lead, and what its files hold.  Several paths can lead to one
file, and a path to no file at all. -/
structure FileView (σ : Type) [FileSystem σ] where
  Location : Type
  location? : σ → String → Option Location
  content? : σ → Location → Option ByteArray
  /-- What is read is the content of the file that the path leads to. -/
  of_read : ∀ {files : σ} {path : String} {bytes : ByteArray},
    FileSystem.read files path = .ok bytes →
      ∃ location, location? files path = some location ∧ content? files location = some bytes
  /-- What is written becomes the content of the file that the path leads to, and of no other. -/
  of_write : ∀ {files after : σ} {path : String} {bytes : ByteArray},
    FileSystem.write files path bytes = .ok after →
      ∃ location, location? files path = some location ∧ content? after location = some bytes ∧
        ∀ other ≠ location, content? after other = content? files other
  /-- Writing turns no path to another file. -/
  location?_write : ∀ {files after : σ} {path : String} {bytes : ByteArray},
    FileSystem.write files path bytes = .ok after →
      ∀ other, location? after other = location? files other

namespace FileView

variable {σ : Type} [FileSystem σ] {view : FileView σ} {files before after : σ}
  {path other : String} {bytes : ByteArray}

/-- What the file holds that a path leads to. -/
def contentAt? (view : FileView σ) (files : σ) (path : String) : Option ByteArray :=
  (view.location? files path).bind (view.content? files)

theorem contentAt?_of_read (h : FileSystem.read files path = .ok bytes) :
    view.contentAt? files path = some bytes := by
  obtain ⟨location, hlocation, hcontent⟩ := view.of_read h
  rw [contentAt?, hlocation, Option.bind_some, hcontent]

theorem isSome_location?_of_read (h : FileSystem.read files path = .ok bytes) :
    (view.location? files path).isSome := by
  obtain ⟨location, hlocation, -⟩ := view.of_read h
  rw [hlocation, Option.isSome_some]

theorem isSome_location?_of_write (h : FileSystem.write files path bytes = .ok after) :
    (view.location? files path).isSome := by
  obtain ⟨location, hlocation, -⟩ := view.of_write h
  rw [hlocation, Option.isSome_some]

/-- In `after`, `path` leads to a file with the content `bytes`; no other file and no path differs
from `before`. -/
structure Changes (view : FileView σ) (before after : σ) (path : String) (bytes : ByteArray) :
    Prop where
  written : view.contentAt? after path = some bytes
  others : ∀ location, some location ≠ view.location? before path →
    view.content? after location = view.content? before location
  paths : ∀ other, view.location? after other = view.location? before other

theorem changes_of_write (h : FileSystem.write files path bytes = .ok after) :
    view.Changes files after path bytes := by
  have hpaths := view.location?_write h
  obtain ⟨location, hlocation, hcontent, hothers⟩ := view.of_write h
  refine ⟨?_, fun other hne => hothers other fun heq => hne ?_, hpaths⟩
  · rw [contentAt?, hpaths, hlocation, Option.bind_some, hcontent]
  · rw [hlocation, heq]

/-- A path to another file leads to the same content as before. -/
theorem Changes.contentAt?_eq (h : view.Changes before after path bytes)
    (hne : view.location? before other ≠ view.location? before path) :
    view.contentAt? after other = view.contentAt? before other := by
  rw [contentAt?, contentAt?, h.paths]
  cases hlocation : view.location? before other with
  | none => rfl
  | some location => exact h.others location (hlocation ▸ hne)

/-- No file has two names: a path to a file ends in a name of it, and no two names in one folder
lead to the same file. -/
structure Unlinked (view : FileView σ) : Prop where
  exists_name : ∀ {files : σ} {path : String}, (view.location? files path).isSome →
    ∃ folder name, path = .ofList (folder ++ name) ∧ IsFolder folder ∧ IsName name
  name_eq : ∀ {files : σ} {folder name other : List Char}, IsFolder folder → IsName name →
    IsName other → (view.location? files (.ofList (folder ++ name))).isSome →
    view.location? files (.ofList (folder ++ name)) =
      view.location? files (.ofList (folder ++ other)) → name = other

/-- No file has a dot name. -/
theorem Unlinked.location?_dots (h : view.Unlinked) {folder : List Char}
    (hfolder : IsFolder folder) :
    view.location? files (.ofList (folder ++ ['.', '.'])) = none := by
  rw [← Option.not_isSome_iff_eq_none]
  intro hsome
  obtain ⟨folder', name, hpath, hfolder', hname⟩ := h.exists_name hsome
  have hparts := Path.parts_unique hfolder (by decide) hfolder' hname.unbroken
    (String.ofList_injective hpath)
  exact hname.not_dots hparts.2.symm

end FileView

end KanaScript
