import KanaScript.Proofs.Command.Path
import KanaScript.Proofs.Command.Run

/-! The input of a compilation that names no output.  It is written to a file beside the input, with
the extension `c`, so where no file has two names the input is lost exactly if it has that extension
itself. -/

open KanaScript.Path (IsFolder IsName HasExtension renamed)

namespace KanaScript

namespace Job

section Paths

variable {σ : Type} [FileSystem σ] {view : FileView σ} {files : σ} {path : String}

theorem outputPath_append {folder name : List Char} (hfolder : IsFolder folder)
    (hname : IsName name) : outputPath (.ofList (folder ++ name)) none =
      .ofList (folder ++ renamed name ['c']) := by
  rw [outputPath, String.toList_ofList, Path.withExtension_append hfolder hname]

/-- The output can be the input only if this has the extension already. -/
theorem location?_outputPath_ne (unlinked : view.Unlinked)
    (hinput : (view.location? files path).isSome) (hextension : ¬HasExtension path ['c']) :
    view.location? files path ≠ view.location? files (outputPath path none) := by
  obtain ⟨folder, name, rfl, hfolder, hname⟩ := unlinked.exists_name hinput
  rw [Path.hasExtension_iff hfolder hname (by decide)] at hextension
  rw [outputPath_append hfolder hname]
  have hslash : '/' ∉ ['c'] := by decide
  rcases Path.isName_renamed hname hslash with hdots | hrenamed
  · rw [hdots, unlinked.location?_dots hfolder]
    exact Option.isSome_iff_ne_none.mp hinput
  · intro heq
    have hsame := unlinked.name_eq hfolder hname hrenamed hinput heq
    obtain ⟨stem, hstem, -, hparts⟩ := (Path.renamed_eq_self_iff hname (by decide)).mp hsame.symm
    exact hextension ⟨stem, hstem, hparts⟩

/-- With that extension the output is the input, or a name that no file has. -/
theorem outputPath_eq_self (unlinked : view.Unlinked) (hinput : (view.location? files path).isSome)
    (hextension : HasExtension path ['c'])
    (houtput : (view.location? files (outputPath path none)).isSome) :
    outputPath path none = path := by
  obtain ⟨folder, name, rfl, hfolder, hname⟩ := unlinked.exists_name hinput
  obtain ⟨stem, hstem, rfl⟩ := (Path.hasExtension_iff hfolder hname (by decide)).mp hextension
  rw [outputPath_append hfolder hname] at houtput ⊢
  by_cases hdot : stem = ['.']
  · subst hdot
    have hnone : view.location? files (.ofList (folder ++ ['.', '.'])) = none :=
      unlinked.location?_dots hfolder
    exact absurd hnone (Option.isSome_iff_ne_none.mp houtput)
  · rw [(Path.renamed_eq_self_iff hname (by decide)).mpr ⟨stem, hstem, hdot, rfl⟩]

end Paths

namespace Ends

variable {σ : Type} [FileSystem σ] {view : FileView σ} {job : Job} {files after : σ}
  {status : UInt8}

theorem contentAt?_input (h : job.Ends files status after) (unlinked : view.Unlinked)
    (houtput : job.output = none) (hkept : status = 0 → ¬HasExtension job.input ['c']) :
    view.contentAt? after job.input = view.contentAt? files job.input := by
  by_cases hstatus : status = 0
  · obtain ⟨code, ⟨bytes, source, hread, -⟩, hwrite⟩ := h.exists_write hstatus
    have hinput : (view.location? files job.input).isSome :=
      FileView.isSome_location?_of_read hread
    rw [houtput] at hwrite
    exact (FileView.changes_of_write hwrite).contentAt?_eq
      (location?_outputPath_ne unlinked hinput (hkept hstatus))
  · rw [h.eq_of_status_ne_zero hstatus]

theorem contentAt?_overwritten (h : job.Ends files status after) (unlinked : view.Unlinked)
    (houtput : job.output = none) (hextension : HasExtension job.input ['c'])
    (hstatus : status = 0) : ∃ code, Compiles files job.input code ∧
      view.contentAt? after job.input = some code.toUTF8 := by
  obtain ⟨code, hcode, hwrite⟩ := h.exists_write hstatus
  obtain ⟨bytes, source, hread, -⟩ := id hcode
  rw [houtput] at hwrite
  have hsame : outputPath job.input none = job.input :=
    outputPath_eq_self unlinked (FileView.isSome_location?_of_read hread) hextension
      (FileView.isSome_location?_of_write hwrite)
  rw [hsame] at hwrite
  exact ⟨code, hcode, (FileView.changes_of_write hwrite).written⟩

end Ends

end Job

section Arguments

end Arguments

end KanaScript
