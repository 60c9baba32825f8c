import KanaScript.Command.Run
import KanaScript.Proofs.Command.FileTree

/-! What a command line does to the files: nothing if it fails, and if it compiles, no more than to
write the C text of its input to its output.  This holds in every file system that has a view,
whatever makes reading or writing fail there. -/

namespace KanaScript

variable {σ : Type} [FileSystem σ]

/-- The path leads to a text that compiles to `code`. -/
def Compiles (files : σ) (path code : String) : Prop :=
  ∃ bytes source, FileSystem.read files path = .ok bytes ∧
    String.fromUTF8? bytes = some source ∧ compile source = .ok code

theorem Compiles.unique {files : σ} {path code other : String} (h : Compiles files path code)
    (h' : Compiles files path other) : code = other := by
  obtain ⟨bytes, source, hread, htext, hcompile⟩ := h
  obtain ⟨bytes', source', hread', htext', hcompile'⟩ := h'
  cases hread.symm.trans hread'
  cases htext.symm.trans htext'
  cases hcompile.symm.trans hcompile'
  rfl

namespace Job

variable {job : Job} {verbose : Bool} {terminal : Terminal} {files after : σ} {code : String}

/-- What a job shows and logs has no part in what it writes. -/
theorem process_result_iff (hinspect : job.inspect = false) (verbose : Bool) (terminal : Terminal)
    {output : Option Output} :
    (job.process verbose terminal (FileSystem.read files job.input)).result = .ok output ↔
      ∃ code, output = some ⟨outputPath job.input job.output, code⟩ ∧
        Compiles files job.input code := by
  unfold Compiles
  cases FileSystem.read files job.input with
  | error error => simp [process]
  | ok bytes =>
    cases htext : String.fromUTF8? bytes with
    | none => simp [process, htext]
    | some source =>
      simp only [process, htext, hinspect, compile]
      cases hparse : parse (tokenize source) with
      | error error => simp [htext, hparse, Except.map]
      | ok program =>
        simp only [Bool.false_eq_true, if_false, Except.ok.injEq]
        simp [htext, hparse, Except.map, eq_comm]

/-- The inspector leaves nothing to be written. -/
theorem process_result_of_inspect (hinspect : job.inspect = true) (verbose : Bool)
    (terminal : Terminal) (content : Except SystemError ByteArray) {output : Option Output}
    (h : (job.process verbose terminal content).result = .ok output) : output = none := by
  unfold process at h
  split at h
  · cases h
  split at h
  · cases h
  rw [if_pos hinspect] at h
  split at h
  · cases h
  · exact (Except.ok.inj h).symm

theorem run_of_inspect (hinspect : job.inspect = true) (verbose : Bool) (terminal : Terminal)
    (files : σ) : (job.run verbose terminal files).2 = files := by
  simp only [run]
  cases hresult : (job.process verbose terminal (FileSystem.read files job.input)).result with
  | error error => rfl
  | ok output =>
    obtain rfl := process_result_of_inspect hinspect verbose terminal _ hresult
    rfl

/-- A job writes its output if the input compiles and the output can be written, and otherwise it
fails and changes nothing. -/
inductive Ends (job : Job) (files : σ) (status : UInt8) (after : σ) : Prop
  | written {code : String} (compiles : Compiles files job.input code)
      (write : FileSystem.write files (outputPath job.input job.output) code.toUTF8 = .ok after)
      (success : status = 0)
  | failed (refused : ∀ code (other : σ), Compiles files job.input code →
        FileSystem.write files (outputPath job.input job.output) code.toUTF8 ≠ .ok other)
      (failure : status = 1) (unchanged : after = files)

theorem ends_run (hinspect : job.inspect = false) (verbose : Bool) (terminal : Terminal)
    (files : σ) :
    job.Ends files (job.run verbose terminal files).1.status (job.run verbose terminal files).2 := by
  have hiff : ∀ output, _ ↔ _ := fun output =>
    @process_result_iff σ _ job files hinspect verbose terminal output
  simp only [run]
  cases hresult : (job.process verbose terminal (FileSystem.read files job.input)).result with
  | error error =>
    refine .failed (fun code after hcode => ?_) rfl rfl
    cases hresult.symm.trans ((hiff _).mpr ⟨code, rfl, hcode⟩)
  | ok output =>
    obtain ⟨code, rfl, hcode⟩ := (hiff output).mp hresult
    cases hwrite : FileSystem.write files (outputPath job.input job.output) code.toUTF8 with
    | error error =>
      simp only [hwrite]
      refine .failed (fun other after hother => ?_) rfl rfl
      rw [hother.unique hcode, hwrite]
      exact nofun
    | ok after =>
      simp only [hwrite]
      exact .written hcode hwrite rfl

namespace Ends

variable {status status' : UInt8} {other : σ}

theorem status_eq_zero_iff (h : job.Ends files status after) : status = 0 ↔ ∃ code,
    ∃ after : σ, Compiles files job.input code ∧
      FileSystem.write files (outputPath job.input job.output) code.toUTF8 = .ok after := by
  cases h with
  | written compiles write success => exact iff_of_true success ⟨_, _, compiles, write⟩
  | failed refused failure unchanged =>
    refine iff_of_false (by rw [failure]; decide) ?_
    rintro ⟨code, after, hcode, hwrite⟩
    exact refused code after hcode hwrite

theorem eq_of_status_ne_zero (h : job.Ends files status after) (hstatus : status ≠ 0) :
    after = files := by
  cases h with
  | written compiles write success => exact absurd success hstatus
  | failed refused failure unchanged => exact unchanged

theorem exists_write (h : job.Ends files status after) (hstatus : status = 0) :
    ∃ code, Compiles files job.input code ∧
      FileSystem.write files (outputPath job.input job.output) code.toUTF8 = .ok after := by
  cases h with
  | written compiles write success => exact ⟨_, compiles, write⟩
  | failed refused failure unchanged => exact absurd (hstatus.symm.trans failure) (by decide)

theorem changes (view : FileView σ) (h : job.Ends files status after) (hstatus : status = 0) :
    ∃ code, Compiles files job.input code ∧
      view.Changes files after (outputPath job.input job.output) code.toUTF8 := by
  obtain ⟨code, hcode, hwrite⟩ := h.exists_write hstatus
  exact ⟨code, hcode, FileView.changes_of_write hwrite⟩

/-- Jobs with the same input and output end in the same way. -/
theorem unique {job' : Job} (h : job.Ends files status after)
    (h' : job'.Ends files status' other) (hinput : job'.input = job.input)
    (houtput : job'.output = job.output) : status' = status ∧ other = after := by
  cases h with
  | written compiles write success =>
    cases h' with
    | written compiles' write' success' =>
      rw [hinput] at compiles' write'
      rw [houtput, compiles'.unique compiles, write] at write'
      exact ⟨success'.trans success.symm, (Except.ok.inj write').symm⟩
    | failed refused' failure' unchanged' =>
      rw [hinput, houtput] at refused'
      exact absurd write (refused' _ _ compiles)
  | failed refused failure unchanged =>
    cases h' with
    | written compiles' write' success' =>
      rw [hinput] at compiles' write'
      rw [houtput] at write'
      exact absurd write' (refused _ _ compiles')
    | failed refused' failure' unchanged' =>
      exact ⟨failure'.trans failure.symm, unchanged'.trans unchanged.symm⟩

end Ends

end Job

section Arguments

variable {arguments : List String} {options : Options} {job : Job}

theorem Options.collect_inspect {settings : Settings} (hsettings : settings.inspect = false)
    (harguments : "--inspect" ∉ arguments) (h : collect settings arguments = .ok options)
    (hjob : options.command = .compile job) : job.inspect = false := by
  fun_induction collect settings arguments
  -- a usage error
  case case1 | case4 | case10 | case11 => cases h
  -- the arguments are used up, or ask for help
  case case2 =>
    cases h
    cases hjob
    exact hsettings
  case case3 =>
    cases h
    cases hjob
  -- an output takes two arguments, every other option one
  case case5 ih => exact ih hsettings (fun hmem => harguments (.tail _ (.tail _ hmem))) h
  case case8 => exact absurd List.mem_cons_self harguments
  case case6 ih | case7 ih | case9 ih | case12 ih =>
    exact ih hsettings (fun hmem => harguments (.tail _ hmem)) h

/-- The inspector is opened only by an argument that asks for it. -/
theorem Options.inspect_eq_false (harguments : "--inspect" ∉ arguments)
    (h : ofArguments arguments = .ok options) (hjob : options.command = .compile job) :
    job.inspect = false := by
  unfold ofArguments at h
  split at h
  · split at h <;> cases h
    cases hjob
  · cases h
  · split at h <;> cases h
    cases hjob
  · exact collect_inspect rfl harguments h hjob

theorem runArguments_of_compile (h : Options.ofArguments arguments = .ok options)
    (hjob : options.command = .compile job) (terminal : Terminal) (files : σ) :
    runArguments terminal arguments files = job.run options.verbose terminal files := by
  simp only [runArguments, h, hjob]

theorem ends_runArguments (h : Options.ofArguments arguments = .ok options)
    (hjob : options.command = .compile job) (hinspect : job.inspect = false) (terminal : Terminal)
    (files : σ) :
    job.Ends files (runArguments terminal arguments files).1.status
      (runArguments terminal arguments files).2 := by
  rw [runArguments_of_compile h hjob]
  exact Job.ends_run hinspect options.verbose terminal files

/-- A command that compiles nothing touches no file. -/
theorem runArguments_of_not_compile (h : Options.ofArguments arguments = .ok options)
    (hcommand : ∀ job, options.command ≠ .compile job) (terminal : Terminal) (files : σ) :
    (runArguments terminal arguments files).1.status = 0 ∧
      (runArguments terminal arguments files).2 = files := by
  simp only [runArguments, h]
  cases hc : options.command with
  | compile job => exact absurd hc (hcommand job)
  | _ => exact ⟨rfl, trivial⟩

/-- A command line that fails changes no file.  One that compiles succeeds exactly if its input is a
text that compiles and its output can be written; then nothing but the output changes, and that in
the same way whatever else is shown or logged.  Any other changes no file either. -/
theorem runArguments_frame (view : FileView σ) (terminal : Terminal) (arguments : List String)
    (harguments : "--inspect" ∉ arguments) (files : σ) :
    ((runArguments terminal arguments files).1.status ≠ 0 →
        (runArguments terminal arguments files).2 = files) ∧
      ∀ options, Options.ofArguments arguments = .ok options →
        match options.command with
        | .compile job =>
          ((runArguments terminal arguments files).1.status = 0 ↔ ∃ code, ∃ after : σ,
            Compiles files job.input code ∧
              FileSystem.write files (Job.outputPath job.input job.output) code.toUTF8 =
                .ok after) ∧
          ((runArguments terminal arguments files).1.status = 0 → ∃ code,
            Compiles files job.input code ∧
              view.Changes files (runArguments terminal arguments files).2
                (Job.outputPath job.input job.output) code.toUTF8) ∧
          ∀ others options' job', "--inspect" ∉ others →
            Options.ofArguments others = .ok options' → options'.command = .compile job' →
            job'.input = job.input → job'.output = job.output →
            (runArguments terminal others files).1.status =
                (runArguments terminal arguments files).1.status ∧
              (runArguments terminal others files).2 = (runArguments terminal arguments files).2
        | _ =>
          (runArguments terminal arguments files).1.status = 0 ∧
            (runArguments terminal arguments files).2 = files := by
  have hends : ∀ {arguments options job}, "--inspect" ∉ arguments →
      Options.ofArguments arguments = .ok options → options.command = .compile job →
      job.Ends files (runArguments terminal arguments files).1.status
        (runArguments terminal arguments files).2 := by
    intro arguments options job harguments hoptions hjob
    have hinspect := Options.inspect_eq_false harguments hoptions hjob
    exact ends_runArguments hoptions hjob hinspect terminal files
  constructor
  · intro hstatus
    cases hoptions : Options.ofArguments arguments with
    | error error => simp only [runArguments, hoptions]
    | ok options =>
      cases hcommand : options.command with
      | compile job => exact (hends harguments hoptions hcommand).eq_of_status_ne_zero hstatus
      | _ => exact (runArguments_of_not_compile hoptions (by simp [hcommand]) terminal files).2
  · intro options hoptions
    cases hcommand : options.command with
    | compile job =>
      have h := hends harguments hoptions hcommand
      refine ⟨h.status_eq_zero_iff, h.changes view, ?_⟩
      intro others options' job' hothers hoptions' hcommand' hinput houtput
      exact h.unique (hends hothers hoptions' hcommand') hinput houtput
    | _ => exact runArguments_of_not_compile hoptions (by simp [hcommand]) terminal files

/-- A name alone is a statement. -/
theorem compile_name : compile "a" =
    .ok "#include <stdio.h>\n#include <stdlib.h>\n#include <string.h>\n\na;\n" := by
  have htokens : tokenize "a" = [⟨.identifier, .text "a", ⟨1, 1⟩⟩, ⟨.eof, .none, ⟨1, 2⟩⟩] := by
    decide +kernel
  have hparse : parse (tokenize "a") =
      .ok [.statement (.expression (.name "a" ⟨1, 1⟩) ⟨1, 1⟩)] := by
    rw [htokens]
    cbv
  have hcode : Program.code [.statement (.expression (.name "a" ⟨1, 1⟩) ⟨1, 1⟩)] =
      "#include <stdio.h>\n#include <stdlib.h>\n#include <string.h>\n\na;\n" := by
    decide +kernel
  rw [compile, hparse, ← hcode]
  rfl

/-- A script that is named from the root is compiled into the working directory. -/
theorem runArguments_frame_rooted :
    let tree : FileTree := ⟨[(["b", "a.grg"], "a".toUTF8)], [], ["d"]⟩
    let arguments := ["-v", "/b/a.grg", "-o", "a.c"]
    "--inspect" ∉ arguments ∧ (runArguments .absent arguments tree).1.status = 0 ∧
      ∃ code, Compiles tree "/b/a.grg" code ∧
        FileTree.view.Changes tree (runArguments .absent arguments tree).2 "a.c" code.toUTF8 := by
  intro tree arguments
  have hcompiles : Compiles tree "/b/a.grg" _ :=
    ⟨_, "a", rfl, by decide +kernel, compile_name⟩
  obtain ⟨hiff, hchanges, -⟩ :=
    (runArguments_frame FileTree.view .absent arguments (by decide) tree).2 _ rfl
  have hstatus := hiff.mpr ⟨_, _, hcompiles, rfl⟩
  exact ⟨by decide, hstatus, hchanges hstatus⟩

end Arguments

end KanaScript
