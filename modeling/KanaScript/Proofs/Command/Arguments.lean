import KanaScript.Command.Options
import Mathlib.Data.List.Basic

/-! The order of the arguments.  A command line is cut into entries: an output option with the
argument behind it, whatever that is, and every other argument alone.  Which entries there are
decides the options; of their order only that of the output options matters. -/

namespace KanaScript.Options

section Entries

/-- The first arguments that name a tool. -/
def tools : List String := ["jp2grg", "num2grg"]

def outputOptions : List String := ["-o", "--output"]

/-- The options of a compilation that take no argument. -/
def flags : List String := ["--tokens", "--ast", "--inspect", "-v", "--verbose"]

/-- Whether an argument is a file name. -/
def IsPositional (argument : String) : Prop := argument.toList.head? ≠ some '-' ∨ argument = "-"

instance (argument : String) : Decidable (IsPositional argument) :=
  inferInstanceAs (Decidable (_ ∨ _))

inductive Entry
  | output (option path : String)
  /-- An output option at the end of the command line. -/
  | unfinished (option : String)
  | single (argument : String)
deriving DecidableEq

namespace Entry

def arguments : Entry → List String
  | output option path => [option, path]
  | unfinished option => [option]
  | single argument => [argument]

def isOutput : Entry → Bool
  | output _ _ => true
  | _ => false

/-- The path that an output option names. -/
def path? : Entry → Option String
  | output _ path => some path
  | _ => none

/-- The file name that an entry is. -/
def positional? : Entry → Option String
  | single argument => if IsPositional argument then some argument else none
  | _ => none

/-- The entry can stand in the command line of a compilation. -/
def IsKnown : Entry → Prop
  | output _ _ => True
  | unfinished _ => False
  | single argument => IsPositional argument ∨ argument ∈ flags

instance : DecidablePred IsKnown
  | output _ _ => .isTrue trivial
  | unfinished _ => .isFalse id
  | single _ => inferInstanceAs (Decidable (_ ∨ _))

/-- The entry is one that a command line can be cut into, and is finished. -/
def IsCut : Entry → Prop
  | output option _ => option ∈ outputOptions
  | unfinished _ => False
  | single argument => argument ∉ outputOptions

end Entry

/-- The entries of a command line. -/
def entries : List String → List Entry
  | [] => []
  | argument :: rest =>
    if argument ∈ outputOptions then
      match rest with
      | [] => [.unfinished argument]
      | path :: rest => .output argument path :: entries rest
    else .single argument :: entries rest

/-- The paths that the output options name. -/
def outputs (parts : List Entry) : List String := parts.filterMap Entry.path?

/-- The file names that stand alone. -/
def positionals (parts : List Entry) : List String := parts.filterMap Entry.positional?

variable {argument option : String} {rest : List String} {entry : Entry} {parts others : List Entry}

theorem entries_output (h : option ∈ outputOptions) (path : String) (rest : List String) :
    entries (option :: path :: rest) = .output option path :: entries rest := by
  rw [entries, if_pos h]

theorem entries_single (h : argument ∉ outputOptions) (rest : List String) :
    entries (argument :: rest) = .single argument :: entries rest := by
  rw [entries.eq_def]
  exact if_neg h

theorem isCut_of_mem_entries (hmem : entry ∈ entries rest) (hknown : entry.IsKnown) :
    entry.IsCut := by
  fun_induction entries rest with
  | case1 => cases hmem
  | case2 =>
    rw [List.mem_singleton] at hmem
    subst hmem
    exact hknown
  | case3 _ hoption _ _ ih =>
    rcases List.mem_cons.mp hmem with rfl | hmem
    · exact hoption
    · exact ih hmem
  | case4 _ _ hargument ih =>
    rcases List.mem_cons.mp hmem with rfl | hmem
    · exact hargument
    · exact ih hmem

/-- Entries that are written out one after another are cut apart again. -/
theorem entries_flatMap_arguments (h : ∀ entry ∈ parts, entry.IsCut) :
    entries (parts.flatMap Entry.arguments) = parts := by
  induction parts with
  | nil => rfl
  | cons entry parts ih =>
    rw [List.forall_mem_cons] at h
    have hrest := ih h.2
    rw [List.flatMap_cons]
    cases entry with
    | output option path => exact (entries_output h.1 path _).trans (congrArg _ hrest)
    | unfinished option => exact absurd h.1 id
    | single argument => exact (entries_single h.1 _).trans (congrArg _ hrest)

theorem outputs_eq_of_filter (h : others.filter Entry.isOutput = parts.filter Entry.isOutput) :
    outputs others = outputs parts := by
  have hfilter : ∀ parts : List Entry, outputs (parts.filter Entry.isOutput) = outputs parts := by
    intro parts
    rw [outputs, List.filterMap_filter]
    refine List.filterMap_congr fun entry _ => ?_
    cases entry <;> rfl
  rw [← hfilter, h, hfilter]

theorem positionals_output (option path : String) (parts : List Entry) :
    positionals (.output option path :: parts) = positionals parts :=
  List.filterMap_cons_none rfl

theorem positionals_cons (h : IsPositional argument) (parts : List Entry) :
    positionals (.single argument :: parts) = argument :: positionals parts :=
  List.filterMap_cons_some (if_pos h)

theorem positionals_of_not (h : ¬IsPositional argument) (parts : List Entry) :
    positionals (.single argument :: parts) = positionals parts :=
  List.filterMap_cons_none (if_neg h)

end Entries

section Steps

variable {settings : Settings} {argument option flag : String} {rest : List String} {job : Job}
  {verbose : Bool}

theorem isOption_eq_true_iff : isOption argument = true ↔ ¬IsPositional argument := by
  have hdash : argument = "-" ↔ argument.toList = ['-'] := by
    rw [← String.toList_inj]
    rfl
  rw [isOption, IsPositional, hdash, ← String.length_toList]
  cases argument.toList with
  | nil => simp
  | cons c cs =>
    rw [List.head?_cons, List.length_cons]
    by_cases hc : c = '-' <;> simp [hc, List.length_pos_iff]

theorem not_isPositional (h : argument ∈ flags ++ outputOptions) : ¬IsPositional argument := by
  have hall : ∀ argument ∈ flags ++ outputOptions, ¬IsPositional argument := by decide
  exact hall argument h

/-- What a flag sets. -/
def Settings.raise (settings : Settings) (flag : String) : Settings :=
  { settings with
    tokens := settings.tokens || flag == "--tokens"
    tree := settings.tree || flag == "--ast"
    inspect := settings.inspect || flag == "--inspect"
    verbose := settings.verbose || flag == "-v" || flag == "--verbose" }

theorem collect_output (h : option ∈ outputOptions) (path : String) (rest : List String) :
    collect settings (option :: path :: rest) =
      collect { settings with output := some path } rest := by
  simp only [outputOptions, List.mem_cons, List.not_mem_nil, or_false] at h
  rcases h with rfl | rfl
  · simp [collect]
  · simp [collect]

theorem collect_unfinished (h : option ∈ outputOptions) :
    collect settings [option] = .error (.noFileName option) := by
  simp only [outputOptions, List.mem_cons, List.not_mem_nil, or_false] at h
  rcases h with rfl | rfl
  · simp [collect]
  · simp [collect]

theorem collect_flag (h : flag ∈ flags) (rest : List String) :
    collect settings (flag :: rest) = collect (settings.raise flag) rest := by
  simp only [flags, List.mem_cons, List.not_mem_nil, or_false] at h
  rw [collect.eq_def]
  rcases h with rfl | rfl | rfl | rfl | rfl <;> simp [Settings.raise]

/-- An argument that is neither an output option nor a flag is help, an unknown option or a file
name, of which there can be only one. -/
theorem collect_other (hoption : argument ∉ outputOptions) (hflag : argument ∉ flags) :
    collect settings (argument :: rest) = .ok ⟨.compile job, verbose⟩ ↔
      IsPositional argument ∧ settings.input = none ∧
        collect { settings with input := some argument } rest = .ok ⟨.compile job, verbose⟩ := by
  have hhelp : ∀ argument ∈ ["-h", "--help"], ¬IsPositional argument := by decide
  simp only [outputOptions, flags, List.mem_cons, List.not_mem_nil, or_false, not_or]
    at hoption hflag hhelp
  obtain ⟨htokens, htree, hinspect, hverbose⟩ := hflag
  rw [collect.eq_def]
  dsimp only
  by_cases hask : argument = "-h" ∨ argument = "--help"
  · rw [if_pos hask]
    exact iff_of_false (by simp) fun h => hhelp argument hask h.1
  rw [if_neg hask, if_neg (not_or.mpr hoption), if_neg htokens, if_neg htree, if_neg hinspect,
    if_neg (not_or.mpr hverbose)]
  by_cases hpositional : IsPositional argument
  · rw [if_neg (mt isOption_eq_true_iff.mp (not_not.mpr hpositional))]
    cases settings.input with
    | none => simp [hpositional]
    | some input => simp
  · rw [if_pos (isOption_eq_true_iff.mpr hpositional)]
    simp [hpositional]

end Steps

section Runs

variable {settings : Settings} {argument : String} {arguments : List String} {job : Job}
  {verbose : Bool}

/-- What entries ask for that follow some settings and leave `input` for a file name. -/
def Settings.options (settings : Settings) (parts : List Entry) (input : String) : Options where
  command := .compile {
    input
    output := (settings.output.toList ++ outputs parts).getLast?
    tokens := settings.tokens || .single "--tokens" ∈ parts
    tree := settings.tree || .single "--ast" ∈ parts
    inspect := settings.inspect || .single "--inspect" ∈ parts }
  verbose := settings.verbose || .single "-v" ∈ parts || .single "--verbose" ∈ parts

theorem Settings.options_output (settings : Settings) (option path : String) (parts : List Entry)
    (input : String) : settings.options (.output option path :: parts) input =
      { settings with output := some path }.options parts input := by
  simp [options, outputs, Entry.path?, List.getLast?_cons]

theorem Settings.options_single (settings : Settings) (argument : String) (parts : List Entry)
    (input : String) : settings.options (.single argument :: parts) input =
      (settings.raise argument).options parts input := by
  simp [options, raise, outputs, Entry.path?, Bool.or_assoc, Bool.or_left_comm,
    Bool.beq_eq_decide_eq, @eq_comm _ argument]

theorem Settings.raise_of_not_mem (h : argument ∉ flags) : settings.raise argument = settings := by
  have hne : ∀ flag ∈ flags, (argument == flag) = false := fun flag hflag =>
    beq_eq_false_iff_ne.mpr fun heq => h (heq ▸ hflag)
  simp only [flags, List.forall_mem_cons] at hne
  simp [raise, hne]

/-- A command line compiles exactly if all its entries are known and one file name stands alone. -/
theorem collect_eq_ok_iff : collect settings arguments = .ok ⟨.compile job, verbose⟩ ↔
    (∀ entry ∈ entries arguments, entry.IsKnown) ∧ ∃ input,
      settings.input.toList ++ positionals (entries arguments) = [input] ∧
        settings.options (entries arguments) input = ⟨.compile job, verbose⟩ := by
  fun_induction entries arguments generalizing settings with
  | case1 =>
    have hlast : (settings.output.toList ++ outputs []).getLast? = settings.output := by
      cases settings.output <;> rfl
    rw [collect]
    cases settings.input with
    | none => simp [positionals]
    | some input => simp [positionals, Settings.options, hlast]
  | case2 option hoption =>
    rw [collect_unfinished hoption]
    simp [Entry.IsKnown]
  | case3 option hoption path rest ih =>
    rw [collect_output hoption, ih, List.forall_mem_cons, positionals_output]
    simp only [Settings.options_output, Entry.IsKnown, true_and]
  | case4 argument rest hargument ih =>
    rw [List.forall_mem_cons]
    simp only [Settings.options_single]
    by_cases hflag : argument ∈ flags
    · have hnot := not_isPositional (List.mem_append_left outputOptions hflag)
      rw [collect_flag hflag, ih, positionals_of_not hnot]
      simp only [Entry.IsKnown, hflag, or_true, true_and, Settings.raise]
    rw [collect_other hargument hflag, ih, Settings.raise_of_not_mem hflag]
    by_cases hpositional : IsPositional argument
    · rw [positionals_cons hpositional]
      cases settings.input with
      | none => simp [Entry.IsKnown, hpositional, Settings.options]
      | some input => simp
    · simp [Entry.IsKnown, hflag, hpositional]

end Runs

section CommandLines

variable {arguments : List String} {job : Job} {verbose : Bool} {input : String}
  {parts others : List Entry}

/-- The options of a compilation of `input` that has these entries. -/
def ofEntries (parts : List Entry) (input : String) : Options where
  command := .compile {
    input
    output := (outputs parts).getLast?
    tokens := .single "--tokens" ∈ parts
    tree := .single "--ast" ∈ parts
    inspect := .single "--inspect" ∈ parts }
  verbose := .single "-v" ∈ parts ∨ .single "--verbose" ∈ parts

theorem ofArguments_eq_collect (h : ∀ argument ∈ arguments.head?, argument ∉ tools) :
    ofArguments arguments = collect {} arguments := by
  unfold ofArguments
  split
  · exact absurd List.mem_cons_self (h _ rfl)
  · exact absurd (by decide) (h _ rfl)
  · exact absurd (by decide) (h _ rfl)
  · rfl

theorem ofArguments_eq_ok_iff (h : ∀ argument ∈ arguments.head?, argument ∉ tools) :
    ofArguments arguments = .ok ⟨.compile job, verbose⟩ ↔
      (∀ entry ∈ entries arguments, entry.IsKnown) ∧ ∃ input,
        positionals (entries arguments) = [input] ∧
          ofEntries (entries arguments) input = ⟨.compile job, verbose⟩ := by
  have hoptions : ∀ parts input, ({} : Settings).options parts input = ofEntries parts input := by
    intro parts input
    simp [Settings.options, ofEntries]
  rw [ofArguments_eq_collect h, collect_eq_ok_iff]
  simp only [Option.toList_none, List.nil_append, hoptions]

/-- Entries with the same output options in the same order ask for the same. -/
theorem ofEntries_congr (hperm : others.Perm parts)
    (houtputs : others.filter Entry.isOutput = parts.filter Entry.isOutput) (input : String) :
    ofEntries others input = ofEntries parts input := by
  simp only [ofEntries, outputs_eq_of_filter houtputs, hperm.mem_iff]

theorem positionals_congr (hperm : others.Perm parts) (h : positionals parts = [input]) :
    positionals others = [input] :=
  List.perm_singleton.mp (h ▸ hperm.filterMap Entry.positional?)

/-- No output option names a tool. -/
theorem head?_flatMap_arguments (hcut : ∀ entry ∈ parts, entry.IsCut)
    (hfirst : ∀ tool ∈ tools, parts.head? ≠ some (.single tool)) :
    ∀ argument ∈ (parts.flatMap Entry.arguments).head?, argument ∉ tools := by
  have hoption : ∀ option ∈ outputOptions, option ∉ tools := by decide
  cases parts with
  | nil => simp
  | cons entry parts =>
    have hentry := hcut entry List.mem_cons_self
    cases entry with
    | output option path => simpa [Entry.arguments] using hoption option hentry
    | unfinished option => exact absurd hentry id
    | single argument =>
      intro found hfound htool
      obtain rfl : argument = found := by simpa [Entry.arguments] using hfound
      exact hfirst argument htool rfl

/-- A command line that names no tool compiles exactly if every output option has its path, every
other entry is a file name or a flag, and there is one file name.  It writes to the last path given
and does what the flags say that occur.  In any other order of the entries that keeps the order of
the output options, and does not start with the name of a tool, it does the same. -/
theorem ofArguments_compile (arguments : List String)
    (hfirst : ∀ argument ∈ arguments.head?, argument ∉ tools) :
    (∀ options, (ofArguments arguments = .ok options ∧ ∃ job, options.command = .compile job) ↔
      (∀ entry ∈ entries arguments, entry.IsKnown) ∧ ∃ input,
        positionals (entries arguments) = [input] ∧
          options = ofEntries (entries arguments) input) ∧
      ∀ (job : Job) (verbose : Bool) (others : List Entry),
        ofArguments arguments = .ok ⟨.compile job, verbose⟩ →
        others.Perm (entries arguments) →
        others.filter Entry.isOutput = (entries arguments).filter Entry.isOutput →
        (∀ tool ∈ tools, others.head? ≠ some (.single tool)) →
        ofArguments (others.flatMap Entry.arguments) = ofArguments arguments := by
  constructor
  · rintro ⟨command, verbose⟩
    constructor
    · rintro ⟨hok, job, rfl⟩
      obtain ⟨hknown, input, hinput, hoptions⟩ := (ofArguments_eq_ok_iff hfirst).mp hok
      exact ⟨hknown, input, hinput, hoptions.symm⟩
    · rintro ⟨hknown, input, hinput, hoptions⟩
      rw [hoptions]
      exact ⟨(ofArguments_eq_ok_iff hfirst).mpr ⟨hknown, input, hinput, rfl⟩, _, rfl⟩
  · intro job verbose others hok hperm houtputs htool
    obtain ⟨hknown, input, hinput, hoptions⟩ := (ofArguments_eq_ok_iff hfirst).mp hok
    have hknown' : ∀ entry ∈ others, entry.IsKnown := fun entry hmem =>
      hknown entry (hperm.mem_iff.mp hmem)
    have hcut : ∀ entry ∈ others, entry.IsCut := fun entry hmem =>
      isCut_of_mem_entries (hperm.mem_iff.mp hmem) (hknown' entry hmem)
    have hentries := entries_flatMap_arguments hcut
    rw [hok, ofArguments_eq_ok_iff (head?_flatMap_arguments hcut htool), hentries]
    refine ⟨hknown', input, positionals_congr hperm hinput, ?_⟩
    rw [ofEntries_congr hperm houtputs, hoptions]

/-- The first output option takes what else would ask for help, and the second one counts. -/
theorem ofArguments_compile_shuffled :
    let arguments := ["-o", "-h", "a.grg", "--ast", "--output", "b.c", "-v"]
    let shuffled := ["-v", "-o", "-h", "--output", "b.c", "--ast", "a.grg"]
    arguments.head? = some "-o" ∧
      ofArguments arguments = .ok ⟨.compile ⟨"a.grg", some "b.c", false, true, false⟩, true⟩ ∧
      ofArguments shuffled = ofArguments arguments := by
  intro arguments shuffled
  obtain ⟨hiff, hshuffle⟩ := ofArguments_compile arguments (by decide)
  have hok := ((hiff (ofEntries (entries arguments) "a.grg")).mpr ⟨by decide, _, rfl, rfl⟩).1
  exact ⟨rfl, hok, hshuffle _ _
    [.single "-v", .output "-o" "-h", .output "--output" "b.c", .single "--ast", .single "a.grg"]
    hok (by decide) (by decide) (by decide)⟩

end CommandLines

end KanaScript.Options
