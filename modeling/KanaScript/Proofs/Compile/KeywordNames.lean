import KanaScript.Compile
import KanaScript.Proofs.Grammar.NameTokens
import KanaScript.Proofs.Token.Items

/-! Keywords that stand for names.  In the C text such a name is as the tables spell the keyword,
unless it is a truth value: a digit is no name in C, and an underscore is written for it. -/

namespace KanaScript

open C Vocabulary

section Words

/-- The source has the word at the place, as the whole of a run. -/
def WordAt (source : String) (position : Position) (word : String) : Prop :=
  ∃ before after, source.toList = before ++ (word.toList ++ after) ∧ position = .after before ∧
    Text.IsRun Text.continuesWord word.toList after

/-- The spellings of true and false. -/
def truthSpellings : List String := ["1", "0"]

theorem length_of_mem_truthSpellings : ∀ spelling ∈ truthSpellings,
    spelling.length = "_".length ∧ spelling ≠ "_" := by decide

/-- A keyword that stands for itself is the marker of a function. -/
theorem eq_functionMarker_of_isEmpty : ∀ table ∈ keywordTables, ∀ entry ∈ table.2,
    entry.2.isEmpty = true → entry.1 = functionMarker := by decide

/-- The spellings of keywords are names in C, but for brackets and truth values. -/
theorem identifier_of_mem : ∀ table ∈ keywordTables, ∀ entry ∈ table.2,
    entry.2.isEmpty = false → bracket? entry.1.toList = none →
      identifier entry.2 = if entry.2 ∈ truthSpellings then "_" else entry.2 := by decide

/-- The kinds of keywords that can stand for names. -/
def nameKeywords : List TokenKind := [.otherKeyword, .controlKeyword]

theorem literalMarks_notKeyword : ∀ marks ∈ literalMarks, marks.1 ∉ nameKeywords := by decide

theorem brackets_notKeyword : ∀ bracket ∈ brackets, bracket.kind ∉ nameKeywords := by decide

/-- A keyword is a whole run, and no bracket word. -/
theorem Lexeme.Spelled.of_nameKeyword {kind : TokenKind} {payload : Payload}
    {word rest : List Char} (h : Lexeme.Spelled rest ⟨kind, payload, word⟩)
    (hkind : kind ∈ nameKeywords) : Text.IsRun Text.continuesWord word rest ∧
      bracket? (word ++ rest) = none ∧
      Lexeme.classify (String.ofList word) = (kind, payload) := by
  cases h with
  | punctuation h =>
    unfold punctuation? at h
    split at h <;> cases h <;> simp [nameKeywords] at hkind
  | closed marks hbody => exact absurd hkind (literalMarks_notKeyword _ marks)
  | unclosed marks hbody last => exact absurd hkind (literalMarks_notKeyword _ marks)
  | bracket h => exact absurd hkind (brackets_notKeyword _ (of_bracket?_eq_some h).1)
  | word hc run unbracketed meaning =>
    refine ⟨⟨List.forall_mem_cons.mpr ⟨?_, run.all⟩, run.stop⟩, unbracketed, meaning⟩
    simp [Text.continuesWord, hc]
  | name hc run => simp [nameKeywords] at hkind
  | number hc run => simp [nameKeywords] at hkind
  | unknown unmarked unquoted hkatakana hname hdigit => simp [nameKeywords] at hkind

theorem keyword?_of_classify {word : String} {kind : TokenKind} {payload : Payload}
    (h : Lexeme.classify word = (kind, payload)) (hkind : kind ∈ nameKeywords) :
    ∃ spelling, keyword? word = some (kind, spelling) ∧
      payload = .text (if spelling.isEmpty then word else spelling) := by
  have hmeans := means_classify word
  rw [h] at hmeans
  cases hmeans with
  | keyword htable hword => exact ⟨_, keyword?_of_mem _ htable _ hword, rfl⟩
  | operator hkeyword hword => simp [nameKeywords] at hkind
  | numeral hkeyword hoperator hvalue => simp [nameKeywords] at hkind
  | name hkeyword hoperator hvalue => simp [nameKeywords] at hkind

/-- A keyword of the source has the text that the tables give to its word.  As a name in C the text
stays as it is, unless it is a truth value. -/
theorem exists_keyword {source : String} {t : Token} (ht : t ∈ tokenize source)
    (hkind : t.kind ∈ nameKeywords) (hmarker : t.text ≠ functionMarker) :
    ∃ word, WordAt source t.position word ∧ keyword? word = some (t.kind, t.text) ∧
      identifier t.text = if t.text ∈ truthSpellings then "_" else t.text := by
  have hne : t.kind ≠ .eof := by
    intro heq
    rw [heq] at hkind
    simp [nameKeywords] at hkind
  obtain ⟨before, word, after, htext, hposition, hspelled⟩ :=
    (scans_tokenize source).exists_spelled ht hne
  obtain ⟨hrun, hbracket, hclassify⟩ := hspelled.of_nameKeyword hkind
  obtain ⟨spelling, hkeyword, hpayload⟩ := keyword?_of_classify hclassify hkind
  obtain ⟨table, htable, hentry⟩ := mem_of_keyword?_eq_some hkeyword
  have hspelling : spelling.isEmpty = false := by
    rw [← Bool.not_eq_true]
    intro hempty
    apply hmarker
    rw [Token.text, hpayload, if_pos hempty]
    exact eq_functionMarker_of_isEmpty _ htable _ hentry hempty
  have htoken : t.text = spelling := by
    rw [Token.text, hpayload, hspelling]
    rfl
  refine ⟨String.ofList word, ⟨before, after, ?_, hposition, ?_⟩, ?_, ?_⟩
  · rw [String.toList_ofList, htext]
  · rw [String.toList_ofList]
    exact hrun
  · rw [hkeyword, htoken]
  · rw [htoken]
    refine identifier_of_mem _ htable _ hentry hspelling ?_
    rw [String.toList_ofList]
    exact bracket?_eq_none_of_append hbracket

end Words

section Names

/-- The names as in C, but for those at `place`. -/
def C.writing (place : Position) (spelling : String) : Naming :=
  fun position text => if position = place then spelling else identifier text

/-- Writing a name as another text of the same length keeps the C text only if C has it so. -/
theorem Program.codeWith_writing_iff {program : Program} {text spelling : String}
    {place : Position} (hname : NamedIn program.statements text place)
    (honly : ∀ other, NamedIn program.statements other place → other = text)
    (hlength : spelling.length = (identifier text).length) :
    program.codeWith (writing place spelling) = program.code ↔ spelling = identifier text := by
  rw [← program.codeWith_identifiers, codeWith, codeWith, write_eq_iff]
  · simp only [program.name_mem_segments]
    constructor
    · intro h
      simpa [writing] using h text place hname
    · intro h other position hother
      by_cases hplace : position = place
      · subst hplace
        simp [writing, h, honly other hother]
      · simp [writing, hplace]
  · intro other position hother
    by_cases hplace : position = place
    · subst hplace
      rw [honly other (program.name_mem_segments.mp hother)]
      simpa [writing] using hlength
    · simp [writing, hplace]

/-- A keyword that stands for a name is written as its table spells it, exactly if it is no truth
value; a truth value is written as an underscore. -/
theorem compile_keyword_iff {source text : String} {program : Program} {t : Token}
    (parsed : parse (tokenize source) = .ok program) (token : t ∈ tokenize source)
    (kind : t.kind ∈ nameKeywords) (unmarked : t.text ≠ functionMarker)
    (named : NamedIn program.statements text t.position) :
    ∃ word, WordAt source t.position word ∧ keyword? word = some (t.kind, t.text) ∧
      (compile source = .ok (program.codeWith (writing t.position t.text)) ↔
        t.text ∉ truthSpellings) ∧
      (t.text ∈ truthSpellings →
        compile source = .ok (program.codeWith (writing t.position "_"))) := by
  obtain ⟨word, hword, hkeyword, hidentifier⟩ := exists_keyword token kind unmarked
  -- a name is read from a token at its place, and no other token stands there
  have honly (other : String) (hother : NamedIn program.statements other t.position) :
      other = t.text := by
    obtain ⟨u, hu, rfl, hposition⟩ := Grammar.hasToken_of_parse parsed hother
    rw [(scans_tokenize source).eq_of_position_eq hu token hposition]
  have hiff (spelling : String) (hlength : spelling.length = (identifier t.text).length) :
      compile source = .ok (program.codeWith (writing t.position spelling)) ↔
        spelling = identifier t.text := by
    have hcompile : compile source = .ok program.code := by
      rw [compile, parsed]
      rfl
    obtain rfl := honly text named
    rw [hcompile, Except.ok.injEq, eq_comm, Program.codeWith_writing_iff named honly hlength]
  refine ⟨word, hword, hkeyword, ?_, fun htruth => (hiff "_" ?_).mpr ?_⟩
  · by_cases htruth : t.text ∈ truthSpellings
    -- the digit and the underscore have the same length, so that nothing else can make up for them
    · rw [if_pos htruth] at hidentifier
      obtain ⟨hlength, hne⟩ := length_of_mem_truthSpellings _ htruth
      rw [hiff t.text (by rw [hidentifier, hlength]), hidentifier]
      exact iff_of_false hne (not_not_intro htruth)
    · rw [if_neg htruth] at hidentifier
      rw [hiff t.text (by rw [hidentifier]), hidentifier]
      simp [htruth]
  · rw [hidentifier, if_pos htruth]
  · rw [hidentifier, if_pos htruth]

/-- In `a = true` the truth value is lost. -/
theorem compile_keyword_true :
    let source := "ガ ギセス ギン"
    let program : Program := [.statement (.expression
      (.assign (.name "ガ" ⟨1, 1⟩) (.name "1" ⟨1, 7⟩) ⟨1, 1⟩) ⟨1, 1⟩)]
    parse (tokenize source) = .ok program ∧
      compile source ≠ .ok (program.codeWith (writing ⟨1, 7⟩ "1")) ∧
      compile source = .ok (program.codeWith (writing ⟨1, 7⟩ "_")) := by
  intro source program
  have hsource : tokenize source = [⟨.identifier, .text "ガ", ⟨1, 1⟩⟩,
      ⟨.operator, .text "=", ⟨1, 3⟩⟩, ⟨.otherKeyword, .text "1", ⟨1, 7⟩⟩,
      ⟨.eof, .none, ⟨1, 9⟩⟩] := by
    show tokenize "ガ ギセス ギン" = _
    decide +kernel
  have hparsed : parse (tokenize source) = .ok program := by
    rw [hsource]
    show _ = Except.ok [Declaration.statement (.expression
      (.assign (.name "ガ" ⟨1, 1⟩) (.name "1" ⟨1, 7⟩) ⟨1, 1⟩) ⟨1, 1⟩)]
    cbv
  have hnamed : NamedIn program.statements "1" ⟨1, 7⟩ := by
    simp [program, Program.statements, Declaration.nodes, Stmt.nodes, Stmt.expressions, Expr.nodes]
  obtain ⟨-, -, -, hkept, hlost⟩ :=
    compile_keyword_iff (t := ⟨.otherKeyword, .text "1", ⟨1, 7⟩⟩) hparsed (by simp [hsource])
      (by decide) (by decide) hnamed
  exact ⟨hparsed, fun h => hkept.mp h (by decide), hlost (by decide)⟩

end Names

end KanaScript
