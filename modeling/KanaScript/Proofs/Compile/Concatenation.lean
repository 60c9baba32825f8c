import KanaScript.Compile
import KanaScript.Proofs.Grammar.Concatenation
import KanaScript.Proofs.Grammar.Relocation
import KanaScript.Proofs.Token.LineBreak

/-! Programs one below the other.  Below a program that ends in a function another one is read as it
is alone, but for the lines before it, and its C text follows that of the first one. -/

namespace KanaScript

section Texts

/-- The C text of a program without the preamble. -/
def Program.body (program : Program) : String :=
  "\n".intercalate (program.flatMap fun d => d.lines ++ [""])

theorem Program.flatMap_lines_ne_nil {program : Program} (hne : program ≠ []) :
    (program.flatMap fun d => d.lines ++ [""]) ≠ [] := by
  obtain ⟨d, others, rfl⟩ := List.exists_cons_of_ne_nil hne
  simp

theorem Program.code_eq {program : Program} (hne : program ≠ []) :
    program.code = "\n".intercalate preamble ++ "\n" ++ program.body :=
  String.intercalate_append_of_ne_nil (List.cons_ne_nil _ _) (flatMap_lines_ne_nil hne)

theorem Program.code_append (first : Program) {second : Program} (hne : second ≠ []) :
    Program.code (first ++ second) = first.code ++ "\n" ++ second.body := by
  rw [code, lines, List.flatMap_append, ← List.append_assoc]
  exact String.intercalate_append_of_ne_nil (List.cons_ne_nil _ _) (flatMap_lines_ne_nil hne)

theorem Program.body_move (f : Position → Position) (program : Program) :
    Program.body (program.map (Declaration.move f)) = program.body := by
  rw [body, body, List.flatMap_map]
  simp only [Declaration.lines_move]

end Texts

theorem Scans.isProper {before rest : List Char} {tokens : List Token}
    (h : Scans before rest tokens) : ∀ t ∈ tokens, t.IsProper := by
  induction h with
  | last hgap => simp [Token.IsProper]
  | token hgap hstarts spelled others ih =>
    exact List.forall_mem_cons.mpr ⟨spelled.exists_number, ih⟩

/-- Below a program that ends in a function, another one is read as it is alone. -/
theorem parse_below {a b : String} {first second : Program} {f : Function}
    (hfirst : parse (tokenize a) = .ok first) (hsecond : parse (tokenize b) = .ok second)
    (hlast : first.getLast? = some (.function f)) (hcomment : ¬EndsInComment a.toList) :
    parse (tokenize (a ++ "\n" ++ b)) =
      .ok (first ++ second.map (Declaration.move (.down (a.toList.count '\n' + 1)))) := by
  obtain ⟨gap, front, htokens, hfront⟩ := (scans_tokenize a).exists_scansTo
  have hinner := hfront.kind_ne_eof
  have htake : (tokenize a).takeWhile (fun t => t.kind != .eof) = front := by
    rw [htokens, List.takeWhile_append_of_pos (by simpa using hinner)]
    simp
  rw [Grammar.parse_eq_ok_iff, htake] at hfirst
  have hderives := Grammar.derivesProgram_of_declarations _ (Nat.lt_succ_self _) hfirst
  -- the last token is a brace or a terminator, so that no literal is left open
  have hliteral : ¬EndsInLiteral [] a.toList := by
    intro hopen
    obtain ⟨t, ht, hkind⟩ := Grammar.getLast?_of_derivesProgram hderives hlast
    obtain ⟨u, hu, marks, hmarks, hliteral⟩ := hopen.exists_last
    rw [htokens, List.dropLast_concat] at hu
    obtain rfl : t = u := Option.some.inj (ht.symm.trans hu)
    have hall : ∀ marks ∈ Vocabulary.literalMarks,
        TokenKind.closeBrace ≠ marks.1 ∧ TokenKind.semicolon ≠ marks.1 := by decide
    rcases hkind with hkind | hkind
    · exact (hall marks hmarks).1 (hkind.symm.trans hliteral)
    · exact (hall marks hmarks).2 (hkind.symm.trans hliteral)
  have hmoved := parse_move (.down (a.toList.count '\n' + 1)) (exists_eof_tokenize b)
  rw [hsecond] at hmoved
  have hproper : ∀ t ∈ front, t.IsProper := fun t ht =>
    (scans_tokenize a).isProper t (htokens ▸ List.mem_append_left _ ht)
  rw [Grammar.parse_eq_ok_iff, tokenize_below hliteral hcomment, htokens, List.dropLast_concat,
    List.takeWhile_append_of_pos (by simpa using hinner)]
  exact Grammar.declarations_append (Grammar.parse_eq_ok_iff.mp hmoved) _ (Nat.lt_succ_self _)
    hproper hfirst hlast

/-- Translation units concatenate: the declarations of the second one follow those of the first one
on lines further below, and so does the text, with one preamble. -/
theorem compile_below (a b : String) (first second : Program) (f : Function)
    (hfirst : parse (tokenize a) = .ok first) (hsecond : parse (tokenize b) = .ok second)
    (hlast : first.getLast? = some (.function f)) (hcomment : ¬EndsInComment a.toList) :
    parse (tokenize (a ++ "\n" ++ b)) =
        .ok (first ++ second.map (Declaration.move (.down (a.toList.count '\n' + 1)))) ∧
      ∃ code, compile a = .ok code ∧
        (second = [] → compile (a ++ "\n" ++ b) = .ok code) ∧
        (second ≠ [] → ∃ rest, compile b = .ok ("\n".intercalate preamble ++ "\n" ++ rest) ∧
          compile (a ++ "\n" ++ b) = .ok (code ++ "\n" ++ rest)) := by
  have hparse := parse_below hfirst hsecond hlast hcomment
  unfold compile
  rw [hparse, hfirst, hsecond]
  refine ⟨rfl, first.code, rfl, ?_, fun hne => ⟨second.body, ?_, ?_⟩⟩
  · rintro rfl
    exact congrArg (fun program : Program => Except.ok program.code) (List.append_nil first)
  · exact congrArg Except.ok (Program.code_eq hne)
  · rw [Except.map, Program.code_append _ (by simpa using hne), Program.body_move]

/-- A function and the variable on the line below it. -/
theorem compile_below_variable :
    ∃ f v code rest, parse (tokenize "バサ ガ()ザジレゴパシ") = .ok [.function f] ∧
      parse (tokenize "ロジ ダ") = .ok [.global v] ∧ v.position = ⟨1, 1⟩ ∧
      parse (tokenize ("バサ ガ()ザジレゴパシ" ++ "\n" ++ "ロジ ダ")) =
        .ok [.function f, .global { v with position := ⟨2, 1⟩ }] ∧
      compile "バサ ガ()ザジレゴパシ" = .ok code ∧
      compile "ロジ ダ" = .ok ("\n".intercalate preamble ++ "\n" ++ rest) ∧
      compile ("バサ ガ()ザジレゴパシ" ++ "\n" ++ "ロジ ダ") = .ok (code ++ "\n" ++ rest) := by
  have tokens : tokenize "バサ ガ()ザジレゴパシ" = [⟨.typeKeyword, .text "void", ⟨1, 1⟩⟩,
      ⟨.identifier, .text "ガ", ⟨1, 4⟩⟩, ⟨.openParen, .text "(", ⟨1, 5⟩⟩,
      ⟨.closeParen, .text ")", ⟨1, 6⟩⟩, ⟨.openBrace, .text "\x7b", ⟨1, 7⟩⟩,
      ⟨.closeBrace, .text "\x7d", ⟨1, 10⟩⟩, ⟨.eof, .none, ⟨1, 13⟩⟩] := by decide +kernel
  have hfirst : parse (tokenize "バサ ガ()ザジレゴパシ") =
      .ok [.function ⟨"void", "ガ", [], ⟨[], ⟨1, 7⟩⟩, ⟨1, 1⟩⟩] := by
    rw [tokens]
    cbv
  have tokens' : tokenize "ロジ ダ" = [⟨.typeKeyword, .text "char", ⟨1, 1⟩⟩,
      ⟨.identifier, .text "ダ", ⟨1, 4⟩⟩, ⟨.eof, .none, ⟨1, 5⟩⟩] := by decide +kernel
  have hsecond : parse (tokenize "ロジ ダ") = .ok [.global ⟨"char", "ダ", none, ⟨1, 1⟩⟩] := by
    rw [tokens']
    cbv
  have hcomment : ¬EndsInComment "バサ ガ()ザジレゴパシ".toList := by
    have htrailing : (pieces "バサ ガ()ザジレゴパシ".toList).2 = [] := by decide +kernel
    rw [endsInComment_iff, htrailing]
    simp [Layout.EndsOpen]
  obtain ⟨hparse, code, hcode, -, hsecondCode⟩ :=
    compile_below _ _ _ _ _ hfirst hsecond rfl hcomment
  obtain ⟨rest, hrest, hboth⟩ := hsecondCode (by simp)
  exact ⟨_, _, code, rest, hfirst, hsecond, rfl, hparse, hcode, hrest, hboth⟩

end KanaScript
