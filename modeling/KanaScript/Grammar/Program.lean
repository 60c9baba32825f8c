import KanaScript.Grammar.Statement

/-! Programs.  A program is a list of declarations: functions, which a marker or a type leads,
variables and statements. -/

namespace KanaScript

namespace Grammar

/-- A parameter: a type and a name. -/
def parameter (ts : List Token) : Reading ts.length Parameter :=
  (typeName .parameterType ts).andThen fun type rest h =>
    (name rest).andThen fun name rest₁ h₁ => .ok ⟨type, name, here ts⟩ rest₁ (shorter_trans h₁ h)

/-- Parameters with commas between them. -/
def parameterList (ts : List Token) : Reading ts.length (List Parameter) :=
  (parameter ts).andThen fun p rest h =>
    match rest with
    | t :: more =>
      if t.kind = .comma then
        (parameterList more).andThen fun ps rest₂ h₂ =>
          .ok (p :: ps) rest₂ (Nat.lt_trans h₂ (Nat.lt_of_succ_lt h))
      else .ok [p] (t :: more) h
    | [] => .ok [p] [] h
termination_by ts.length
decreasing_by exact Nat.lt_of_succ_lt h

/-- Whether only `void` stands before the closing parenthesis. -/
def isVoidClose (ts : List Token) : Bool :=
  match ts with
  | t :: u :: _ => t.isWord .typeKeyword "void" && u.kind == .closeParen
  | _ => false

/-- Parameters in parentheses, which may hold nothing, or `void` for none. -/
def parenthesized (ts : List Token) : Reading ts.length (List Parameter) :=
  (expect .openParen .parametersOpen ts).andThen fun _ rest h =>
    if startsWith .closeParen rest then
      (expect .closeParen .parametersClose rest).andThen fun _ rest₁ h₁ =>
        .ok [] rest₁ (shorter_trans h₁ h)
    else if isVoidClose rest then
      .ok [] (rest.drop 2) (by simp only [List.length_drop]; omega)
    else
      (parameterList rest).andThen fun ps rest₁ h₁ =>
        (expect .closeParen .parametersClose rest₁).andThen fun _ rest₂ h₂ =>
          .ok ps rest₂ (by omega)

/-- Parameters without parentheses.  A type right before the opening brace ends the list and adds no
parameter. -/
def bareParameters (ts : List Token) : Reading ts.length (List Parameter) :=
  (typeName .parameterType ts).andThen fun type rest h =>
    if startsWith .openBrace rest then .ok [] rest h
    else
      (name rest).andThen fun name rest₁ h₁ =>
        match rest₁ with
        | t :: more =>
          if t.kind = .comma then
            (bareParameters more).andThen fun ps rest₂ h₂ =>
              .ok (⟨type, name, here ts⟩ :: ps) rest₂
                (by simp only [List.length_cons] at h₁; omega)
          else .ok [⟨type, name, here ts⟩] (t :: more) (shorter_trans h₁ h)
        | [] => .ok [⟨type, name, here ts⟩] [] (shorter_trans h₁ h)
termination_by ts.length
decreasing_by simp only [List.length_cons] at h₁; omega

/-- The parameters of a marked function: in parentheses, `void` alone, a bare list, or nothing. -/
def markedParameters (ts : List Token) : Reading (ts.length + 1) (List Parameter) :=
  match ts with
  | [] => .ok [] [] shorter_succ_nil
  | t :: rest =>
    if t.kind = .openParen then (parenthesized (t :: rest)).weaken (Nat.le_succ _)
    else if t.isWord .typeKeyword "void" then
      .ok [] rest (Nat.lt_succ_of_lt (Nat.lt_succ_self _))
    else if t.kind = .typeKeyword then (bareParameters (t :: rest)).weaken (Nat.le_succ _)
    else .ok [] (t :: rest) shorter_succ_cons

/-- The body of a function. -/
def body (ts : List Token) : Reading ts.length Block :=
  block (fun nested _ => bareStatement nested) ts shorter_succ

/-- A function after its marker. -/
def markedFunction (ts : List Token) : Reading ts.length Function :=
  (typeName .returnType ts).andThen fun type rest h =>
    (name rest).andThen fun name rest₁ h₁ =>
      (markedParameters rest₁).andThen fun parameters rest₂ h₂ =>
        (body rest₂).andThen fun body rest₃ h₃ =>
          .ok ⟨type, name, parameters, body, here ts⟩ rest₃ (by omega)

/-- A declaration that a type leads: a function if a parenthesis follows the name, and otherwise a
variable. -/
def typeLed (ts : List Token) : Reading ts.length Declaration :=
  (typeName .type ts).andThen fun type rest h =>
    (name rest).andThen fun name rest₁ h₁ =>
      if startsWith .openParen rest₁ then
        (parenthesized rest₁).andThen fun parameters rest₂ h₂ =>
          (body rest₂).andThen fun body rest₃ h₃ =>
            .ok (.function ⟨type, name, parameters, body, here ts⟩) rest₃ (by omega)
      else
        (variableRest type name (here ts) rest₁).andThen fun v rest₂ h₂ =>
          .ok (.global v) rest₂ (by omega)

/-- A declaration and the terminator after it. -/
def declaration (ts : List Token) : Reading ts.length Declaration :=
  match ts with
  | [] => (statement []).andThen fun s rest h => .ok (.statement s) rest h
  | t :: rest =>
    if t.isWord .otherKeyword Vocabulary.functionMarker then
      ((markedFunction rest).terminated.andThen fun f rest₁ h₁ =>
        .ok (.function f) rest₁ (lt_succ_of_shorter h₁))
    else if t.kind = .typeKeyword then (typeLed (t :: rest)).terminated
    else (statement (t :: rest)).andThen fun s rest₁ h₁ => .ok (.statement s) rest₁ h₁

/-- All declarations up to the end; or the problem, and what was left where it arose. -/
def declarations (ts : List Token) : Except (Problem × List Token) Program :=
  if ts.isEmpty then .ok []
  else
    match declaration ts with
    | .failed problem rest => .error (problem, rest)
    | .ok d rest _ => (declarations rest).map (d :: ·)
termination_by ts.length

end Grammar

/-- Why and at which token a program could not be read. -/
structure ParseError where
  problem : Grammar.Problem
  token : Token

namespace ParseError

/-- What is wrong, without the place. -/
def detail (error : ParseError) : String :=
  match error.problem with
  | .expected what => "Expected " ++ what.text ++ ", found " ++ error.token.display
  | .unexpectedToken => "Unexpected token: " ++ error.token.display
  | .duplicateDefault => "Duplicate default clause in switch"
  | .malformedNumber _ => "Malformed number literal"

/-- A problem at a place, as it is reported. -/
def report (position : Position) (detail : String) : String :=
  "Parse error at line " ++ Nat.repr position.line ++ ", column " ++ Nat.repr position.column ++
    ": " ++ detail

def message (error : ParseError) : String := report error.token.position error.detail

end ParseError

/-- Tokens still to be read, and the token that marks their end. -/
structure TokenStream where
  pending : List Token
  last : Token

namespace TokenStream

/-- The tokens up to the first end token.  If there is none, one stands at the last token. -/
def ofTokens (tokens : List Token) : TokenStream where
  pending := tokens.takeWhile fun t => t.kind != .eof
  last := (tokens.find? fun t => t.kind == .eof).getD
    ⟨.eof, .none, (tokens.getLast?.map Token.position).getD .start⟩

/-- The token at which a problem with `rest` left is reported. -/
def offending (stream : TokenStream) (problem : Grammar.Problem) (rest : List Token) : Token :=
  match problem with
  | .malformedNumber token => token
  | _ => rest.head?.getD stream.last

/-- The program that the pending tokens form, and the stream after them; a problem leaves the stream
where it arose. -/
def program (stream : TokenStream) : Except ParseError Program × TokenStream :=
  match Grammar.declarations stream.pending with
  | .ok program => (.ok program, { stream with pending := [] })
  | .error (problem, rest) =>
    (.error ⟨problem, stream.offending problem rest⟩, { stream with pending := rest })

end TokenStream

/-- The program that `tokens` form. -/
def parse (tokens : List Token) : Except ParseError Program :=
  (TokenStream.ofTokens tokens).program.1

end KanaScript
