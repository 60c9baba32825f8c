import KanaScript.C.Program
import KanaScript.Grammar.Program
import KanaScript.Token.Scan

/-! Compilation: from the source text of a script to C text. -/

namespace KanaScript

def compile (source : String) : Except ParseError String :=
  (parse (tokenize source)).map Program.code

end KanaScript
