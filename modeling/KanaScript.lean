import KanaScript.Inspector.Session
import KanaScript.Main
import KanaScript.Proofs.Grammar.Derivation
import KanaScript.Proofs.Grammar.Yield
import KanaScript.Proofs.Grammar.Expression
import KanaScript.Proofs.C.Lexer
import KanaScript.Proofs.C.Spelling
import KanaScript.Proofs.C.Reader
import KanaScript.Proofs.C.Grouping
import KanaScript.Proofs.C.ExpressionTokens
import KanaScript.Proofs.C.ReadBack
import KanaScript.Proofs.C.ElsePairing
import KanaScript.Proofs.C.ProgramOutline
import KanaScript.Proofs.C.ProgramTokens
import KanaScript.Proofs.Grammar.KnownParts
import KanaScript.Proofs.C.ProgramReadBack
import KanaScript.Proofs.Grammar.Action
import KanaScript.Proofs.Grammar.ProgramAction
import KanaScript.Proofs.Grammar.Program
import KanaScript.Proofs.Grammar.Writing
import KanaScript.Proofs.Grammar.WrittenProgram
import KanaScript.Proofs.Grammar.Prediction
import KanaScript.Proofs.Grammar.ProgramPrediction
import KanaScript.Proofs.Grammar.Failure
import KanaScript.Proofs.Token.Place
import KanaScript.Proofs.Token.Layout
import KanaScript.Proofs.Token.Spelling
import KanaScript.Proofs.Token.Cut
import KanaScript.Proofs.Token.Seam
import KanaScript.Proofs.Tree.Relocation
import KanaScript.Proofs.Grammar.Relocation
import KanaScript.Proofs.Grammar.Concatenation
import KanaScript.Proofs.Compile.Layout
import KanaScript.Proofs.Compile.Concatenation
import KanaScript.Proofs.Numeral.Spelling
import KanaScript.Proofs.Command.Run
import KanaScript.Proofs.Inspector.Range
import KanaScript.Proofs.Grammar.Return
import KanaScript.Proofs.C.Segments
import KanaScript.Proofs.Grammar.NameTokens
import KanaScript.Proofs.Compile.KeywordNames
import KanaScript.Proofs.Token.Items
import KanaScript.Proofs.Token.LineBreak
import KanaScript.Proofs.Grammar.TakenTokens
import KanaScript.Proofs.Grammar.StatementSteps
import KanaScript.Proofs.Grammar.Calls
import KanaScript.Proofs.Grammar.Terminators
import KanaScript.Proofs.Grammar.Spans
import KanaScript.Proofs.Grammar.Locations
import KanaScript.Proofs.Grammar.ParameterSpellings
import KanaScript.Proofs.C.Names
import KanaScript.Proofs.C.Escapes
import KanaScript.Proofs.C.LiteralValues
import KanaScript.Proofs.C.Page
import KanaScript.Proofs.C.Lines
import KanaScript.Proofs.C.Brackets
import KanaScript.Proofs.Numeral.Segments
import KanaScript.Proofs.Number.Rounding
import KanaScript.Proofs.Token.Decimal
import KanaScript.Proofs.Inspector.Start
import KanaScript.Proofs.Token.Listing
import KanaScript.Proofs.Grammar.Listing
import KanaScript.Proofs.Inspector.Follow
import KanaScript.Proofs.Inspector.ScriptColors
import KanaScript.Proofs.Transliteration.Seam
import KanaScript.Proofs.Command.Arguments
import KanaScript.Proofs.Command.DefaultOutput
import KanaScript.Proofs.Inspector.Cursor
import KanaScript.Proofs.Grammar.Progress
