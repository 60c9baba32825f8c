/-! The words of the script: keywords and operators with their C spelling, and bracket words. -/

namespace KanaScript

/-- What a token is. -/
inductive TokenKind
  | typeKeyword
  | controlKeyword
  | otherKeyword
  | operator
  | number
  | identifier
  | stringLiteral
  | charLiteral
  | openBrace
  | closeBrace
  | openParen
  | closeParen
  | openBracket
  | closeBracket
  | comma
  | semicolon
  | colon
  | eof
  | unknown
deriving DecidableEq

def TokenKind.name : TokenKind → String
  | typeKeyword => "type_keyword"
  | controlKeyword => "control_keyword"
  | otherKeyword => "other_keyword"
  | operator => "operator"
  | number => "number"
  | identifier => "identifier"
  | stringLiteral => "string_literal"
  | charLiteral => "char_literal"
  | openBrace => "open_brace"
  | closeBrace => "close_brace"
  | openParen => "open_paren"
  | closeParen => "close_paren"
  | openBracket => "open_bracket"
  | closeBracket => "close_bracket"
  | comma => "comma"
  | semicolon => "semicolon"
  | colon => "colon"
  | eof => "eof"
  | unknown => "unknown"

namespace Vocabulary

def typeKeywords : List (String × String) :=
  [("ゲギグウ", "int"), ("ロジ", "char"), ("ズゾウ", "float"), ("ザダダス", "double"), ("バサ", "void"),
    ("バゴ", "long"), ("ジジバギ", "short"), ("ブゾウ", "unsigned")]

def controlKeywords : List (String × String) :=
  [("ジョウベン", "if"), ("ゾバ", "else"), ("ガギザ", "while"), ("ブシバゲギ", "for"), ("ロゾス", "return"),
    ("ブゲス", "break"), ("ヅヅゲス", "continue"), ("ゲンダブ", "switch"), ("ダガギ", "case"),
    ("ビデギ", "default"), ("ジョウジ", "printf"), ("ジュウソブ", "scanf")]

/-- The word that marks a function. -/
def functionMarker : String := "パザ"

/-- Keywords that are neither types nor control flow.  A word without C spelling stands for
itself. -/
def otherKeywords : List (String × String) :=
  [("ボウゾウ", "struct"), ("バダデギギ", "typedef"), ("ゴゴビガ", "sizeof"), ("ル", "NULL"), ("ギン", "1"),
    ("ギ", "0"), ("ゴロ", "main"), (functionMarker, ""), ("ザジレ", "\x7b"), ("ゴパシ", "\x7d")]

def operators : List (String × String) :=
  [("ダグ", "+"), ("ジブ", "-"), ("バゲス", "*"), ("パス", "/"), ("ガラシ", "%"), ("ギセス", "="),
    ("ジドギギ", "=="), ("ジドギグバギ", "!="), ("ギョウバシ", "<"), ("ザギバシ", ">"), ("ギバ", "<="),
    ("ギジョウ", ">="), ("バヅ", "&&"), ("ラダパ", "||"), ("ジデギ", "!"), ("ガンド", "&"), ("ゴゴ", "|"),
    ("ダグダグ", "++"), ("ジブジブ", "--")]

/-- The kind and the C spelling of a keyword. -/
def keyword? (word : String) : Option (TokenKind × String) :=
  match typeKeywords.lookup word with
  | some spelling => some (.typeKeyword, spelling)
  | none =>
    match controlKeywords.lookup word with
    | some spelling => some (.controlKeyword, spelling)
    | none => (otherKeywords.lookup word).map (.otherKeyword, ·)

/-- The C spelling of an operator word. -/
def operator? (word : String) : Option String := operators.lookup word

/-- A bracket written as a word. -/
structure Bracket where
  word : List Char
  kind : TokenKind
  text : String

/-- The bracket words, longer ones first. -/
def brackets : List Bracket :=
  [⟨"ザジレジョヂザギ".toList, .openParen, "("⟩, ⟨"ゴパシジョヂザギ".toList, .closeParen, ")"⟩,
    ⟨"ザジレパギセヅ".toList, .openBracket, "["⟩, ⟨"ゴパシザギセヅ".toList, .closeBracket, "]"⟩,
    ⟨"ザジレ".toList, .openBrace, "\x7b"⟩, ⟨"ゴパシ".toList, .closeBrace, "\x7d"⟩]

/-- The first bracket word that `cs` starts with. -/
def bracket? (cs : List Char) : Option Bracket :=
  brackets.find? fun bracket => bracket.word.isPrefixOf cs

/-- The kind and the text of a character that is a token of its own. -/
def punctuation? : Char → Option (TokenKind × String)
  | '、' | ',' => some (.comma, ",")
  | '。' | ';' => some (.semicolon, ";")
  | '：' | ':' => some (.colon, ":")
  | '(' | '（' => some (.openParen, "(")
  | ')' | '）' => some (.closeParen, ")")
  | '[' | '［' => some (.openBracket, "[")
  | ']' | '］' => some (.closeBracket, "]")
  | '\x7b' | '｛' => some (.openBrace, "\x7b")
  | '\x7d' | '｝' => some (.closeBrace, "\x7d")
  | _ => none

end Vocabulary

end KanaScript
