import KanaScript.Text.Identifier

/-! Names in C.  An ASCII identifier stays as it is; any other name is romanized, syllable by
syllable. -/

namespace KanaScript.C

/-- The syllables written with one character. -/
def syllables : List (Char × String) :=
  [('ア', "a"), ('イ', "i"), ('ウ', "u"), ('エ', "e"), ('オ', "o"),
    ('カ', "ka"), ('キ', "ki"), ('ク', "ku"), ('ケ', "ke"), ('コ', "ko"),
    ('サ', "sa"), ('シ', "si"), ('ス', "su"), ('セ', "se"), ('ソ', "so"),
    ('タ', "ta"), ('チ', "ti"), ('ツ', "tu"), ('テ', "te"), ('ト', "to"),
    ('ナ', "na"), ('ニ', "ni"), ('ヌ', "nu"), ('ネ', "ne"), ('ノ', "no"),
    ('ハ', "ha"), ('ヒ', "hi"), ('フ', "hu"), ('ヘ', "he"), ('ホ', "ho"),
    ('マ', "ma"), ('ミ', "mi"), ('ム', "mu"), ('メ', "me"), ('モ', "mo"),
    ('ヤ', "ya"), ('ユ', "yu"), ('ヨ', "yo"),
    ('ラ', "ra"), ('リ', "ri"), ('ル', "ru"), ('レ', "re"), ('ロ', "ro"),
    ('ワ', "wa"), ('ヲ', "wo"), ('ン', "n"),
    ('ガ', "ga"), ('ギ', "gi"), ('グ', "gu"), ('ゲ', "ge"), ('ゴ', "go"),
    ('ザ', "za"), ('ジ', "zi"), ('ズ', "zu"), ('ゼ', "ze"), ('ゾ', "zo"),
    ('ダ', "da"), ('ヂ', "di"), ('ヅ', "du"), ('デ', "de"), ('ド', "do"),
    ('バ', "ba"), ('ビ', "bi"), ('ブ', "bu"), ('ベ', "be"), ('ボ', "bo"),
    ('パ', "pa"), ('ピ', "pi"), ('プ', "pu"), ('ペ', "pe"), ('ポ', "po"),
    ('ー', "_")]

/-- The syllables written with two characters. -/
def digraphs : List ((Char × Char) × String) :=
  [(('ジ', 'ャ'), "ja"), (('ジ', 'ュ'), "ju"), (('ジ', 'ョ'), "jo")]

/-- The letters of one character, an underscore if it is no syllable. -/
def syllable (c : Char) : List Char := ((syllables.lookup c).getD "_").toList

/-- The letters of a text, two characters together where they are one syllable. -/
def romanize : List Char → List Char
  | [] => []
  | [c] => syllable c
  | c :: d :: cs =>
    match digraphs.lookup (c, d) with
    | some letters => letters.toList ++ romanize cs
    | none => syllable c ++ romanize (d :: cs)

/-- The name that stands for one without letters. -/
def placeholder : List Char := "var".toList

/-- The letters of a name, behind an underscore if a digit is the first of them. -/
def romanName (name : List Char) : List Char :=
  let letters := romanize name
  let letters := if letters.head?.any Char.isDigit then '_' :: letters else letters
  if letters.isEmpty then placeholder else letters

/-- The names that are kept however they are spelled. -/
def reservedNames : List String := ["main", "printf", "scanf", "NULL"]

/-- The C identifier of a name. -/
def identifier (name : String) : String :=
  if Text.isIdentifier name.toList || reservedNames.contains name then name
  else String.ofList (romanName name.toList)

end KanaScript.C
