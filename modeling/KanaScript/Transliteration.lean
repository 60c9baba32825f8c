/-! Transliteration of Japanese text into the sounds of the script.  Names of the script's own world
are copied, the longest first where several start; every other syllable is replaced. -/

namespace KanaScript.Transliteration

/-- Names that are copied, longer ones first. -/
def properNouns : List (List Char) :=
  ["ゲリザギバスゲゲル".toList, "ザギバスゲゲル".toList, "バグンダダ".toList, "グロンギ".toList,
    "クウガ".toList, "リント".toList, "ゲゲル".toList, "グセパ".toList]

/-- The sounds of hiragana and katakana. -/
def sounds : List (Char × String) :=
  [('あ', "ガ"), ('い', "ギ"), ('う', "グ"), ('え', "ゲ"), ('お', "ゴ"),
    ('か', "バ"), ('き', "ビ"), ('く', "ブ"), ('け', "ベ"), ('こ', "ボ"),
    ('さ', "ガ"), ('し', "ギ"), ('す', "グ"), ('せ', "ゲ"), ('そ', "ゴ"),
    ('た', "ダ"), ('ち', "ヂ"), ('つ', "ヅ"), ('て', "デ"), ('と', "ド"),
    ('な', "バ"), ('に', "ビ"), ('ぬ', "ブ"), ('ね', "ベ"), ('の', "ボ"),
    ('は', "ザ"), ('ひ', "ジ"), ('ふ', "ズ"), ('へ', "ゼ"), ('ほ', "ゾ"),
    ('ま', "ラ"), ('み', "リ"), ('む', "ル"), ('め', "レ"), ('も', "ロ"),
    ('や', "ジャ"), ('ゆ', "ジュ"), ('よ', "ジョ"),
    ('ら', "サ"), ('り', "シ"), ('る', "ス"), ('れ', "セ"), ('ろ', "ソ"),
    ('わ', "パ"), ('を', "ゾ"), ('ん', "ン"),
    ('が', "ガ"), ('ぎ', "ギ"), ('ぐ', "グ"), ('げ', "ゲ"), ('ご', "ゴ"),
    ('ざ', "ザ"), ('じ', "ジ"), ('ず', "ズ"), ('ぜ', "ゼ"), ('ぞ', "ゾ"),
    ('だ', "ザ"), ('ぢ', "ジ"), ('づ', "ズ"), ('で', "ゼ"), ('ど', "ゾ"),
    ('ば', "ダ"), ('び', "ヂ"), ('ぶ', "ヅ"), ('べ', "デ"), ('ぼ', "ド"),
    ('ぱ', "マ"), ('ぴ', "ミ"), ('ぷ', "ム"), ('ぺ', "メ"), ('ぽ', "モ"),
    ('ぁ', "ァ"), ('ぃ', "ィ"), ('ぅ', "ゥ"), ('ぇ', "ェ"), ('ぉ', "ォ"),
    ('ゃ', "ャ"), ('ゅ', "ュ"), ('ょ', "ョ"), ('っ', "ッ"),
    ('ア', "ガ"), ('イ', "ギ"), ('ウ', "グ"), ('エ', "ゲ"), ('オ', "ゴ"),
    ('カ', "バ"), ('キ', "ビ"), ('ク', "ブ"), ('ケ', "ベ"), ('コ', "ボ"),
    ('サ', "ガ"), ('シ', "ギ"), ('ス', "グ"), ('セ', "ゲ"), ('ソ', "ゴ"),
    ('タ', "ダ"), ('チ', "ヂ"), ('ツ', "ヅ"), ('テ', "デ"), ('ト', "ド"),
    ('ナ', "バ"), ('ニ', "ビ"), ('ヌ', "ブ"), ('ネ', "ベ"), ('ノ', "ボ"),
    ('ハ', "ザ"), ('ヒ', "ジ"), ('フ', "ズ"), ('ヘ', "ゼ"), ('ホ', "ゾ"),
    ('マ', "ラ"), ('ミ', "リ"), ('ム', "ル"), ('メ', "レ"), ('モ', "ロ"),
    ('ヤ', "ジャ"), ('ユ', "ジュ"), ('ヨ', "ジョ"),
    ('ラ', "サ"), ('リ', "シ"), ('ル', "ス"), ('レ', "セ"), ('ロ', "ソ"),
    ('ワ', "パ"), ('ヲ', "ゾ"), ('ン', "ン"),
    ('ガ', "ガ"), ('ギ', "ギ"), ('グ', "グ"), ('ゲ', "ゲ"), ('ゴ', "ゴ"),
    ('ザ', "ザ"), ('ジ', "ジ"), ('ズ', "ズ"), ('ゼ', "ゼ"), ('ゾ', "ゾ"),
    ('ダ', "ザ"), ('ヂ', "ジ"), ('ヅ', "ズ"), ('デ', "ゼ"), ('ド', "ゾ"),
    ('バ', "ダ"), ('ビ', "ヂ"), ('ブ', "ヅ"), ('ベ', "デ"), ('ボ', "ド"),
    ('パ', "マ"), ('ピ', "ミ"), ('プ', "ム"), ('ペ', "メ"), ('ポ', "モ")]

/-- The name that `cs` starts with. -/
def noun? (cs : List Char) : Option (List Char) :=
  properNouns.find? fun noun => noun.isPrefixOf cs

/-- The sound of one character, itself if it has none. -/
def sound (c : Char) : List Char :=
  match sounds.lookup c with
  | some syllables => syllables.toList
  | none => [c]

def convert : List Char → List Char
  | [] => []
  | c :: cs =>
    match noun? (c :: cs) with
    | some noun => noun ++ convert (cs.drop (noun.length - 1))
    | none => sound c ++ convert cs
termination_by cs => cs.length
decreasing_by all_goals simp only [List.length_drop, List.length_cons]; omega

end KanaScript.Transliteration
