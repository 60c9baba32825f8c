import KanaScript.Text.Ranges

/-! The katakana script.  A word is a run of katakana that the long mark may continue but not
start. -/

namespace KanaScript.Text

def katakanaRanges : Ranges :=
  [(0x30A1, 0x30FA), (0x30FD, 0x30FF), (0x31F0, 0x31FF), (0x32D0, 0x32FE), (0x3300, 0x3357),
    (0xFF66, 0xFF6F), (0xFF71, 0xFF9D)]

/-- Whether `c` belongs to the katakana script.  The middle dot and the long marks, which other
scripts share, do not. -/
def isKatakana (c : Char) : Bool := katakanaRanges.covers c

/-- The mark that lengthens the vowel before it. -/
def longMark : Char := 'ー'

/-- Whether `c` may continue a word. -/
def continuesWord (c : Char) : Bool := isKatakana c || c == longMark

end KanaScript.Text
