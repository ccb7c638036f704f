import Polytype.Text.Ranges

/-!
# Characters that leave no mark

The characters of Unicode 17.0 with the property Default_Ignorable_Code_Point. Most are format
characters; the Hangul fillers are letters.
-/

namespace Polytype.Text.Ignorable

def ranges : Ranges :=
  [(0x00ad, 0x00ad), (0x034f, 0x034f), (0x061c, 0x061c), (0x115f, 0x1160), (0x17b4, 0x17b5),
   (0x180b, 0x180f), (0x200b, 0x200f), (0x202a, 0x202e), (0x2060, 0x206f), (0x3164, 0x3164),
   (0xfe00, 0xfe0f), (0xfeff, 0xfeff), (0xffa0, 0xffa0), (0xfff0, 0xfff8), (0x1bca0, 0x1bca3),
   (0x1d173, 0x1d17a), (0xe0000, 0xe0fff)]

end Polytype.Text.Ignorable

namespace Polytype.Text

/-- Characters that are not drawn at all. -/
def isIgnorable (c : Char) : Bool := Ignorable.ranges.has c

end Polytype.Text
