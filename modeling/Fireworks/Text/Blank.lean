import Fireworks.Text.CharRanges

/-! # Blank characters

The characters with the property White_Space: they take up room in a text and show nothing.
-/
namespace Fireworks.Text

def blankRanges : CharRanges :=
  [(0x09, 0x0D), (0x20, 0x20), (0x85, 0x85), (0xA0, 0xA0), (0x1680, 0x1680), (0x2000, 0x200A),
   (0x2028, 0x2029), (0x202F, 0x202F), (0x205F, 0x205F), (0x3000, 0x3000)]

def isBlank (c : Char) : Bool := blankRanges.contains c

end Fireworks.Text
