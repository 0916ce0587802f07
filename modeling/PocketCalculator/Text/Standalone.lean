import PocketCalculator.Text.GraphemeExtend
import PocketCalculator.Text.Unprintable

/-!
# Characters that stand alone

A character stands alone if it shows a shape without the help of the character before it. The
properties of the character tables decide this for all but two small groups: the Hangul fillers are
letters and show nothing, and the halfwidth katakana sound marks extend the letter before them and
still fill a cell of their own.
-/

namespace PocketCalculator

/-- The letters that hold the place of a missing part of a Hangul syllable and leave it blank. -/
def isHangulFiller (c : Char) : Bool :=
  c.toNat == 0x115F || c.toNat == 0x1160 || c.toNat == 0x3164 || c.toNat == 0xFFA0

/-- The voiced and the semi-voiced sound mark of halfwidth katakana. -/
def isHalfwidthSoundMark (c : Char) : Bool :=
  c.toNat == 0xFF9E || c.toNat == 0xFF9F

/-- Whether the character shows a shape of its own; the space counts as one that does. -/
def isStandalone (c : Char) : Bool :=
  !isUnprintable c && !isHangulFiller c && (!isGraphemeExtend c || isHalfwidthSoundMark c)

end PocketCalculator
