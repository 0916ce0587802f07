/-!
# White space and words

The 25 characters with the property White_Space separate words. Words are the longest runs of other
characters.
-/

namespace PocketCalculator

/-- Whether the character has the property White_Space. -/
def isBlank (c : Char) : Bool :=
  (0x9 ≤ c.toNat && c.toNat ≤ 0xD) || c.toNat == 0x20 || c.toNat == 0x85 || c.toNat == 0xA0 ||
    c.toNat == 0x1680 || (0x2000 ≤ c.toNat && c.toNat ≤ 0x200A) || c.toNat == 0x2028 ||
    c.toNat == 0x2029 || c.toNat == 0x202F || c.toNat == 0x205F || c.toNat == 0x3000

def words (line : String) : List String :=
  ((line.toList.splitBy fun a b ↦ isBlank a == isBlank b).filter fun run ↦ !run.any isBlank).map
    String.ofList

def isBlankLine (line : String) : Bool :=
  line.toList.all isBlank

end PocketCalculator
