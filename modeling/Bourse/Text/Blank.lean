/-! White space as Unicode defines it: the twenty-five code points of the property White_Space.
Trimming removes them at both ends of a text and touches nothing between. -/
namespace Bourse.Text

def inRanges (ranges : List (Nat × Nat)) (c : Char) : Bool :=
  ranges.any fun r => decide (r.1 ≤ c.toNat) && decide (c.toNat ≤ r.2)

def blankRanges : List (Nat × Nat) :=
  [(0x09, 0x0D), (0x20, 0x20), (0x85, 0x85), (0xA0, 0xA0), (0x1680, 0x1680), (0x2000, 0x200A),
   (0x2028, 0x2029), (0x202F, 0x202F), (0x205F, 0x205F), (0x3000, 0x3000)]

def isBlank (c : Char) : Bool := inRanges blankRanges c

def trimStart (cs : List Char) : List Char := cs.dropWhile isBlank

def trimEnd (cs : List Char) : List Char := (cs.reverse.dropWhile isBlank).reverse

def trimBoth (cs : List Char) : List Char := trimEnd (trimStart cs)

def trim (s : String) : String := String.ofList (trimBoth s.toList)

def isBlankText (s : String) : Bool := s.toList.all isBlank

/-- The twenty-six ASCII small letters become capitals; every other character stays. -/
def upperAscii (s : String) : String := String.ofList (s.toList.map Char.toUpper)

/-- The twenty-six ASCII capitals become small letters; every other character stays. -/
def lowerAscii (s : String) : String := String.ofList (s.toList.map Char.toLower)

end Bourse.Text
