/-!
# Blank characters

The characters with the Unicode property `White_Space`, and the removal of blanks at the ends of
a text. Every rule of this library that speaks of blanks around a name, a value or an answer means
this set.
-/

namespace Rollout.Text

/-- A character with the property `White_Space`. -/
def isBlank (c : Char) : Bool :=
  let n := c.toNat
  (9 ≤ n && n ≤ 13) || n == 32 || n == 0x85 || n == 0xA0 || n == 0x1680 ||
    (0x2000 ≤ n && n ≤ 0x200A) || n == 0x2028 || n == 0x2029 || n == 0x202F || n == 0x205F ||
    n == 0x3000

/-- The characters from the first one that is not blank on. -/
def dropBlanks (cs : List Char) : List Char := cs.dropWhile isBlank

/-- The characters up to the last one that is not blank. -/
def dropTrailingBlanks (cs : List Char) : List Char := (cs.reverse.dropWhile isBlank).reverse

/-- The characters without the blanks at either end. -/
def trimChars (cs : List Char) : List Char := dropTrailingBlanks (dropBlanks cs)

/-- The text without the blanks at either end. -/
def trim (s : String) : String := .ofList (trimChars s.toList)

/-- A text that holds blanks only. -/
def isBlankText (s : String) : Bool := s.toList.all isBlank

end Rollout.Text
