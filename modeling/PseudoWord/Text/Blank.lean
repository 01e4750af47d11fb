import PseudoWord.Text.CharRanges

namespace PseudoWord

/-- The characters with the property White_Space. -/
def blankRanges : CharRanges :=
  [(0x9, 0xD), (0x20, 0x20), (0x85, 0x85), (0xA0, 0xA0), (0x1680, 0x1680), (0x2000, 0x200A),
    (0x2028, 0x2029), (0x202F, 0x202F), (0x205F, 0x205F), (0x3000, 0x3000)]

def isBlank (c : Char) : Bool := blankRanges.has c

def dropBlanks (text : List Char) : List Char := text.dropWhile isBlank

/-- A text without the blanks at its two ends. -/
def trimBlanks (text : List Char) : List Char := (dropBlanks (dropBlanks text).reverse).reverse

end PseudoWord
