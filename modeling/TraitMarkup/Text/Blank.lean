import TraitMarkup.Text.Ranges

/-! # Blanks

White space, line ends included, and trimming it from the ends of a text. -/

namespace TraitMarkup.Text

/-- The white space characters, by code point. -/
def blankRanges : Ranges :=
  [(0x0009, 0x000D), (0x001C, 0x0020), (0x0085, 0x0085), (0x00A0, 0x00A0), (0x1680, 0x1680),
   (0x2000, 0x200A), (0x2028, 0x2029), (0x202F, 0x202F), (0x205F, 0x205F), (0x3000, 0x3000)]

/-- Whether `c` is white space, a line end included. -/
def isBlank (c : Char) : Bool := blankRanges.has c.toNat

/-- The characters without the blanks at their end. -/
def trimEnd (cs : List Char) : List Char := (cs.reverse.dropWhile isBlank).reverse

/-- The characters without the blanks at either end. -/
def trim (cs : List Char) : List Char := trimEnd (cs.dropWhile isBlank)

end TraitMarkup.Text
