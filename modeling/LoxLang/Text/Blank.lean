import LoxLang.Text.CodePoints

set_option autoImplicit false

namespace LoxLang

def blankRanges : CodePoints :=
  [(0x9, 0xD), (0x20, 0x20), (0x85, 0x85), (0xA0, 0xA0), (0x1680, 0x1680), (0x2000, 0x200A),
   (0x2028, 0x2029), (0x202F, 0x202F), (0x205F, 0x205F), (0x3000, 0x3000)]

def isBlank (c : Char) : Bool := blankRanges.has c

def dropTrailing (p : Char → Bool) (text : List Char) : List Char :=
  (text.reverse.dropWhile p).reverse

def trimBlank (text : List Char) : List Char := dropTrailing isBlank (text.dropWhile isBlank)

end LoxLang
