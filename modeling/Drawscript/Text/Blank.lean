/-!
# Blank characters, trimming and words

Texts are handled as lists of characters. A blank is a character of Unicode's `White_Space`
property; trimming, words and fields are all defined from it. Offsets into a text count the bytes of
its UTF-8 form, so `byteLength` is the unit of every span in the library.
-/

set_option autoImplicit false

namespace Drawscript.Text

/-- The characters of Unicode's `White_Space` property. -/
def isBlank (c : Char) : Bool :=
  let n := c.toNat
  (0x09 ≤ n && n ≤ 0x0D) || n == 0x20 || n == 0x85 || n == 0xA0 || n == 0x1680 ||
    (0x2000 ≤ n && n ≤ 0x200A) || n == 0x2028 || n == 0x2029 || n == 0x202F || n == 0x205F ||
    n == 0x3000

/-- The text without its leading blanks. -/
def trimStart (text : List Char) : List Char :=
  text.dropWhile isBlank

/-- The text without its trailing blanks. -/
def trimEnd (text : List Char) : List Char :=
  (text.reverse.dropWhile isBlank).reverse

/-- The text without blanks at either end. -/
def trim (text : List Char) : List Char :=
  trimEnd (trimStart text)

/-- The nonempty runs of characters between separators, in order. -/
def fields (isSeparator : Char → Bool) (text : List Char) : List (List Char) :=
  (text.splitOnP isSeparator).filter fun field => !field.isEmpty

/-- The nonempty runs of characters between blanks, in order. -/
def words (text : List Char) : List (List Char) :=
  fields isBlank text

/-- The first word of a text, and what follows it without surrounding blanks. -/
def firstWord (text : List Char) : List Char × List Char :=
  let text := trim text
  (text.takeWhile fun c => !isBlank c, trim (text.dropWhile fun c => !isBlank c))

/-- The fields of a text put back together with one space between neighbours. -/
def spaced (parts : List (List Char)) : List Char :=
  List.intercalate [' '] parts

/-- The number of bytes of the text's UTF-8 form. -/
def byteLength : List Char → Nat
  | [] => 0
  | c :: rest => c.utf8Size + byteLength rest

end Drawscript.Text
