/-!
# Blank characters

The characters that count as white space where a whole text is trimmed or cut into words. The
class is wider than the blanks between the tokens of a program: it holds the information
separators and the spaces of Unicode too.
-/

namespace EtherLang.Text

/-- The blank characters: tab to carriage return, the four information separators, the space, the
next-line character and the spaces and separators of Unicode. -/
def isBlank (c : Char) : Bool :=
  let n := c.toNat
  (0x09 ≤ n && n ≤ 0x0d) || (0x1c ≤ n && n ≤ 0x20) || n == 0x85 || n == 0xa0 || n == 0x1680
    || (0x2000 ≤ n && n ≤ 0x200a) || n == 0x2028 || n == 0x2029 || n == 0x202f || n == 0x205f
    || n == 0x3000

/-- A list without the leading and trailing members that satisfy `p`. -/
def trimList (p : Char → Bool) (cs : List Char) : List Char :=
  ((cs.dropWhile p).reverse.dropWhile p).reverse

/-- A text without the blanks around it. -/
def trim (text : String) : String :=
  String.ofList (trimList isBlank text.toList)

/-- Whether a text holds nothing but blanks. -/
def allBlank (text : String) : Bool :=
  text.toList.all isBlank

/-- The first word of a text, and what follows it after the blanks in between. -/
def firstWord (text : String) : String × String :=
  let cs := text.toList.dropWhile isBlank
  (String.ofList (cs.takeWhile (!isBlank ·)),
    String.ofList ((cs.dropWhile (!isBlank ·)).dropWhile isBlank))

/-- A text with the ASCII capital letters made small. -/
def lower (text : String) : String :=
  String.ofList (text.toList.map Char.toLower)

end EtherLang.Text
