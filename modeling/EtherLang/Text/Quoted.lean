import EtherLang.Text.Printable

/-!
# Quoted texts

Messages show a piece of text between quotation marks. The apostrophe is the usual mark; a text
that holds an apostrophe and no quotation mark is put between quotation marks instead. The mark in
use and the backslash are escaped, and a character that is not printable is written by its code
point in lower-case hexadecimal.
-/

namespace EtherLang.Text

/-- The apostrophe, the usual mark around a quoted text. -/
def apostrophe : Char := '\x27'

/-- The quotation mark, used where the text itself holds an apostrophe. -/
def quotationMark : Char := '\x22'

/-- A number in lower-case hexadecimal, filled up with zeros to at least `width` digits. -/
def hexPadded (width n : Nat) : List Char :=
  let digits := Nat.toDigits 16 n
  List.replicate (width - digits.length) '0' ++ digits

/-- How one character is written between a pair of marks. -/
def escape (mark c : Char) : List Char :=
  if c == mark || c == '\\' then ['\\', c]
  else if c == '\n' then ['\\', 'n']
  else if c == '\r' then ['\\', 'r']
  else if c == '\t' then ['\\', 't']
  else if isPrintable c then [c]
  else if c.toNat < 0x100 then '\\' :: 'x' :: hexPadded 2 c.toNat
  else if c.toNat < 0x10000 then '\\' :: 'u' :: hexPadded 4 c.toNat
  else '\\' :: 'U' :: hexPadded 8 c.toNat

/-- The mark that a text is put between. -/
def markFor (text : List Char) : Char :=
  if text.contains apostrophe && !text.contains quotationMark then quotationMark else apostrophe

/-- A text between its marks, with everything escaped that needs it. -/
def quoted (text : String) : String :=
  let mark := markFor text.toList
  String.ofList (mark :: text.toList.flatMap (escape mark) ++ [mark])

end EtherLang.Text
