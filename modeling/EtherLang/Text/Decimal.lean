import EtherLang.Text.Blank

/-!
# Decimal numerals in settings

A setting may give a whole number in any decimal digits that Unicode knows, with a sign, with
single underscores between digits and with blanks around it. Numerals of more than
`maxDigits` digits are not read.
-/

namespace EtherLang.Text

/-- The code points of the zeros of Unicode's decimal digits; each zero is followed by the digits
one to nine. -/
def decimalZeros : List Nat := [
  0x30, 0x660, 0x6f0, 0x7c0, 0x966, 0x9e6, 0xa66, 0xae6, 0xb66, 0xbe6, 0xc66, 0xce6, 0xd66, 0xde6,
  0xe50, 0xed0, 0xf20, 0x1040, 0x1090, 0x17e0, 0x1810, 0x1946, 0x19d0, 0x1a80, 0x1a90, 0x1b50,
  0x1bb0, 0x1c40, 0x1c50, 0xa620, 0xa8d0, 0xa900, 0xa9d0, 0xa9f0, 0xaa50, 0xabf0, 0xff10, 0x104a0,
  0x10d30, 0x11066, 0x110f0, 0x11136, 0x111d0, 0x112f0, 0x11450, 0x114d0, 0x11650, 0x116c0,
  0x11730, 0x118e0, 0x11950, 0x11c50, 0x11d50, 0x11da0, 0x16a60, 0x16ac0, 0x16b50, 0x1d7ce,
  0x1d7d8, 0x1d7e2, 0x1d7ec, 0x1d7f6, 0x1e140, 0x1e2f0, 0x1e950, 0x1fbf0
]

/-- The value of a decimal digit, if the character is one. -/
def decimalDigit? (c : Char) : Option Nat :=
  (decimalZeros.find? fun base => base ≤ c.toNat && c.toNat < base + 10).map (c.toNat - ·)

/-- The longest numeral, in digits, that is converted to a number. -/
def maxDigits : Nat := 4300

/-- The blanks that may stand around a numeral: all but the information separators. -/
def isNumeralBlank (c : Char) : Bool :=
  isBlank c && !(0x1c ≤ c.toNat && c.toNat ≤ 0x1f)

/-- Reads digits with single underscores between them, up to the end of the text; a digit is due
next. -/
def digitGroups? : List Char → Option (List Nat)
  | [] => none
  | [c] => (decimalDigit? c).map ([·])
  | c :: '_' :: rest => do return (← decimalDigit? c) :: (← digitGroups? rest)
  | c :: rest => do return (← decimalDigit? c) :: (← digitGroups? rest)

/-- The number that a list of decimal digits denotes, most significant digit first. -/
def ofDigits (digits : List Nat) : Nat :=
  digits.foldl (fun n d => 10 * n + d) 0

/-- The number that a run of ASCII digits denotes. -/
def ofAsciiDigits (digits : String) : Nat :=
  ofDigits (digits.toList.map fun c => c.toNat - '0'.toNat)

/-- The number that a numeral without sign denotes. -/
def magnitude? (cs : List Char) : Option Nat := do
  let digits ← digitGroups? cs
  if digits.length ≤ maxDigits then some (ofDigits digits) else none

/-- The number that a numeral denotes: an optional sign, then the digits. -/
def readInt? (text : String) : Option Int :=
  match trimList isNumeralBlank text.toList with
  | '-' :: rest => (magnitude? rest).map fun n => -(n : Int)
  | '+' :: rest => (magnitude? rest).map fun n => (n : Int)
  | rest => (magnitude? rest).map fun n => (n : Int)

end EtherLang.Text
