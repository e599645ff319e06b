import EtherLang.Text.Quoted

/-!
# Reading bytes as UTF-8

Source files are read strictly: the first ill-formed sequence ends the reading and is reported
with its position and its extent. A sequence is ill-formed from its leading byte up to, but not
including, the first byte that cannot continue it.
-/

namespace EtherLang.Text.Utf8

/-- Why a sequence of bytes is not UTF-8. -/
inductive Fault where
  /-- The byte begins no sequence. -/
  | invalidStart
  /-- A byte stands where the sequence does not go on. -/
  | invalidContinuation
  /-- The input ends inside the sequence. -/
  | unexpectedEnd
  deriving DecidableEq, Repr

/-- An ill-formed sequence: what is wrong with it, where it begins and its bytes. -/
structure DecodeError where
  fault : Fault
  position : Nat
  first : UInt8
  /-- How many well-formed continuation bytes belong to it. -/
  continued : Nat
  deriving DecidableEq, Repr

/-- The wording of a fault. -/
def Fault.reason : Fault → String
  | invalidStart => "invalid start byte"
  | invalidContinuation => "invalid continuation byte"
  | unexpectedEnd => "unexpected end of data"

/-- The report on an ill-formed sequence. -/
def DecodeError.message (e : DecodeError) : String :=
  let extent :=
    if e.continued = 0 then
      "byte 0x" ++ String.ofList (hexPadded 2 e.first.toNat)
        ++ " in position " ++ toString e.position
    else
      "bytes in position " ++ toString e.position ++ "-" ++ toString (e.position + e.continued)
  "'utf-8' codec can't decode " ++ extent ++ ": " ++ e.fault.reason

/-- What a leading byte calls for: the number of continuation bytes, the range of the first of
them, and the bits that the leading byte contributes. -/
structure Lead where
  more : Nat
  low : UInt8 := 0x80
  high : UInt8 := 0xbf
  bits : Nat

/-- The reading of a leading byte; `none` for a byte that begins no sequence. -/
def lead? (b : UInt8) : Option Lead :=
  if b < 0x80 then some { more := 0, bits := b.toNat }
  else if b < 0xc2 then none
  else if b < 0xe0 then some { more := 1, bits := b.toNat - 0xc0 }
  else if b = 0xe0 then some { more := 2, low := 0xa0, bits := 0 }
  else if b = 0xed then some { more := 2, high := 0x9f, bits := 0xd }
  else if b < 0xf0 then some { more := 2, bits := b.toNat - 0xe0 }
  else if b = 0xf0 then some { more := 3, low := 0x90, bits := 0 }
  else if b < 0xf4 then some { more := 3, bits := b.toNat - 0xf0 }
  else if b = 0xf4 then some { more := 3, high := 0x8f, bits := 4 }
  else none

/-- The longest run of at most `more` bytes that continue a sequence, the first of them between
`low` and `high` and the others any continuation bytes. -/
def continuation : (more : Nat) → (low high : UInt8) → List UInt8 → List UInt8
  | 0, _, _, _ => []
  | _, _, _, [] => []
  | more + 1, low, high, b :: rest =>
    if low ≤ b ∧ b ≤ high then b :: continuation more 0x80 0xbf rest else []

/-- Decodes the bytes that begin at `position` of the input. -/
def decodeFrom (position : Nat) (bytes : List UInt8) : Except DecodeError (List Char) :=
  match bytes with
  | [] => .ok []
  | b :: rest =>
    match lead? b with
    | none => .error ⟨.invalidStart, position, b, 0⟩
    | some lead =>
      let run := continuation lead.more lead.low lead.high rest
      if run.length = lead.more then
        let code := run.foldl (fun n c => n * 64 + (c.toNat - 0x80)) lead.bits
        (decodeFrom (position + 1 + run.length) (rest.drop run.length)).map (Char.ofNat code :: ·)
      else if run.length = rest.length then
        .error ⟨.unexpectedEnd, position, b, run.length⟩
      else
        .error ⟨.invalidContinuation, position, b, run.length⟩
termination_by bytes.length
decreasing_by simp only [List.length_drop, List.length_cons]; omega

/-- Decodes a whole file. -/
def decode (bytes : ByteArray) : Except DecodeError (List Char) :=
  decodeFrom 0 bytes.toList

/-- Every line end becomes a line feed, be it a line feed, a carriage return or both in a row. -/
def unifyLineEnds : List Char → List Char
  | [] => []
  | '\r' :: '\n' :: rest => '\n' :: unifyLineEnds rest
  | c :: rest => (if c == '\r' then '\n' else c) :: unifyLineEnds rest

/-- The text of a source file. -/
def readText (bytes : ByteArray) : Except DecodeError String :=
  (decode bytes).map fun cs => String.ofList (unifyLineEnds cs)

end EtherLang.Text.Utf8
