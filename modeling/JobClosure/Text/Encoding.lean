/-!
# Text files

A file is a sequence of bytes in UTF-8. `decode` reads it or reports the first place where it is not
UTF-8, in the terms of the standard's table of well-formed sequences. After decoding, every line end is a
single line feed (`unifyLineEnds`).
-/

namespace JobClosure.Text

/-- Why a byte sequence is not UTF-8. -/
inductive EncodingFault.Reason
  | invalidStart
  | invalidContinuation
  | unexpectedEnd
  deriving DecidableEq, Repr

/-- The first ill-formed sequence of a file: where it starts, its bytes up to the one that rules it out
(exclusive), and the reason. -/
structure EncodingFault where
  position : Nat
  first : UInt8
  length : Nat
  reason : EncodingFault.Reason
  deriving DecidableEq, Repr

/-- A continuation byte. -/
def isTail (b : UInt8) : Bool := 0x80 ≤ b && b ≤ 0xBF

/-- The second byte that a three or four byte sequence starting with `lead` may have. -/
def isSecond (lead b : UInt8) : Bool :=
  if lead == 0xE0 then 0xA0 ≤ b && b ≤ 0xBF
  else if lead == 0xED then 0x80 ≤ b && b ≤ 0x9F
  else if lead == 0xF0 then 0x90 ≤ b && b ≤ 0xBF
  else if lead == 0xF4 then 0x80 ≤ b && b ≤ 0x8F
  else isTail b

/-- How many bytes the sequence that starts with `lead` has. -/
def sequenceLength? (lead : UInt8) : Option Nat :=
  if lead ≤ 0x7F then some 1
  else if 0xC2 ≤ lead && lead ≤ 0xDF then some 2
  else if 0xE0 ≤ lead && lead ≤ 0xEF then some 3
  else if 0xF0 ≤ lead && lead ≤ 0xF4 then some 4
  else none

/-- The fault of the sequence made of `lead` and the bytes after it, if it has one. -/
def sequenceFault? (lead : UInt8) (rest : List UInt8) : Option (Nat × EncodingFault.Reason) :=
  match sequenceLength? lead with
  | none => some (1, .invalidStart)
  | some size =>
    let tails := rest.take (size - 1)
    let good := match tails with
      | [] => 0
      | b :: bs => if isSecond lead b then 1 + (bs.takeWhile isTail).length else 0
    if good + 1 == size then none
    else if good < tails.length then some (good + 1, .invalidContinuation)
    else some (good + 1, .unexpectedEnd)

/-- The first fault of a byte sequence. `skip` bytes belong to a sequence that has been checked. -/
def firstFault? (position skip : Nat) : List UInt8 → Option EncodingFault
  | [] => none
  | b :: rest =>
    match skip with
    | skip + 1 => firstFault? (position + 1) skip rest
    | 0 =>
      match sequenceFault? b rest with
      | some (length, reason) => some ⟨position, b, length, reason⟩
      | none => firstFault? (position + 1) ((sequenceLength? b).getD 1 - 1) rest

/-- The text of a file. -/
def decode (bytes : ByteArray) : Except EncodingFault String :=
  match String.fromUTF8? bytes with
  | some text => .ok text
  | none => .error ((firstFault? 0 0 bytes.toList).getD ⟨0, 0, 1, .invalidStart⟩)

/-- Every line end becomes one line feed: a carriage return with or without a line feed after it. -/
def unifyLineEnds : List Char → List Char
  | '\r' :: '\n' :: rest => '\n' :: unifyLineEnds rest
  | '\r' :: rest => '\n' :: unifyLineEnds rest
  | c :: rest => c :: unifyLineEnds rest
  | [] => []

end JobClosure.Text
