/-! # Reading bytes as UTF-8

A string of bytes falls into pieces: encoded characters, and faults between them. A fault covers the
longest run of bytes that starts an encoding and cannot go on with what follows, so a strict and a
lenient reader cut the input at the same places.
-/

namespace ScanKit.Utf8

/-- Continuation bytes are `0x80` to `0xBF` and carry six bits each. -/
def isContinuation (b : UInt8) : Bool := 0x80 ≤ b && b ≤ 0xBF

def payload (b : UInt8) : Nat := b.toNat % 64

/-- What the first byte of an encoding announces: its own bits, the least and the greatest second
byte, and how many continuation bytes come after the second. -/
structure Lead where
  bits : Nat
  low : UInt8
  high : UInt8
  further : Nat
deriving DecidableEq, Repr

/-- The second byte is narrower after four first bytes: `0xE0` and `0xF0` would start an encoding
that is longer than needed, `0xED` a surrogate, `0xF4` a value above the last character. -/
def Lead.ofByte? (b : UInt8) : Option Lead :=
  if b < 0xC2 then none
  else if b ≤ 0xDF then some ⟨b.toNat - 0xC0, 0x80, 0xBF, 0⟩
  else if b = 0xE0 then some ⟨0, 0xA0, 0xBF, 1⟩
  else if b = 0xED then some ⟨0xD, 0x80, 0x9F, 1⟩
  else if b ≤ 0xEF then some ⟨b.toNat - 0xE0, 0x80, 0xBF, 1⟩
  else if b = 0xF0 then some ⟨0, 0x90, 0xBF, 2⟩
  else if b ≤ 0xF3 then some ⟨b.toNat - 0xF0, 0x80, 0xBF, 2⟩
  else if b = 0xF4 then some ⟨4, 0x80, 0x8F, 2⟩
  else none

inductive Piece where
  /-- The whole encoding of a character. -/
  | char (c : Char)
  /-- Bytes after which no encoding goes on with what follows. -/
  | malformed (width : Nat)
  /-- The start of an encoding, cut short by the end of the input. -/
  | unfinished (width : Nat)
deriving DecidableEq, Repr

/-- Reads the continuation bytes that are still due, `width` bytes into an encoding whose bits so
far are `value`. -/
def continued (value width : Nat) : Nat → List UInt8 → Piece × List UInt8
  | 0, s => (.char (Char.ofNat value), s)
  | _ + 1, [] => (.unfinished width, [])
  | due + 1, b :: s =>
      if isContinuation b then continued (value * 64 + payload b) (width + 1) due s
      else (.malformed width, b :: s)

/-- The piece that starts with the byte `a`, and what is left after it. -/
def piece (a : UInt8) (s : List UInt8) : Piece × List UInt8 :=
  if a < 0x80 then (.char (Char.ofNat a.toNat), s)
  else match Lead.ofByte? a with
    | none => (.malformed 1, s)
    | some lead => match s with
      | [] => (.unfinished 1, [])
      | b :: rest =>
          if lead.low ≤ b && b ≤ lead.high then
            continued (lead.bits * 64 + payload b) 2 lead.further rest
          else (.malformed 1, b :: rest)

theorem continued_length (value width due : Nat) (s : List UInt8) :
    (continued value width due s).2.length ≤ s.length := by
  induction due generalizing value width s with
  | zero => exact Nat.le_refl _
  | succ due ih =>
      cases s with
      | nil => exact Nat.le_refl _
      | cons b s =>
          rw [continued]
          split
          · exact Nat.le_succ_of_le (ih ..)
          · exact Nat.le_refl _

theorem piece_length (a : UInt8) (s : List UInt8) : (piece a s).2.length ≤ s.length := by
  unfold piece
  split
  · exact Nat.le_refl _
  · cases Lead.ofByte? a with
    | none => exact Nat.le_refl _
    | some lead =>
        cases s with
        | nil => exact Nat.le_refl _
        | cons b rest =>
            dsimp only
            split
            · exact Nat.le_succ_of_le (continued_length ..)
            · exact Nat.le_refl _

/-- All the pieces of a string of bytes, in order. -/
def pieces : List UInt8 → List Piece
  | [] => []
  | a :: s => (piece a s).1 :: pieces (piece a s).2
termination_by s => s.length
decreasing_by exact Nat.lt_succ_of_le (piece_length a s)

/-- The first fault of a string of bytes: how many bytes before it are well formed, and how many it
covers, none if the input ends inside an encoding. -/
structure Fault where
  validUpTo : Nat
  width? : Option Nat
deriving DecidableEq, Repr

namespace Fault

def message (f : Fault) : String := match f.width? with
  | some width =>
      "invalid utf-8 sequence of " ++ toString width ++ " bytes from index " ++ toString f.validUpTo
  | none => "incomplete utf-8 byte sequence from index " ++ toString f.validUpTo

end Fault

/-- The characters of pieces without a fault, or the first fault. The pieces stand `start` bytes
into the input. -/
def strict (start : Nat) : List Piece → Except Fault (List Char)
  | [] => .ok []
  | .char c :: ps => (strict (start + c.utf8Size) ps).map (c :: ·)
  | .malformed width :: _ => .error ⟨start, some width⟩
  | .unfinished _ :: _ => .error ⟨start, none⟩

/-- A fault reads as the replacement character. -/
def Piece.lenient : Piece → Char
  | .char c => c
  | .malformed _ | .unfinished _ => '\uFFFD'

/-- The characters that the bytes encode, or the first fault. -/
def decode (bs : List UInt8) : Except Fault (List Char) := strict 0 (pieces bs)

/-- The characters that the bytes encode, with one replacement character for each fault. -/
def decodeLossy (bs : List UInt8) : List Char := (pieces bs).map Piece.lenient

end ScanKit.Utf8
