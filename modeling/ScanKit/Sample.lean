import ScanKit.Byte.Class

/-! # Generated inputs -/

namespace ScanKit.Sample

/-- A number in decimal digits. -/
def decimal (n : Nat) : List UInt8 := Byte.ofAscii (Nat.toDigits 10 n)

/-- A number in at least six digits. -/
def paddedDecimal (n : Nat) : List UInt8 :=
  List.replicate (6 - (decimal n).length) 0x30 ++ decimal n

/-- A letter, which goes round the alphabet, and the number of the term. -/
def label (i : Nat) : List UInt8 := UInt8.ofNat (0x61 + i % 26) :: decimal i

def term (i : Nat) : List UInt8 :=
  Byte.ofAscii ['(', ' ', ' '] ++ label i ++ Byte.ofAscii [' ', ' ', ')']

/-- So many terms with bars between them. -/
def expression (terms : Nat) : List UInt8 :=
  List.intercalate (Byte.ofAscii [' ', '|', ' ']) ((List.range terms).map term)

/-- A line of a log; every sixteenth ends in the needle. -/
def logLine (needle : List UInt8) (i : Nat) : List UInt8 :=
  paddedDecimal i ++ Byte.ofText " worker=" ++ decimal (i % 7) ++ Byte.ofText " status=ok" ++
    (if i % 16 = 0 then 0x20 :: needle else []) ++ [0x0A]

def log (lines : Nat) (needle : List UInt8) : List UInt8 :=
  (List.range lines).flatMap (logLine needle)

end ScanKit.Sample
