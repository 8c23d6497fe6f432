/-! # Bytes written in printable ASCII -/

namespace ScanKit.Byte

/-- The written form of one byte: a backslash and a letter for tab, carriage return and line feed, a
backslash before a quote or a backslash, a printable byte as it is, and two digits to base sixteen
for all else. -/
def escaped (b : UInt8) : List Char :=
  if b = 0x09 then ['\\', 't']
  else if b = 0x0A then ['\\', 'n']
  else if b = 0x0D then ['\\', 'r']
  else if b = 0x22 || b = 0x27 || b = 0x5C then ['\\', Char.ofNat b.toNat]
  else if 0x20 ≤ b && b ≤ 0x7E then [Char.ofNat b.toNat]
  else ['\\', 'x', Nat.digitChar (b.toNat / 16), Nat.digitChar (b.toNat % 16)]

/-- The written form of a string of bytes: that of each byte in turn. -/
def escapedAll (bs : List UInt8) : List Char := bs.flatMap escaped

@[simp] theorem escapedAll_nil : escapedAll [] = [] := rfl

@[simp] theorem escapedAll_cons (b : UInt8) (bs : List UInt8) :
    escapedAll (b :: bs) = escaped b ++ escapedAll bs := rfl

end ScanKit.Byte
