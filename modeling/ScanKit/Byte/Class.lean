/-! # Classes of bytes

The classes know ASCII only: a byte from `0x80` on is in none of them.
-/

namespace ScanKit.Byte

/-- Tab, line feed, vertical tab, form feed and carriage return are neighbours; the space stands
alone. -/
def isSpace (b : UInt8) : Bool := b == 0x20 || (0x09 ≤ b && b ≤ 0x0D)

def isDigit (b : UInt8) : Bool := 0x30 ≤ b && b ≤ 0x39

def isAlpha (b : UInt8) : Bool := (0x41 ≤ b && b ≤ 0x5A) || (0x61 ≤ b && b ≤ 0x7A)

def isAlphanumeric (b : UInt8) : Bool := isAlpha b || isDigit b

/-- The bytes of a text in ASCII, one for each character. -/
def ofAscii (cs : List Char) : List UInt8 := cs.map Char.toUInt8

/-- The bytes of a text in UTF-8. -/
def ofText (s : String) : List UInt8 := s.toUTF8.data.toList

@[simp] theorem ofAscii_nil : ofAscii [] = [] := rfl

@[simp] theorem ofAscii_cons (c : Char) (cs : List Char) :
    ofAscii (c :: cs) = c.toUInt8 :: ofAscii cs := rfl

@[simp] theorem ofAscii_append (cs ds : List Char) :
    ofAscii (cs ++ ds) = ofAscii cs ++ ofAscii ds := List.map_append

end ScanKit.Byte
