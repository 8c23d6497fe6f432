import ScanKit.Text.Graphic

/-! # Texts in double quotes -/

namespace ScanKit.Quoted

/-- A character inside quotes. The quote, the backslash and four controls have escapes of their own.
Of the others a graphic one stands for itself, and one that is not is given by its scalar value to
base sixteen. -/
def quotedChar (c : Char) : List Char :=
  if c = '\t' then ['\\', 't']
  else if c = '\n' then ['\\', 'n']
  else if c = '\r' then ['\\', 'r']
  else if c.toNat = 0 then ['\\', '0']
  else if c.toNat = 0x22 || c.toNat = 0x5C then ['\\', c]
  else if Graphic.isGraphic c then [c]
  else ['\\', 'u', Char.ofNat 0x7B] ++ Nat.toDigits 16 c.toNat ++ [Char.ofNat 0x7D]

def quoted (s : String) : String := "\"" ++ String.ofList (s.toList.flatMap quotedChar) ++ "\""

end ScanKit.Quoted
