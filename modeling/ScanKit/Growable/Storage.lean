import ScanKit.Growable.Basic

/-! # Storage and description of growable arrays -/

universe u

namespace ScanKit

/-- How many bytes an element takes where elements lie side by side. -/
class Stride (α : Type u) where
  stride : Nat

instance : Stride Unit := ⟨0⟩
instance : Stride UInt8 := ⟨1⟩
instance : Stride UInt16 := ⟨2⟩
instance : Stride UInt32 := ⟨4⟩
instance : Stride UInt64 := ⟨8⟩
instance : Stride Int64 := ⟨8⟩

/-- A text is stored elsewhere; in its place stand an address, a length and a capacity. -/
instance : Stride String := ⟨24⟩

instance {α : Type u} {n : Nat} [Stride α] : Stride (Vector α n) := ⟨n * Stride.stride α⟩

namespace Growable

variable {α : Type u} [Stride α]

def stride (_ : Growable α) : Nat := Stride.stride α

/-- The bytes that the whole capacity takes. -/
def memory (a : Growable α) : Nat := a.capacity * a.stride

def outline [Outlined α] (a : Growable α) : Outline :=
  .record "GrowArray"
    [.named "len" (.number a.size), .named "max_len" (.number a.capacity),
      .named "stride" (.number a.stride), .named "allow_resize" (.flag a.mayGrow),
      .named "data" (.sequence (a.toList.map Outlined.outline))]

end Growable

end ScanKit
