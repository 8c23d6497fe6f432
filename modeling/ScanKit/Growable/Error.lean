import ScanKit.Text.Outline

/-! # What a growable array can refuse -/

namespace ScanKit

namespace Growable

inductive Error where
  /-- There is no element at this index. -/
  | outOfBounds (index length : Nat)
  /-- There is no room for that many elements, and the array may not grow. -/
  | growthRefused (needed capacity : Nat)
deriving DecidableEq, Repr

namespace Error

def message : Error → String
  | outOfBounds index length => s!"index {index} out of bounds for length {length}"
  | growthRefused needed capacity =>
      s!"resize not allowed: need room for {needed} elements, capacity {capacity}"

def outline : Error → Outline
  | outOfBounds index length =>
      .record "OutOfBounds" [.named "index" (.number index), .named "len" (.number length)]
  | growthRefused needed capacity =>
      .record "ResizeNotAllowed"
        [.named "len" (.number needed), .named "capacity" (.number capacity)]

end Error

end Growable

end ScanKit
