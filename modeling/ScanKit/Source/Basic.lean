import ScanKit.Source.Error

/-! # Sources of bytes

A source is read at any distance ahead of its position, and its position only moves forward.
-/

universe u

namespace ScanKit

class Source (σ : Type u) where
  /-- The byte at a distance ahead of the position. -/
  look : Nat → σ → Except SourceError UInt8 × σ
  /-- Moves the position forward by up to so many bytes and returns how many it passed. -/
  skip : Nat → σ → Except SourceError Nat × σ
  pos : σ → Nat
  /-- It is known that no byte is left. -/
  atEnd : σ → Bool
  /-- A bound on the bytes from the position on. -/
  ahead : σ → Nat

end ScanKit
