import ScanKit.Byte.Escaped
import ScanKit.Growable.Basic
import ScanKit.Text.Utf8

/-! # Byte strings

A byte string either borrows its bytes or owns them. Equality, order and hashing look at the bytes
alone. Where the bytes are kept is left out.
-/

namespace ScanKit

structure ByteString where
  bytes : List UInt8
  owned : Bool

namespace ByteString

def borrowed (bytes : List UInt8) : ByteString := ⟨bytes, false⟩

def own (bytes : List UInt8) : ByteString := ⟨bytes, true⟩

def ofGrowable (a : Growable UInt8) : ByteString := borrowed a.toList

instance : Inhabited ByteString := ⟨borrowed []⟩

/-- The same bytes, owned. -/
def toOwned (s : ByteString) : ByteString := own s.bytes

def length (s : ByteString) : Nat := s.bytes.length

def isEmpty (s : ByteString) : Bool := s.bytes.isEmpty

instance : BEq ByteString := ⟨fun a b => a.bytes == b.bytes⟩

/-- Byte by byte; a string comes after those it starts with. -/
instance : Ord ByteString := ⟨fun a b => compare a.bytes b.bytes⟩

/-- The order of two byte strings, as one that might not be there. -/
def partialCompare (a b : ByteString) : Option Ordering := some (compare a b)

instance : LT ByteString := ⟨fun a b => (a.partialCompare b).any Ordering.isLT = true⟩

instance : LE ByteString := ⟨fun a b => (a.partialCompare b).any Ordering.isLE = true⟩

instance : DecidableLT ByteString := fun _ _ => inferInstanceAs (Decidable (_ = true))

instance : DecidableLE ByteString := fun _ _ => inferInstanceAs (Decidable (_ = true))

instance : Hashable ByteString := ⟨fun s => hash s.bytes⟩

def startsWith (s : ByteString) (start : List UInt8) : Bool := start.isPrefixOf s.bytes

/-- Bounds that are the wrong way round after both were moved back to the end. -/
structure Inverted where
  start : Nat
  stop : Nat
deriving DecidableEq, Repr

def Inverted.message (e : Inverted) : String :=
  "slice start " ++ toString e.start ++ " is past end " ++ toString e.stop

/-- The bytes from `start` up to `stop`, borrowed. A bound past the end counts as the end. -/
def slice (s : ByteString) (start stop : Nat) : Except Inverted ByteString :=
  let start := min start s.length
  let stop := min stop s.length
  if start ≤ stop then .ok (borrowed (s.bytes.extract start stop)) else .error ⟨start, stop⟩

/-- The bytes from `start` up to `stop` as with `slice`, unless these are the wrong way round. -/
def slice? (s : ByteString) (start stop : Nat) : Option ByteString :=
  let start := min start s.length
  let stop := min stop s.length
  if start ≤ stop then some (borrowed (s.bytes.extract start stop)) else none

/-- The text that the bytes encode. -/
def toText (s : ByteString) : Except Utf8.Fault String := (Utf8.decode s.bytes).map String.ofList

/-- The text that the bytes encode, with a replacement character for each fault. -/
def display (s : ByteString) : String := String.ofList (Utf8.decodeLossy s.bytes)

/-- A description in printable ASCII. -/
def debug (s : ByteString) : String := "b\"" ++ String.ofList (Byte.escapedAll s.bytes) ++ "\""

/-- The positions of byte strings in ascending order of the strings; equal strings keep their
order. -/
def ranking (table : List ByteString) : List Nat :=
  (table.zipIdx.mergeSort fun a b => (compare a.1 b.1).isLE).map (·.2)

@[simp] theorem length_toOwned (s : ByteString) : s.toOwned.length = s.length := rfl

@[simp] theorem bytes_toOwned (s : ByteString) : s.toOwned.bytes = s.bytes := rfl

@[simp] theorem bytes_ofGrowable (a : Growable UInt8) : (ofGrowable a).bytes = a.toList := rfl

end ByteString

end ScanKit
