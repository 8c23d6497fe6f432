import ScanKit.Source.Basic

/-! # Sources over bytes in memory -/

namespace ScanKit

/-- A source over bytes in memory. -/
structure MemorySource where
  bytes : Array UInt8
  pos : Nat
deriving DecidableEq, Repr

namespace MemorySource

def ofBytes (bs : List UInt8) : MemorySource := ⟨bs.toArray, 0⟩

/-- The bytes from the position on. -/
def rest (m : MemorySource) : List UInt8 := m.bytes.toList.drop m.pos

/-- How many bytes are left. -/
def left (m : MemorySource) : Nat := m.bytes.size - m.pos

def look (offset : Nat) (m : MemorySource) : Except SourceError UInt8 :=
  match m.bytes[m.pos + offset]? with
  | some b => .ok b
  | none => .error (.endOfInput offset)

def skip (n : Nat) (m : MemorySource) : Nat × MemorySource :=
  let passed := min n m.left
  (passed, { m with pos := m.pos + passed })

instance : Source MemorySource where
  look offset m := (m.look offset, m)
  skip n m := (.ok (m.skip n).1, (m.skip n).2)
  pos := pos
  atEnd m := m.left == 0
  ahead := left

@[simp] theorem length_rest (m : MemorySource) : m.rest.length = m.left := by
  simp [rest, left]

theorem look_eq (offset : Nat) (m : MemorySource) :
    m.look offset = match m.rest[offset]? with
      | some b => .ok b
      | none => .error (.endOfInput offset) := by
  simp [look, rest]

@[simp] theorem rest_skip (n : Nat) (m : MemorySource) : (m.skip n).2.rest = m.rest.drop n := by
  rw [skip, rest, rest, List.drop_drop]
  exact List.drop_eq_drop_iff.2 (by simp only [Array.length_toList, left]; omega)

end MemorySource

end ScanKit
