import ScanKit.ConfigError

/-! # Settings of growable arrays -/

namespace ScanKit.Growable

/-- How an array starts. -/
structure Config where
  capacity : Nat
  mayGrow : Bool
deriving DecidableEq, Repr

namespace Config

def ofCapacity (capacity : Nat) : Config := ⟨capacity, true⟩

/-- The same start for an array that may not grow. -/
def fixed (c : Config) : Config := { c with mayGrow := false }

def standard : Config := ofCapacity 64

instance : Inhabited Config := ⟨standard⟩

/-- An array that starts without room could not double its way to any. -/
def validate (c : Config) : Except ConfigError Unit :=
  if c.capacity = 0 then .error (.zeroCapacity "array initial_capacity") else .ok ()

def outline (c : Config) : Outline :=
  .record "ArrayConfig"
    [.named "initial_capacity" (.number c.capacity), .named "allow_resize" (.flag c.mayGrow)]

theorem validate_eq_ok_iff (c : Config) : c.validate = .ok () ↔ c.capacity ≠ 0 := by
  unfold validate
  split <;> simp_all

end Config

end ScanKit.Growable
