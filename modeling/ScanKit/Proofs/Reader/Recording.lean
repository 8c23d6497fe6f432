import ScanKit.Proofs.Reader.Interruptions

/-!
# Readers under observation

`Recording ρ` is a reader that behaves like the reader it wraps and keeps all bytes that this one
has handed out.  A statement about every reader that speaks of the bytes delivered so far is stated
over recordings: the record is the reader's own history and not a choice of the statement.
-/

universe u

namespace ScanKit

/-- The bytes that a reply carries. -/
def Reply.carried : Reply → List UInt8
  | .bytes bs => bs
  | .failure _ => []

namespace Reader

/-- A reader with everything that it has handed out. -/
structure Recording (ρ : Type u) where
  inner : ρ
  delivered : List UInt8

namespace Recording

variable {ρ : Type u}

/-- The record starts empty. -/
def start (reader : ρ) : Recording ρ := ⟨reader, []⟩

variable [Reader ρ]

instance : Reader (Recording ρ) where
  read r room :=
    ((read r.inner room).1, ⟨(read r.inner room).2, r.delivered ++ (read r.inner room).1.carried⟩)
  left r := left r.inner
  interruptions r := interruptions r.inner

theorem read_inner {r r' : Recording ρ} {room : Nat} {reply : Reply}
    (hread : read r room = (reply, r')) : read r.inner room = (reply, r'.inner) := by
  obtain ⟨rfl, rfl⟩ := Prod.mk.inj hread
  rfl

instance [Lawful ρ] : Lawful (Recording ρ) where
  interruptions_lt {r r' _ _} hread hf := by
    show interruptions r'.inner < interruptions r.inner
    exact Lawful.interruptions_lt (read_inner hread) hf

variable [Lawful ρ]

/-- A call under observation is answered as it would be without. -/
theorem fetch_inner (r : Recording ρ) (room : Nat) :
    (fetch r room).1 = (fetch r.inner room).1 ∧
      (fetch r room).2.inner = (fetch r.inner room).2 := by
  refine fetch_induction
    (P := fun r result => result.1 = (fetch r.inner room).1 ∧
      result.2.inner = (fetch r.inner room).2) ?_ ?_ r
  · rintro r _ rfl hlast
    have hinner : fetch r.inner room = read r.inner room := by
      rcases hbare : read r.inner room with ⟨bs | f, inner⟩
      · exact fetch_of_bytes hbare
      · exact fetch_of_failure hbare (hlast f (congrArg Prod.fst hbare))
    rw [hinner]
    exact ⟨rfl, rfl⟩
  · intro r r' f result hread hf hresult
    rw [fetch_of_interruption (read_inner hread) hf]
    exact hresult

/-- Calls that are interrupted bring nothing, so what a call that gets past them brings is what its
reply carries. -/
theorem delivered_fetch (r : Recording ρ) (room : Nat) :
    (fetch r room).2.delivered = r.delivered ++ (fetch r room).1.carried := by
  refine fetch_induction
    (P := fun r result => result.2.delivered = r.delivered ++ result.1.carried) ?_ ?_ r
  · rintro r _ rfl -
    rfl
  · intro r r' f result hread hf hresult
    obtain ⟨hreply, rfl⟩ := Prod.mk.inj hread
    rw [hresult, hreply, Reply.carried, List.append_nil]

end Recording

end Reader

end ScanKit
