import ScanKit.Proofs.Reader.Recording

/-!
# Readers with a log

`Logged ρ` is a reader that behaves like the reader it wraps and keeps every reply that this one has
given, interruptions included.  What its log does not show was not asked for, and an end that was
reported stands in it.
-/

universe u

namespace ScanKit.Reader

/-! ## Readers that stay within the room they are given -/

/-- A reader that hands out no more bytes than there is room for. -/
class Modest (ρ : Type u) [Reader ρ] : Prop where
  length_read_le : ∀ (r : ρ) (room : Nat), (read r room).1.carried.length ≤ room

section Modest

variable {ρ : Type u} [Reader ρ] [Modest ρ]

theorem length_fetch_le [Lawful ρ] (r : ρ) (room : Nat) :
    (fetch r room).1.carried.length ≤ room := by
  refine fetch_induction (P := fun _ result => result.1.carried.length ≤ room) ?_ ?_ r
  · rintro r _ rfl -
    exact Modest.length_read_le r room
  · exact fun _ _ _ _ _ _ hresult => hresult

end Modest

instance : Modest PlainReader where
  length_read_le r room := by
    show (r.data.take room).length ≤ room
    exact List.length_take_le ..

instance : Modest PacedReader where
  length_read_le r room := by
    cases hnext : r.interruptNext with
    | true => simp [read, PacedReader.read, hnext, Reply.carried]
    | false =>
        have hle := Nat.min_le_right r.chunk room
        simp only [read, PacedReader.read, hnext, Reply.carried]
        exact Nat.le_trans (List.length_take_le ..) hle

instance : Modest FaultyReader where
  length_read_le r room := by
    simp only [read, FaultyReader.read]
    split
    · exact Nat.zero_le room
    · exact List.length_take_le ..

instance : Modest BrokenReader where
  length_read_le r room := Modest.length_read_le r.toFaultyReader room

instance : Modest ScriptedReader where
  length_read_le r room := by
    obtain ⟨_ | ⟨b, bs⟩, _ | ⟨_ | _, events⟩, calls⟩ := r
    all_goals first
      | exact List.length_take_le ..
      | exact Nat.zero_le room

/-! ## Logs -/

/-- A reader with everything that it has replied. -/
structure Logged (ρ : Type u) where
  inner : ρ
  replies : List Reply

namespace Logged

variable {ρ : Type u}

/-- The log starts empty. -/
def start (reader : ρ) : Logged ρ := ⟨reader, []⟩

variable [Reader ρ]

instance : Reader (Logged ρ) where
  read r room :=
    ((read r.inner room).1, ⟨(read r.inner room).2, r.replies ++ [(read r.inner room).1]⟩)
  left r := left r.inner
  interruptions r := interruptions r.inner

instance [Modest ρ] : Modest (Logged ρ) where
  length_read_le r room := Modest.length_read_le r.inner room

theorem read_inner {r r' : Logged ρ} {room : Nat} {reply : Reply}
    (hread : read r room = (reply, r')) : read r.inner room = (reply, r'.inner) := by
  obtain ⟨rfl, rfl⟩ := Prod.mk.inj hread
  rfl

instance [Lawful ρ] : Lawful (Logged ρ) where
  interruptions_lt {r r' _ _} hread hf := by
    show interruptions r'.inner < interruptions r.inner
    exact Lawful.interruptions_lt (read_inner hread) hf

theorem replies_read (r : Logged ρ) (room : Nat) :
    (read r room).2.replies = r.replies ++ [(read r room).1] := rfl

/-- A call that gets past interruptions reports the end only as its last reply. -/
theorem mem_replies_fetch [Lawful ρ] (r : Logged ρ) (room : Nat) :
    .bytes [] ∈ (fetch r room).2.replies ↔
      .bytes [] ∈ r.replies ∨ (fetch r room).1 = .bytes [] := by
  have hread : ∀ r : Logged ρ, .bytes [] ∈ (read r room).2.replies ↔
      .bytes [] ∈ r.replies ∨ (read r room).1 = .bytes [] := by
    intro r
    rw [replies_read, List.mem_append, List.mem_singleton, eq_comm]
  refine fetch_induction
    (P := fun r result => .bytes [] ∈ result.2.replies ↔
      .bytes [] ∈ r.replies ∨ result.1 = .bytes []) ?_ ?_ r
  · rintro r _ rfl -
    exact hread r
  · intro r r' f result hreply hf hresult
    have hmore := hread r
    rw [hreply] at hmore
    refine hresult.trans (or_congr_left (hmore.trans ?_))
    simp

end Logged

end ScanKit.Reader
