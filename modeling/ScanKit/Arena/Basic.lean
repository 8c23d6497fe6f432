import ScanKit.Text.Outline

/-! # Nodes in an arena

Nodes live in numbered slots. A slot counts how often it was emptied, and a reference names a slot
together with that count, so it stops resolving once its node is gone and never starts again.
Emptied slots are filled before new ones are made, the last emptied first.

Slots and generations are natural numbers. There is no bound on the slots, so there is room for every
node; a generation stays within its bound, because a slot that comes to it is retired.
-/

universe u

namespace ScanKit

structure NodeRef where
  slot : Nat
  generation : Nat
deriving DecidableEq, Repr

namespace NodeRef

/-- By slot, then by generation. -/
instance : Ord NodeRef :=
  ⟨fun r s => (compare r.slot s.slot).then (compare r.generation s.generation)⟩

def display (r : NodeRef) : String :=
  "NodeId(slot=" ++ toString r.slot ++ ", gen=" ++ toString r.generation ++ ")"

def outline (r : NodeRef) : Outline :=
  .record "NodeId"
    [.named "index" (.number r.slot), .named "generation" (.number r.generation)]

end NodeRef

/-- A reference that does not resolve. -/
structure StaleRef where
  ref : NodeRef
deriving DecidableEq, Repr

namespace StaleRef

def message (e : StaleRef) : String :=
  "stale node id: slot " ++ toString e.ref.slot ++ ", generation " ++ toString e.ref.generation

def outline (e : StaleRef) : Outline :=
  .record "StaleNode"
    [.named "index" (.number e.ref.slot), .named "generation" (.number e.ref.generation)]

end StaleRef

/-- A value and the link to the node after it. -/
structure Node (α : Type u) where
  value : α
  next? : Option NodeRef

structure Slot (α : Type u) where
  generation : Nat
  node? : Option (Node α)

namespace Slot

variable {α : Type u}

/-- The slot with a node without a link in it. -/
def filled (s : Slot α) (value : α) : Slot α := { s with node? := some ⟨value, none⟩ }

/-- The slot without its node, under the next generation. -/
def vacated (s : Slot α) : Slot α := ⟨s.generation + 1, none⟩

end Slot

structure Arena (α : Type u) where
  slots : Array (Slot α)
  /-- The empty slots that can be filled again, the next one first. -/
  vacant : List Nat
  /-- The number of nodes. -/
  live : Nat

variable {α : Type u}

/-- A slot that was emptied this often stays empty. -/
def retiredGeneration : Nat := UInt32.size - 1

namespace Arena

def empty : Arena α := ⟨#[], [], 0⟩

instance : Inhabited (Arena α) := ⟨empty⟩

def isEmpty (a : Arena α) : Bool := a.live == 0

/-- The node that a reference resolves to. -/
def node? (a : Arena α) (r : NodeRef) : Option (Node α) :=
  a.slots[r.slot]?.bind fun s => if s.generation = r.generation then s.node? else none

def node (a : Arena α) (r : NodeRef) : Except StaleRef (Node α) := match a.node? r with
  | some n => .ok n
  | none => .error ⟨r⟩

def contains (a : Arena α) (r : NodeRef) : Bool := (a.node? r).isSome

def get (a : Arena α) (r : NodeRef) : Except StaleRef α := (a.node r).map (·.value)

/-- The link that a node stores, whether or not it resolves. -/
def next (a : Arena α) (r : NodeRef) : Except StaleRef (Option NodeRef) :=
  (a.node r).map (·.next?)

/-- Makes a node without a link. -/
def alloc (a : Arena α) (value : α) : NodeRef × Arena α :=
  match a with
  | ⟨slots, i :: vacant, live⟩ =>
      (⟨i, (slots[i]?.map (·.generation)).getD 0⟩,
        ⟨slots.modify i (·.filled value), vacant, live + 1⟩)
  | ⟨slots, [], live⟩ =>
      (⟨slots.size, 0⟩, ⟨slots.push (Slot.filled ⟨0, none⟩ value), [], live + 1⟩)

/-- Changes the node that a reference resolves to, if it does. -/
def modify (a : Arena α) (r : NodeRef) (f : Node α → Node α) : Arena α :=
  if a.contains r then
    { a with slots := a.slots.modify r.slot fun s => { s with node? := s.node?.map f } }
  else a

def set (a : Arena α) (r : NodeRef) (value : α) : Except StaleRef (Arena α) :=
  (a.node r).map fun _ => a.modify r fun n => { n with value }

/-- Empties the slot of a reference and makes it ready to be filled again. -/
def discard (a : Arena α) (r : NodeRef) : Arena α :=
  { slots := a.slots.modify r.slot Slot.vacated
    vacant := if r.generation + 1 = retiredGeneration then a.vacant else r.slot :: a.vacant
    live := a.live - 1 }

/-- Removes a node and returns it. -/
def free (a : Arena α) (r : NodeRef) : Except StaleRef (Node α × Arena α) :=
  (a.node r).map fun n => (n, a.discard r)

/-- Removes every node. The slots are filled again from the last to the first. -/
def clear (a : Arena α) : Arena α :=
  let slots := a.slots.map fun s => if s.node?.isSome then s.vacated else s
  { slots
    vacant := (slots.toList.zipIdx.filterMap fun (s, i) =>
      if s.generation = retiredGeneration then none else some i).reverse
    live := 0 }

@[simp] theorem node?_empty (r : NodeRef) : (empty : Arena α).node? r = none := by
  simp [node?, empty]

theorem node?_modify (a : Arena α) (r s : NodeRef) (f : Node α → Node α) :
    (a.modify r f).node? s = if s = r then (a.node? r).map f else a.node? s := by
  unfold modify contains
  cases hr : a.node? r with
  | none => by_cases h : s = r <;> simp [h, hr]
  | some n =>
      simp only [node?, Option.isSome_some, if_true, Array.getElem?_modify]
      by_cases hs : r.slot = s.slot
      · have hg : s = r ↔ s.generation = r.generation := by
          cases r
          cases s
          simp_all
        cases hslot : a.slots[s.slot]? with
        | none => simp [node?, hs, hslot] at hr
        | some slot => grind [node?]
      · have h : s ≠ r := fun e => hs (e ▸ rfl)
        simp [hs, h]

theorem node?_discard (a : Arena α) (r s : NodeRef) :
    (a.discard r).node? s = if s.slot = r.slot then none else a.node? s := by
  unfold discard node?
  rw [Array.getElem?_modify]
  by_cases h : s.slot = r.slot
  · cases hs : a.slots[s.slot]? <;> simp [h, Slot.vacated]
  · simp [h, Ne.symm h]

@[simp] theorem node?_clear (a : Arena α) (r : NodeRef) : a.clear.node? r = none := by
  unfold clear node?
  cases hs : a.slots[r.slot]? with
  | none => simp [hs]
  | some s =>
      cases hn : s.node? <;> simp [hs, hn, Slot.vacated]

@[simp] theorem live_clear (a : Arena α) : a.clear.live = 0 := rfl

@[simp] theorem live_modify (a : Arena α) (r : NodeRef) (f : Node α → Node α) :
    (a.modify r f).live = a.live := by
  rw [modify]
  split <;> rfl

@[simp] theorem live_discard (a : Arena α) (r : NodeRef) : (a.discard r).live = a.live - 1 := rfl

@[simp] theorem live_alloc (a : Arena α) (value : α) : (a.alloc value).2.live = a.live + 1 := by
  unfold alloc
  split <;> rfl

end Arena

end ScanKit
