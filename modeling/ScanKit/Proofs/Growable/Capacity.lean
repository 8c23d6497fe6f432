import ScanKit.Proofs.Growable.Growth
import ScanKit.Proofs.Growable.Listed

/-!
# The capacity of an array after a run

Each operation leaves the capacity that its start grows to for the room it was granted
(`BoundedList.capacity_act`).  Since room made step by step is the room made at once, the capacity
after a run depends on the largest room alone that was granted in it.
-/

universe u

namespace ScanKit.Growable

variable {α : Type u}

/-! ## Room that was granted -/

/-- How many elements an operation needs room for at a length. -/
def Op.needed (length : Nat) : Op α → Nat
  | push _ => length + 1
  | extend xs => length + xs.length
  | reserve needed => needed
  | pop | remove _ | replace _ _ | get _ | set _ _ | dropFront _ | clear | withGrowth _ | copy => 0

/-- How many elements an operation was granted room for: none if it was refused. -/
def Op.granted (length : Nat) (op : Op α) : Answer α → Nat
  | .refused _ => 0
  | .done | .item _ | .dropped _ => op.needed length

/-- The largest number of elements that room was granted for in a run. -/
def mostGranted : List (Op α) → Growable α → Nat
  | [], _ => 0
  | op :: ops, a => max (op.granted a.size (act op a).1) (mostGranted ops (act op a).2)

theorem Op.granted_le_needed (length : Nat) (op : Op α) (answer : Answer α) :
    op.granted length answer ≤ op.needed length := by
  cases answer with
  | refused e => exact Nat.zero_le _
  | done | item x | dropped n => exact Nat.le_refl _

/-! ## One operation -/

namespace BoundedList

/-- A list has room for at least one element and for those it holds. -/
structure Roomy (l : BoundedList α) : Prop where
  capacity_pos : 0 < l.capacity
  length_le : l.items.length ≤ l.capacity

theorem capacity_takeAt (l : BoundedList α) (i : Nat) (form : α → Answer α) (items : List α) :
    (l.takeAt i form items).2.capacity = l.capacity := by
  unfold takeAt
  split <;> rfl

/-- The capacity after an operation is what it grows to for the room that was granted. -/
theorem capacity_act (op : Op α) (l : BoundedList α) :
    (act op l).2.capacity = grown (op.granted l.items.length (act op l).1) l.capacity := by
  have hsame : ∀ {n}, n ≤ 0 → l.capacity = grown n l.capacity := by
    intro n hn
    exact (grown_of_le (hn.trans (Nat.zero_le _))).symm
  cases op with
  | push x | extend xs | reserve needed =>
      simp only [act, fit]
      split
      · exact hsame (Nat.le_refl 0)
      · rfl
  | pop | remove i | replace i x | get i | set i x =>
      exact (capacity_takeAt ..).trans (hsame (Op.granted_le_needed ..))
  | dropFront n | clear | withGrowth mayGrow | copy => exact hsame (Nat.le_refl 0)

theorem roomy_fit {l : BoundedList α} (h : l.Roomy) {needed : Nat} {items : List α}
    (hitems : items.length ≤ max needed l.capacity) : (l.fit needed items).2.Roomy := by
  unfold fit
  split
  · exact h
  · have hle : max needed l.capacity ≤ grown needed l.capacity :=
      Nat.max_le.2 ⟨needed_le_grown h.capacity_pos needed, le_grown needed l.capacity⟩
    exact ⟨h.capacity_pos.trans_le (le_grown ..), hitems.trans hle⟩

theorem roomy_takeAt {l : BoundedList α} (h : l.Roomy) {i : Nat} {form : α → Answer α}
    {items : List α} (hitems : items.length ≤ l.items.length) :
    (l.takeAt i form items).2.Roomy := by
  unfold takeAt
  split
  · exact ⟨h.capacity_pos, hitems.trans h.length_le⟩
  · exact h

/-- No operation makes a list hold more elements than it has room for. -/
theorem Roomy.act {l : BoundedList α} (h : l.Roomy) (op : Op α) : (act op l).2.Roomy := by
  cases op with
  | push x => exact roomy_fit h (by simp)
  | extend xs => exact roomy_fit h (by simp)
  | reserve needed => exact roomy_fit h (h.length_le.trans (Nat.le_max_right ..))
  | pop => exact roomy_takeAt h (by simp)
  | remove i => exact roomy_takeAt h (List.length_eraseIdx_le ..)
  | replace i x | set i x => exact roomy_takeAt h (by simp)
  | get i => exact roomy_takeAt h (Nat.le_refl _)
  | dropFront n =>
      have hle : (l.items.drop n).length ≤ l.items.length := by simp
      exact ⟨h.capacity_pos, hle.trans h.length_le⟩
  | clear => exact ⟨h.capacity_pos, Nat.zero_le _⟩
  | withGrowth mayGrow | copy => exact ⟨h.capacity_pos, h.length_le⟩

end BoundedList

/-! ## Runs -/

theorem capacity_act (op : Op α) (a : Growable α) :
    (act op a).2.capacity = grown (op.granted a.size (act op a).1) a.capacity := by
  have hact := BoundedList.capacity_act op a.listed
  rw [act_listed] at hact
  exact hact

theorem capacity_le_capacity_act (op : Op α) (a : Growable α) :
    a.capacity ≤ (act op a).2.capacity := by
  rw [capacity_act]
  exact le_grown ..

/-- The capacity after a run is what it grows to for the largest room that was granted. -/
theorem capacity_run (ops : List (Op α)) (a : Growable α) :
    (stateAfter act ops a).capacity = grown (mostGranted ops a) a.capacity := by
  induction ops generalizing a with
  | nil => exact (grown_of_le (Nat.zero_le _)).symm
  | cons op ops ih => rw [stateAfter, ih, capacity_act, grown_grown, mostGranted]

theorem roomy_run {a : Growable α} (h : a.listed.Roomy) (ops : List (Op α)) :
    (stateAfter act ops a).listed.Roomy := by
  induction ops generalizing a with
  | nil => exact h
  | cons op ops ih =>
      have hstep := h.act op
      rw [act_listed] at hstep
      exact ih hstep

theorem Start.roomy_build {start : Start α} {a : Growable α} (h : start.build = .ok a) :
    a.listed.Roomy := by
  rw [listed_build h]
  cases start with
  | empty => exact ⟨Nat.zero_lt_succ _, Nat.zero_le _⟩
  | ofCapacity capacity => exact ⟨Nat.le_max_right .., Nat.zero_le _⟩
  | ofConfig c =>
      refine ⟨Nat.pos_of_ne_zero (c.validate_eq_ok_iff.1 ?_), Nat.zero_le _⟩
      simp only [build, Growable.ofConfig] at h
      cases hvalid : c.validate with
      | error e =>
          rw [hvalid] at h
          cases h
      | ok valid => rfl
  | ofList xs => exact ⟨lt_max_of_lt_right (by decide), Nat.le_max_left ..⟩

/-- However an array was made and whatever was done with it, its capacity is what its first one
grows to for the largest room that was granted, in whichever steps it was.  The first capacity is
positive, no operation lowers a capacity, and there is room for the elements.  The loop that looks
for a capacity ends from every one that is reached, within 65 turns, and nothing is wrapped around
in it; and a capacity stays within machine words if the first one and what was granted do. -/
theorem capacity_eq_grown_mostGranted (start : Start α) {a : Growable α}
    (hbuild : start.build = .ok a) (ops : List (Op α)) :
    0 < a.capacity ∧
      GrowsTo a.capacity (mostGranted ops a) (stateAfter act ops a).capacity ∧
      (stateAfter act ops a).size ≤ (stateAfter act ops a).capacity ∧
      (∀ op, (stateAfter act ops a).capacity ≤ (act op (stateAfter act ops a)).2.capacity) ∧
      (∀ capacity needed : UInt64, capacity.toNat = (stateAfter act ops a).capacity →
        ∃ reached, EndsWithin (growTurn needed) 65 capacity reached ∧
          reached.toNat = grown needed.toNat (stateAfter act ops a).capacity) ∧
      (a.capacity < sizeBound → mostGranted ops a < sizeBound →
        (stateAfter act ops a).capacity < sizeBound) := by
  have hfirst := Start.roomy_build hbuild
  have hroomy := roomy_run hfirst ops
  have hcapacity := capacity_run ops a
  refine ⟨hfirst.capacity_pos, ?_, hroomy.length_le, ?_, ?_, ?_⟩
  · rw [hcapacity]
    exact growsTo_grown hfirst.capacity_pos _
  · intro op
    exact capacity_le_capacity_act op _
  · intro capacity needed hword
    have hpos : 0 < capacity.toNat := hword ▸ hroomy.capacity_pos
    rw [← hword]
    exact growTurn_endsWithin needed (Nat.le_mul_of_pos_left (2 ^ 64) hpos)
  · intro hstart hgranted
    rw [hcapacity]
    exact grown_lt hstart hgranted

/-- A start with room for three eighths of the largest number of elements. -/
def threeEighths : Start Unit := .ofCapacity (3 * 2 ^ 61)

/-- Operations that double the capacity and then want more than one doubling could give. -/
def pastDoubling : List (Op Unit) :=
  [.push (), .reserve (3 * 2 ^ 62), .withGrowth false, .reserve (3 * 2 ^ 62 + 1), .withGrowth true,
    .reserve (3 * 2 ^ 62 + 1), .reserve 7]

/-- The capacity is what one step from the first to the largest room grows to. -/
theorem capacity_eq_grown_mostGranted_pastDoubling :
    threeEighths.build = .ok ⟨#[], 3 * 2 ^ 61, true⟩ ∧
      mostGranted pastDoubling ⟨#[], 3 * 2 ^ 61, true⟩ = 3 * 2 ^ 62 + 1 ∧
      GrowsTo (3 * 2 ^ 61) (3 * 2 ^ 62 + 1)
        (stateAfter act pastDoubling ⟨#[], 3 * 2 ^ 61, true⟩).capacity := by
  have hbuild : threeEighths.build = .ok ⟨#[], 3 * 2 ^ 61, true⟩ := rfl
  have hmost : mostGranted pastDoubling ⟨#[], 3 * 2 ^ 61, true⟩ = 3 * 2 ^ 62 + 1 := by
    simp [pastDoubling, mostGranted, act, push, reserve, room, size, Op.granted, Op.needed,
      Answer.ofResult, withGrowth, grown, sizeBound, UInt64.size]
  refine ⟨hbuild, hmost, ?_⟩
  rw [← hmost]
  exact (capacity_eq_grown_mostGranted threeEighths hbuild pastDoubling).2.1

end ScanKit.Growable
