import ScanKit.Proofs.Arena.Representation

/-!
# How many slots a run takes

Every slot has a node, is listed as vacant or stays empty for good (`Consistent.size_eq`), and one is
added only where none is vacant.  So a run leaves as many slots as were ever taken at one time, by a
node or for good (`Ledger.size_run`).
-/

universe u v

namespace ScanKit

/-- The slot is empty and can be filled. -/
def Slot.fillable {α : Type u} (s : Slot α) : Bool :=
  s.node?.isNone && decide (s.generation < retiredGeneration)

namespace Arena

variable {α : Type u} {σ : Type v} {a b : Arena α} {ids : List NodeRef}

/-! ## The three kinds of slots -/

/-- The number of slots that stay empty for good. -/
def retired (a : Arena α) : Nat := a.slots.countP (·.generation == retiredGeneration)

/-- The number of slots that are taken, by a node or for good. -/
def taken (a : Arena α) : Nat := a.live + a.retired

theorem countP_range_getElem? {β : Type u} (xs : Array β) (p : β → Bool) :
    (List.range xs.size).countP (fun i => xs[i]?.any p) = xs.countP p := by
  have hmap : (List.range xs.size).map (fun i => xs[i]?) = xs.toList.map some := by
    apply List.ext_getElem
    · simp
    · intro i hi _
      have hsize : i < xs.size := by simpa using hi
      simp [hsize]
  calc (List.range xs.size).countP (fun i => xs[i]?.any p)
      = ((List.range xs.size).map (fun i => xs[i]?)).countP (·.any p) := by
        rw [List.countP_map]
        rfl
    _ = (xs.toList.map some).countP (·.any p) := by rw [hmap]
    _ = xs.toList.countP p := List.countP_map
    _ = xs.countP p := Array.countP_toList

/-- If each item is of one of three kinds, the items are as many as those of each kind together. -/
theorem length_eq_countP_add {β : Type u} {xs : List β} {p q r : β → Bool}
    (h : ∀ x ∈ xs, (p x).toNat + (q x).toNat + (r x).toNat = 1) :
    xs.length = xs.countP p + xs.countP q + xs.countP r := by
  induction xs with
  | nil => rfl
  | cons x xs ih =>
      have hx := h x List.mem_cons_self
      have hxs := ih fun y hy => h y (List.mem_cons_of_mem x hy)
      have hstep : ∀ f : β → Bool, (x :: xs).countP f = xs.countP f + (f x).toNat := by
        intro f
        cases hf : f x <;> simp [hf]
      rw [List.length_cons, hstep, hstep, hstep]
      omega

/-- The vacant list names the slots that can be filled, so it is as long as there are such. -/
theorem WellFormed.length_vacant (h : a.WellFormed) :
    a.vacant.length = a.slots.countP Slot.fillable := by
  have hperm : a.vacant.Perm
      ((List.range a.slots.size).filter fun i => a.slots[i]?.any Slot.fillable) := by
    rw [List.perm_ext_iff_of_nodup h.nodup_vacant (List.nodup_range.filter _)]
    intro i
    rw [h.mem_vacant_iff, List.mem_filter, List.mem_range, Option.any_eq_true]
    constructor
    · rintro ⟨s, hs, hempty, hlt⟩
      exact ⟨(Array.getElem?_eq_some_iff.1 hs).1, s, hs, by simp [Slot.fillable, hempty, hlt]⟩
    · rintro ⟨-, s, hs, hfillable⟩
      exact ⟨s, hs, by simpa [Slot.fillable] using hfillable⟩
  rw [hperm.length_eq, ← List.countP_eq_length_filter, countP_range_getElem?]

/-- Every slot has a node, is listed as vacant or stays empty for good. -/
theorem WellFormed.size_eq (h : a.WellFormed) :
    a.slots.size = a.occupied + a.vacant.length + a.retired := by
  rw [h.length_vacant, occupied, retired, ← Array.length_toList, ← Array.countP_toList,
    ← Array.countP_toList, ← Array.countP_toList]
  apply length_eq_countP_add
  intro s hs
  obtain ⟨i, hi⟩ := Array.mem_iff_getElem?.1 (Array.mem_toList_iff.1 hs)
  have hsound := h.sound i s hi
  rw [Slot.fillable]
  cases hnode : s.node? with
  | some n =>
      have hlt := hsound.generation_lt (hnode ▸ Option.some_ne_none n)
      simp [Nat.ne_of_lt hlt]
  | none =>
      rcases Nat.lt_or_eq_of_le hsound.generation_le with hlt | heq
      · simp [hlt, Nat.ne_of_lt hlt]
      · simp [heq]

theorem Consistent.size_eq (h : a.Consistent) :
    a.slots.size = a.taken + a.vacant.length := by
  rw [h.toWellFormed.size_eq, taken, h.live_eq, Nat.add_right_comm]

/-! ## One change -/

@[simp] theorem size_modify (a : Arena α) (r : NodeRef) (f : Node α → Node α) :
    (a.modify r f).slots.size = a.slots.size := by
  rw [modify]
  split
  · exact Array.size_modify ..
  · rfl

@[simp] theorem vacant_modify (a : Arena α) (r : NodeRef) (f : Node α → Node α) :
    (a.modify r f).vacant = a.vacant := by
  rw [modify]
  split <;> rfl

@[simp] theorem size_discardAll (a : Arena α) (rs : List NodeRef) :
    (a.discardAll rs).slots.size = a.slots.size := by
  induction rs generalizing a with
  | nil => rfl
  | cons r rs ih => rw [discardAll_cons, ih, discard, Array.size_modify]

theorem WellFormed.size_alloc (h : a.WellFormed) (value : α) :
    (a.alloc value).2.slots.size = a.slots.size ∨
      a.slots.size ≤ (a.alloc value).2.slots.size ∧ (a.alloc value).2.vacant = [] := by
  have halloc := h.allocates value
  generalize a.alloc value = result at halloc ⊢
  cases halloc with
  | filled => exact .inl (Array.size_modify ..)
  | added => exact .inr ⟨by simp, rfl⟩

/-- No slot goes, and one is added only where none is vacant. -/
theorem Ledger.size_change (h : Ledger a ids) {issued : List NodeRef}
    (hchange : Change a issued b) :
    b.slots.size = a.slots.size ∨ a.slots.size ≤ b.slots.size ∧ b.vacant = [] := by
  cases hchange with
  | same => exact .inl rfl
  | alloc value => exact h.wellFormed.size_alloc value
  | addBehind hlast value =>
      rw [Arena.addBehind, size_modify, vacant_modify]
      exact h.wellFormed.size_alloc value
  | set r value => exact .inl (size_modify ..)
  | discardAll => exact .inl (size_discardAll ..)
  | clear => exact .inl (by simp [Arena.clear])

/-- After a call there are as many slots as before, or as many as are taken. -/
theorem Ledger.size_act (h : Ledger a ids) (hconsistent : a.Consistent) (c : Call NodeRef α σ) :
    (Arena.act c a).2.slots.size = max a.slots.size (Arena.act c a).2.taken := by
  have hsize := (hconsistent.act c).size_eq
  rcases h.size_change (h.change_act c) with hsame | ⟨hle, hvacant⟩
  · omega
  · -- Nothing is vacant, so all slots are taken.
    rw [hvacant, List.length_nil] at hsize
    omega

/-! ## Runs -/

/-- After a run there are as many slots as before, or as many as were taken at its peak. -/
theorem Ledger.size_run (h : Ledger a ids) (hconsistent : a.Consistent)
    (calls : List (Call NodeRef α σ)) :
    (stateAfter Arena.act calls a).slots.size =
      max a.slots.size (peakOf Arena.act taken calls a) := by
  induction calls generalizing a ids with
  | nil =>
      have hsize := hconsistent.size_eq
      rw [stateAfter, peakOf]
      omega
  | cons c calls ih =>
      have hsize := hconsistent.size_eq
      have hstep := h.size_act hconsistent c
      have hpeak := le_peakOf Arena.act taken calls (Arena.act c a).2
      rw [stateAfter, peakOf, ih (h.act c) (hconsistent.act c)]
      omega

/-! ## Slots that stay empty -/

theorem retired_eq_zero_iff :
    a.retired = 0 ↔ ∀ (i : Nat) (s : Slot α), a.slots[i]? = some s →
      s.generation ≠ retiredGeneration := by
  rw [retired, Array.countP_eq_zero]
  constructor
  · intro h i s hs heq
    exact h s (Array.mem_of_getElem? hs) (beq_iff_eq.2 heq)
  · intro h s hs heq
    obtain ⟨i, hi⟩ := Array.mem_iff_getElem?.1 hs
    exact h i s hi (beq_iff_eq.1 heq)

theorem later_discardAll (a : Arena α) (rs : List NodeRef) : Later a (a.discardAll rs) := by
  induction rs generalizing a with
  | nil => exact fun _ s hs => ⟨s, hs, Nat.le_refl _⟩
  | cons r rs ih => exact (later_discard a r).trans (ih (a.discard r))

theorem Ledger.later_change (h : Ledger a ids) {issued : List NodeRef}
    (hchange : Change a issued b) : Later a b := by
  cases hchange with
  | same => exact later_discardAll a []
  | alloc value => exact h.wellFormed.later_alloc value
  | addBehind hlast value => exact (h.wellFormed.later_alloc value).trans (later_modify _ _ _)
  | set r value => exact later_modify _ _ _
  | discardAll => exact later_discardAll _ _
  | clear => exact later_clear a

/-- A slot that is retired stays so. -/
theorem Ledger.retired_of_act (h : Ledger a ids) (c : Call NodeRef α σ)
    (hkept : (Arena.act c a).2.retired = 0) : a.retired = 0 := by
  rw [retired_eq_zero_iff] at hkept ⊢
  intro i s hs heq
  -- Generations only grow, and no slot goes beyond the last one.
  obtain ⟨t, ht, hle⟩ := h.later_change (h.change_act c) i s hs
  have hbound := ((h.act c).wellFormed.sound i t ht).generation_le
  exact hkept i t ht (Nat.le_antisymm hbound (heq ▸ hle))

theorem Ledger.retired_of_run (h : Ledger a ids) (calls : List (Call NodeRef α σ))
    (hkept : (stateAfter Arena.act calls a).retired = 0) : a.retired = 0 := by
  induction calls generalizing a ids with
  | nil => exact hkept
  | cons c calls ih => exact h.retired_of_act c (ih (h.act c) hkept)

/-- If no slot is retired in a run, the slots that are taken at its peak are those with a node. -/
theorem Ledger.peakOf_taken (h : Ledger a ids) (calls : List (Call NodeRef α σ))
    (hkept : (stateAfter Arena.act calls a).retired = 0) :
    peakOf Arena.act taken calls a = peakOf Arena.act live calls a := by
  induction calls generalizing a ids with
  | nil => rw [peakOf, peakOf, taken, h.retired_of_run [] hkept, Nat.add_zero]
  | cons c calls ih =>
      rw [peakOf, peakOf, ih (h.act c) hkept, taken, h.retired_of_run (c :: calls) hkept,
        Nat.add_zero]

/-- A reference that was issued is to one of the slots. -/
theorem Ledger.slot_lt_size (h : Ledger a ids) {r : NodeRef} (hr : r ∈ ids) :
    r.slot < a.slots.size := by
  rcases h.settled r hr with hlive | ⟨s, hs, -⟩
  · obtain ⟨s, hs, -⟩ := exists_slot hlive
    exact (Array.getElem?_eq_some_iff.1 hs).1
  · exact (Array.getElem?_eq_some_iff.1 hs).1

/-- In a run from the empty arena that retires no slot there are as many slots as nodes at the peak,
and what was issued is to one of these. -/
theorem size_eq_peakOf_live (calls : List (Call NodeRef α σ))
    (hkept : (stateAfter act calls empty).retired = 0) :
    (stateAfter act calls empty).slots.size = peakOf act live calls empty ∧
      ∀ r ∈ issuedIn calls empty, r.slot < peakOf act live calls empty := by
  have hsize := Ledger.empty.size_run Consistent.empty calls
  rw [Ledger.empty.peakOf_taken calls hkept] at hsize
  have hpeak : (stateAfter act calls empty).slots.size = peakOf act live calls empty :=
    hsize.trans (Nat.zero_max _)
  refine ⟨hpeak, fun r hr => ?_⟩
  have hledger := Ledger.empty.run calls
  rw [List.nil_append] at hledger
  exact hpeak ▸ hledger.slot_lt_size hr

end Arena

end ScanKit
