import ScanKit.Arena.Basic

/-!
# The slots of an arena

An arena is well formed if its vacant list names the slots that can be filled again, each once and
no others.  In such an arena the operations act on nodes as on a heap: making a node adds one under
a reference that resolved to nothing, and removing a node takes away that one only.  The generation
of a slot never goes down, which is what keeps old references from resolving again.
-/

universe u

namespace ScanKit.Arena

variable {α : Type u} {a : Arena α}

/-- What holds of a slot: it is not past its retirement, it has a node only before that, and it is
listed as vacant if it is empty and not retired. -/
structure Sound (s : Slot α) (listed : Prop) : Prop where
  generation_le : s.generation ≤ retiredGeneration
  generation_lt : s.node? ≠ none → s.generation < retiredGeneration
  listed_iff : listed ↔ s.node? = none ∧ s.generation < retiredGeneration

/-- A slot with a node is sound if it is not retired and not listed. -/
theorem Sound.of_node {s : Slot α} {listed : Prop} (hnode : s.node? ≠ none)
    (hlt : s.generation < retiredGeneration) (hnot : ¬ listed) : Sound s listed where
  generation_le := Nat.le_of_lt hlt
  generation_lt _ := hlt
  listed_iff := by simp [hnot, hnode]

/-- An empty slot is sound if it is listed unless it is retired. -/
theorem Sound.of_empty {s : Slot α} {listed : Prop} (hempty : s.node? = none)
    (hle : s.generation ≤ retiredGeneration) (hlisted : listed ↔ s.generation ≠ retiredGeneration) :
    Sound s listed where
  generation_le := hle
  generation_lt hnode := absurd hempty hnode
  listed_iff := by
    rw [hlisted]
    constructor
    · intro hne
      exact ⟨hempty, Nat.lt_of_le_of_ne hle hne⟩
    · rintro ⟨-, hlt⟩
      exact Nat.ne_of_lt hlt

/-- Every slot is sound, and the vacant list names slots, each once. -/
structure WellFormed (a : Arena α) : Prop where
  nodup_vacant : a.vacant.Nodup
  lt_size : ∀ i ∈ a.vacant, i < a.slots.size
  sound : ∀ (i : Nat) (s : Slot α), a.slots[i]? = some s → Sound s (i ∈ a.vacant)

/-- The vacant list names the empty slots that are not retired, and nothing else. -/
theorem WellFormed.mem_vacant_iff (h : a.WellFormed) {i : Nat} :
    i ∈ a.vacant ↔ ∃ s : Slot α, a.slots[i]? = some s ∧ s.node? = none ∧
      s.generation < retiredGeneration := by
  constructor
  · intro hi
    have hs := Array.getElem?_eq_getElem (h.lt_size i hi)
    exact ⟨_, hs, (h.sound i _ hs).listed_iff.1 hi⟩
  · rintro ⟨s, hs, hempty⟩
    exact (h.sound i s hs).listed_iff.2 hempty

theorem wellFormed_empty : (empty : Arena α).WellFormed where
  nodup_vacant := .nil
  lt_size i h := by simp [empty] at h
  sound i s h := by simp [empty] at h

/-- A reference resolves to the node in its slot if the slot is still at its generation. -/
theorem node?_eq_some_iff {r : NodeRef} {n : Node α} :
    a.node? r = some n ↔
      ∃ s : Slot α, a.slots[r.slot]? = some s ∧ s.generation = r.generation ∧ s.node? = some n := by
  rw [node?, Option.bind_eq_some_iff]
  constructor
  · rintro ⟨s, hs, hn⟩
    by_cases hg : s.generation = r.generation
    · exact ⟨s, hs, hg, by rwa [if_pos hg] at hn⟩
    · rw [if_neg hg] at hn
      cases hn
  · rintro ⟨s, hs, hg, hn⟩
    exact ⟨s, hs, by rwa [if_pos hg]⟩

theorem contains_iff {r : NodeRef} : a.contains r = true ↔ ∃ n, a.node? r = some n := by
  rw [contains, Option.isSome_iff_exists]

theorem free_eq_ok_iff {b : Arena α} {r : NodeRef} {n : Node α} :
    a.free r = .ok (n, b) ↔ a.node? r = some n ∧ a.discard r = b := by
  rw [free, node]
  cases a.node? r <;> simp [Except.map]

/-- Two references into one slot cannot both resolve. -/
theorem node?_eq_none_of_slot_eq {q r : NodeRef} (hr : a.contains r = true)
    (hslot : q.slot = r.slot) (hne : q ≠ r) : a.node? q = none := by
  obtain ⟨n, hn⟩ := contains_iff.1 hr
  obtain ⟨s, hs, hg, -⟩ := node?_eq_some_iff.1 hn
  cases hq : a.node? q with
  | none => rfl
  | some m =>
      obtain ⟨s', hs', hg', -⟩ := node?_eq_some_iff.1 hq
      have hsame : s = s' := by simpa [hslot, hs] using hs'
      subst hsame
      exact absurd (by cases q; cases r; simp_all) hne

/-! ## Making a node -/

/-- The two ways in which a slot for a new node is found. -/
inductive Allocates (a : Arena α) (value : α) : NodeRef × Arena α → Prop where
  | /-- The slot that was emptied last is filled under its present generation. -/
    filled {i : Nat} {vacant : List Nat} {s : Slot α} (hvacant : a.vacant = i :: vacant)
      (hslot : a.slots[i]? = some s) (hempty : s.node? = none)
      (hgeneration : s.generation < retiredGeneration) :
      Allocates a value (⟨i, s.generation⟩,
        ⟨a.slots.modify i (·.filled value), vacant, a.live + 1⟩)
  | /-- A slot is added, as there is none to fill. -/
    added (hvacant : a.vacant = []) :
      Allocates a value (⟨a.slots.size, 0⟩,
        ⟨a.slots.push ⟨0, some ⟨value, none⟩⟩, [], a.live + 1⟩)

/-- The slot that is listed first is filled under its present generation. -/
theorem alloc_of_vacant {i : Nat} {vacant : List Nat} {s : Slot α} (hvacant : a.vacant = i :: vacant)
    (hslot : a.slots[i]? = some s) (value : α) :
    a.alloc value = (⟨i, s.generation⟩,
      ⟨a.slots.modify i (·.filled value), vacant, a.live + 1⟩) := by
  obtain ⟨slots, _, live⟩ := a
  subst hvacant
  have hfound : (slots[i]?.map (·.generation)).getD 0 = s.generation := by
    rw [hslot]
    rfl
  simp only [alloc, hfound]

theorem WellFormed.allocates (h : a.WellFormed) (value : α) :
    Allocates a value (a.alloc value) := by
  cases hvacant : a.vacant with
  | nil =>
      obtain ⟨slots, _, live⟩ := a
      subst hvacant
      exact .added rfl
  | cons i vacant =>
      have hi : i ∈ a.vacant := hvacant ▸ List.mem_cons_self
      have hslot := Array.getElem?_eq_getElem (h.lt_size i hi)
      obtain ⟨hempty, hgeneration⟩ := (h.sound i _ hslot).listed_iff.1 hi
      rw [alloc_of_vacant hvacant hslot]
      exact .filled hvacant hslot hempty hgeneration

/-- The reference of a new node resolved to nothing before. -/
theorem WellFormed.node?_alloc_ref (h : a.WellFormed) (value : α) :
    a.node? (a.alloc value).1 = none := by
  have halloc := h.allocates value
  generalize a.alloc value = result at halloc ⊢
  cases halloc with
  | filled _ hslot hempty _ => simp [node?, hslot, hempty]
  | added _ => simp [node?]

/-- Making a node adds one and changes no other. -/
theorem WellFormed.node?_alloc (h : a.WellFormed) (value : α) (r : NodeRef) :
    (a.alloc value).2.node? r =
      if r = (a.alloc value).1 then some ⟨value, none⟩ else a.node? r := by
  have halloc := h.allocates value
  generalize a.alloc value = result at halloc ⊢
  cases halloc with
  | @filled i vacant s _ hslot hempty _ =>
      simp only [node?, Array.getElem?_modify]
      by_cases hi : i = r.slot
      · subst hi
        by_cases hg : s.generation = r.generation
        · have hr : r = ⟨r.slot, s.generation⟩ := by rw [hg]
          rw [if_pos hr]
          simp [hslot, Slot.filled, hg]
        · have hr : r ≠ ⟨r.slot, s.generation⟩ := fun hr => hg (congrArg NodeRef.generation hr).symm
          rw [if_neg hr]
          simp [hslot, Slot.filled, hg]
      · have hr : r ≠ ⟨i, s.generation⟩ := fun hr => hi (congrArg NodeRef.slot hr).symm
        rw [if_neg hi, if_neg hr]
  | added _ =>
      simp only [node?, Array.getElem?_push]
      by_cases hi : r.slot = a.slots.size
      · by_cases hg : r.generation = 0
        · have hr : r = ⟨a.slots.size, 0⟩ := by cases r; simp_all
          rw [if_pos hi, if_pos hr]
          simp [hg]
        · have hr : r ≠ ⟨a.slots.size, 0⟩ := fun hr => hg (congrArg NodeRef.generation hr)
          rw [if_pos hi, if_neg hr]
          simp [hi, Ne.symm hg]
      · have hr : r ≠ ⟨a.slots.size, 0⟩ := fun hr => hi (congrArg NodeRef.slot hr)
        rw [if_neg hi, if_neg hr]

/-- A slot with a node is left alone when one is made. -/
theorem WellFormed.getElem?_alloc (h : a.WellFormed) (value : α) {i : Nat} {s : Slot α}
    (hs : a.slots[i]? = some s) (hnode : s.node? ≠ none) :
    (a.alloc value).2.slots[i]? = some s := by
  have halloc := h.allocates value
  generalize a.alloc value = result at halloc ⊢
  cases halloc with
  | @filled j _ t _ hslot hempty _ =>
      have hne : j ≠ i := by
        rintro rfl
        cases hslot.symm.trans hs
        exact hnode hempty
      rw [Array.getElem?_modify, if_neg hne, hs]
  | added _ =>
      have hne : i ≠ a.slots.size := Nat.ne_of_lt (Array.getElem?_eq_some_iff.1 hs).1
      rw [Array.getElem?_push, if_neg hne, hs]

/-- Making a node leaves the arena well formed. -/
theorem WellFormed.alloc (h : a.WellFormed) (value : α) : (a.alloc value).2.WellFormed := by
  have halloc := h.allocates value
  generalize a.alloc value = result at halloc ⊢
  cases halloc with
  | @filled i vacant s hvacant hslot hempty hgeneration =>
      obtain ⟨hi, hnodup⟩ := List.nodup_cons.1 (hvacant ▸ h.nodup_vacant)
      refine ⟨hnodup, ?_, ?_⟩
      · intro j hj
        rw [Array.size_modify]
        exact h.lt_size j (hvacant ▸ List.mem_cons_of_mem i hj)
      · intro j t ht
        rw [Array.getElem?_modify] at ht
        by_cases hj : i = j
        · subst hj
          obtain rfl : s.filled value = t := by simpa [hslot] using ht
          exact .of_node (by simp [Slot.filled]) hgeneration hi
        · rw [if_neg hj] at ht
          have hsound := h.sound j t ht
          rw [hvacant, List.mem_cons, or_iff_right (Ne.symm hj)] at hsound
          exact hsound
  | added hvacant =>
      refine ⟨.nil, ?_, ?_⟩
      · intro j hj
        cases hj
      · intro j t ht
        rw [Array.getElem?_push] at ht
        split at ht
        · have hnew : 0 < retiredGeneration := by decide
          cases ht
          exact .of_node (by simp) hnew List.not_mem_nil
        · exact hvacant ▸ h.sound j t ht

/-! ## Changing a node -/

/-- Changing a node leaves the arena well formed. -/
theorem WellFormed.modify (h : a.WellFormed) (r : NodeRef) (f : Node α → Node α) :
    (a.modify r f).WellFormed := by
  rw [Arena.modify]
  split
  · refine ⟨h.nodup_vacant, ?_, ?_⟩
    · intro j hj
      rw [Array.size_modify]
      exact h.lt_size j hj
    · intro j t ht
      rw [Array.getElem?_modify] at ht
      split at ht
      · obtain ⟨s, hs, rfl⟩ := Option.map_eq_some_iff.1 ht
        have hsound := h.sound j s hs
        refine ⟨hsound.generation_le, ?_, ?_⟩
        · intro hnode
          exact hsound.generation_lt (by simpa using hnode)
        · simpa using hsound.listed_iff
      · exact h.sound j t ht
  · exact h

/-! ## Removing nodes -/

/-- A reference that resolves is to a slot at its generation. -/
theorem exists_slot {r : NodeRef} (hr : a.contains r = true) :
    ∃ s : Slot α, a.slots[r.slot]? = some s ∧ s.generation = r.generation ∧ s.node? ≠ none := by
  obtain ⟨n, hn⟩ := contains_iff.1 hr
  obtain ⟨s, hs, hg, hnode⟩ := node?_eq_some_iff.1 hn
  exact ⟨s, hs, hg, by simp [hnode]⟩

theorem getElem?_discard (a : Arena α) (r : NodeRef) (i : Nat) :
    (a.discard r).slots[i]? = if r.slot = i then a.slots[i]?.map Slot.vacated else a.slots[i]? := by
  rw [Arena.discard, Array.getElem?_modify]

/-- The slot of a removed node is listed unless it is retired. -/
theorem mem_vacant_discard {r : NodeRef} {j : Nat} :
    j ∈ (a.discard r).vacant ↔
      (j = r.slot ∧ r.generation + 1 ≠ retiredGeneration) ∨ j ∈ a.vacant := by
  rw [Arena.discard]
  split <;> simp_all

/-- Removing a node leaves the arena well formed. -/
theorem WellFormed.discard (h : a.WellFormed) {r : NodeRef} (hr : a.contains r = true) :
    (a.discard r).WellFormed := by
  obtain ⟨s, hs, hg, hnode⟩ := exists_slot hr
  have hsound := h.sound r.slot s hs
  have hlt : r.generation < retiredGeneration := hg ▸ hsound.generation_lt hnode
  have hnot : r.slot ∉ a.vacant := by
    intro hmem
    exact hnode (hsound.listed_iff.1 hmem).1
  refine ⟨?_, ?_, ?_⟩
  · rw [Arena.discard]
    split
    · exact h.nodup_vacant
    · exact List.nodup_cons.2 ⟨hnot, h.nodup_vacant⟩
  · intro j hj
    rw [Arena.discard, Array.size_modify]
    rcases mem_vacant_discard.1 hj with ⟨rfl, -⟩ | hj
    · exact (Array.getElem?_eq_some_iff.1 hs).1
    · exact h.lt_size j hj
  · intro j t ht
    rw [mem_vacant_discard]
    rw [Arena.discard, Array.getElem?_modify] at ht
    by_cases hj : r.slot = j
    · subst hj
      obtain rfl : s.vacated = t := by simpa [hs] using ht
      refine .of_empty rfl ?_ ?_
      · rw [Slot.vacated, hg]
        exact hlt
      · simp [Slot.vacated, hg, hnot]
    · rw [if_neg hj] at ht
      have hrest := h.sound j t ht
      simpa [Ne.symm hj] using hrest

/-- Removing a node takes away that one and changes no other. -/
theorem node?_discard_of_contains {r : NodeRef} (hr : a.contains r = true) (q : NodeRef) :
    (a.discard r).node? q = if q = r then none else a.node? q := by
  rw [node?_discard]
  by_cases hq : q = r
  · simp [hq]
  · rw [if_neg hq]
    by_cases hslot : q.slot = r.slot
    · rw [if_pos hslot, node?_eq_none_of_slot_eq hr hslot hq]
    · rw [if_neg hslot]

/-- After all nodes are removed every slot is empty, and not past its retirement. -/
theorem WellFormed.slot_clear (h : a.WellFormed) {j : Nat} {t : Slot α}
    (ht : a.clear.slots[j]? = some t) : t.node? = none ∧ t.generation ≤ retiredGeneration := by
  simp only [Arena.clear, Array.getElem?_map] at ht
  obtain ⟨s, hs, rfl⟩ := Option.map_eq_some_iff.1 ht
  have hsound := h.sound j s hs
  split
  · rename_i hnode
    exact ⟨rfl, hsound.generation_lt (Option.isSome_iff_ne_none.1 hnode)⟩
  · rename_i hnode
    exact ⟨by simpa using hnode, hsound.generation_le⟩

/-- After all nodes are removed the slots that are not retired are listed. -/
theorem mem_vacant_clear {j : Nat} :
    j ∈ a.clear.vacant ↔
      ∃ t : Slot α, a.clear.slots[j]? = some t ∧ t.generation ≠ retiredGeneration := by
  simp [Arena.clear, List.mem_zipIdx_iff_getElem?]

theorem nodup_vacant_clear (a : Arena α) : a.clear.vacant.Nodup := by
  have hup : ∀ l : List (Slot α), l.zipIdx.Pairwise fun x y => x.2 < y.2 := by
    intro l
    rw [← List.pairwise_map, List.zipIdx_map_snd]
    exact List.pairwise_lt_range'
  rw [Arena.clear, List.Nodup, List.pairwise_reverse]
  refine List.Pairwise.filterMap _ ?_ (hup _)
  intro x y hlt i hi j hj
  obtain ⟨-, rfl⟩ : _ ∧ x.2 = i := by simpa using hi
  obtain ⟨-, rfl⟩ : _ ∧ y.2 = j := by simpa using hj
  exact Ne.symm (Nat.ne_of_lt hlt)

/-- Removing all nodes leaves the arena well formed. -/
theorem WellFormed.clear (h : a.WellFormed) : a.clear.WellFormed where
  nodup_vacant := nodup_vacant_clear a
  lt_size := by
    intro j hj
    obtain ⟨t, ht, -⟩ := mem_vacant_clear.1 hj
    exact (Array.getElem?_eq_some_iff.1 ht).1
  sound := by
    intro j t ht
    obtain ⟨hempty, hle⟩ := h.slot_clear ht
    refine .of_empty hempty hle ?_
    simp [mem_vacant_clear, ht]

/-! ## Generations -/

/-- Every slot is still there, at its generation or a later one. -/
def Later (a b : Arena α) : Prop :=
  ∀ (i : Nat) (s : Slot α), a.slots[i]? = some s →
    ∃ t : Slot α, b.slots[i]? = some t ∧ s.generation ≤ t.generation

/-- The slot of a reference is at a later generation than the reference. -/
def Spent (a : Arena α) (r : NodeRef) : Prop :=
  ∃ s : Slot α, a.slots[r.slot]? = some s ∧ r.generation < s.generation

/-- A spent reference stays so. -/
theorem Later.spent {b : Arena α} {r : NodeRef} (h : Later a b) (hr : a.Spent r) : b.Spent r := by
  obtain ⟨s, hs, hlt⟩ := hr
  obtain ⟨t, ht, hle⟩ := h r.slot s hs
  exact ⟨t, ht, Nat.lt_of_lt_of_le hlt hle⟩

theorem Later.trans {b c : Arena α} (h : Later a b) (h' : Later b c) : Later a c := by
  intro i s hs
  obtain ⟨t, ht, hle⟩ := h i s hs
  obtain ⟨t', ht', hle'⟩ := h' i t ht
  exact ⟨t', ht', Nat.le_trans hle hle'⟩

/-- The reference of a new node is not one that was spent before. -/
theorem WellFormed.not_spent_alloc (h : a.WellFormed) (value : α) :
    ¬ a.Spent (a.alloc value).1 := by
  have halloc := h.allocates value
  generalize a.alloc value = result at halloc ⊢
  cases halloc with
  | filled _ hslot _ _ =>
      rintro ⟨t, ht, hlt⟩
      cases hslot.symm.trans ht
      exact Nat.lt_irrefl _ hlt
  | added _ =>
      rintro ⟨t, ht, -⟩
      simp at ht

theorem WellFormed.later_alloc (h : a.WellFormed) (value : α) : Later a (a.alloc value).2 := by
  have halloc := h.allocates value
  generalize a.alloc value = result at halloc ⊢
  intro j t ht
  cases halloc with
  | @filled i _ _ _ _ _ _ =>
      refine ⟨if i = j then t.filled value else t, ?_, ?_⟩
      · simp only [Array.getElem?_modify, ht]
        split <;> rfl
      · split <;> exact Nat.le_refl _
  | added _ =>
      refine ⟨t, ?_, Nat.le_refl _⟩
      have hj : j ≠ a.slots.size := Nat.ne_of_lt (Array.getElem?_eq_some_iff.1 ht).1
      rw [Array.getElem?_push, if_neg hj, ht]

theorem later_modify (a : Arena α) (r : NodeRef) (f : Node α → Node α) :
    Later a (a.modify r f) := by
  intro j t ht
  rw [Arena.modify]
  split
  · refine ⟨if r.slot = j then { t with node? := t.node?.map f } else t, ?_, ?_⟩
    · simp only [Array.getElem?_modify, ht]
      split <;> rfl
    · split <;> exact Nat.le_refl _
  · exact ⟨t, ht, Nat.le_refl _⟩

theorem later_discard (a : Arena α) (r : NodeRef) : Later a (a.discard r) := by
  intro j t ht
  refine ⟨if r.slot = j then t.vacated else t, ?_, ?_⟩
  · simp only [Arena.discard, Array.getElem?_modify, ht]
    split <;> rfl
  · split
    · exact Nat.le_succ _
    · exact Nat.le_refl _

theorem later_clear (a : Arena α) : Later a a.clear := by
  intro j t ht
  refine ⟨if t.node?.isSome then t.vacated else t, ?_, ?_⟩
  · simp only [Arena.clear, Array.getElem?_map, ht, Option.map_some]
  · split
    · exact Nat.le_succ _
    · exact Nat.le_refl _

/-- Removing a node spends its reference. -/
theorem spent_discard {r : NodeRef} (hr : a.contains r = true) : (a.discard r).Spent r := by
  obtain ⟨s, hs, hg, -⟩ := exists_slot hr
  refine ⟨s.vacated, ?_, ?_⟩
  · simp [Arena.discard, Array.getElem?_modify, hs]
  · rw [← hg]
    exact Nat.lt_succ_self _

/-- Removing all nodes spends their references. -/
theorem spent_clear {r : NodeRef} (hr : a.contains r = true) : a.clear.Spent r := by
  obtain ⟨s, hs, hg, hnode⟩ := exists_slot hr
  refine ⟨s.vacated, ?_, ?_⟩
  · simp [Arena.clear, hs, Option.isSome_iff_ne_none, hnode]
  · rw [← hg]
    exact Nat.lt_succ_self _

end ScanKit.Arena
