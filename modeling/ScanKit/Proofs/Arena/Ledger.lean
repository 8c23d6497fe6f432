import ScanKit.Proofs.Arena.Path
import ScanKit.Proofs.Arena.WellFormed

/-!
# The references that an arena has issued

A ledger lists the references that an arena has issued so far, the first one first.  It says of the
arena that a reference on the list has a node or is spent, that no other reference has a node, and
that a link leads to a reference further down the list, resolving or not.  So links make no cycle,
and following them for as many steps as there are slots meets the whole path.

Each operation is described by what it does to `look`, and keeps the ledger.
-/

universe u

namespace ScanKit.Arena

variable {α : Type u} {a : Arena α}

/-! ## What is seen after an operation -/

theorem contains_eq_isSome_look (a : Arena α) (r : NodeRef) : a.contains r = (a.look r).isSome := by
  rw [contains, look, Option.isSome_map]

theorem contains_of_look {r : NodeRef} {c : α × Option NodeRef} (hr : a.look r = some c) :
    a.contains r = true := by
  rw [contains_eq_isSome_look, hr, Option.isSome_some]

theorem contains_eq_false_iff_look {r : NodeRef} : a.contains r = false ↔ a.look r = none := by
  rw [contains_eq_isSome_look, Option.isSome_eq_false_iff, Option.isNone_iff_eq_none]

theorem WellFormed.look_alloc_ref (h : a.WellFormed) (value : α) :
    a.look (a.alloc value).1 = none :=
  look_eq_none_iff.2 (h.node?_alloc_ref value)

theorem WellFormed.look_alloc (h : a.WellFormed) (value : α) (r : NodeRef) :
    (a.alloc value).2.look r = if r = (a.alloc value).1 then some (value, none) else a.look r := by
  rw [look, h.node?_alloc]
  split <;> rfl

theorem look_set (a : Arena α) (r q : NodeRef) (value : α) :
    (a.modify r fun n => { n with value }).look q =
      if q = r then (a.look r).map fun c => (value, c.2) else a.look q := by
  rw [look, node?_modify]
  split
  · simp [look, Function.comp_def]
  · rfl

theorem look_link (a : Arena α) (r p q : NodeRef) :
    (a.modify r fun n => { n with next? := some p }).look q =
      if q = r then (a.look r).map fun c => (c.1, some p) else a.look q := by
  rw [look, node?_modify]
  split
  · simp [look, Function.comp_def]
  · rfl

theorem look_discard {r : NodeRef} (hr : a.contains r = true) (q : NodeRef) :
    (a.discard r).look q = if q = r then none else a.look q := by
  rw [look, node?_discard_of_contains hr]
  split <;> rfl

@[simp] theorem look_clear (a : Arena α) (r : NodeRef) : a.clear.look r = none := by simp [look]

@[simp] theorem contains_clear (a : Arena α) (r : NodeRef) : a.clear.contains r = false := by
  simp [contains]

@[simp] theorem contains_modify (a : Arena α) (r q : NodeRef) (f : Node α → Node α) :
    (a.modify r f).contains q = a.contains q := by
  rw [contains, node?_modify]
  split
  · rename_i hq
    rw [hq, Option.isSome_map, contains]
  · rfl

theorem contains_discard {r : NodeRef} (hr : a.contains r = true) (q : NodeRef) :
    (a.discard r).contains q = (a.contains q && q != r) := by
  rw [contains_eq_isSome_look, look_discard hr, contains_eq_isSome_look]
  by_cases hq : q = r <;> simp [hq]

theorem WellFormed.contains_alloc (h : a.WellFormed) (value : α) (q : NodeRef) :
    (a.alloc value).2.contains q = (a.contains q || q == (a.alloc value).1) := by
  rw [contains_eq_isSome_look, h.look_alloc, contains_eq_isSome_look]
  by_cases hq : q = (a.alloc value).1 <;> simp [hq]

/-! ## Ledgers -/

/-- The references that the arena has issued, in order. -/
structure Ledger (a : Arena α) (ids : List NodeRef) : Prop where
  wellFormed : a.WellFormed
  nodup : ids.Nodup
  mem_of_contains : ∀ r, a.contains r = true → r ∈ ids
  settled : ∀ r ∈ ids, a.contains r = true ∨ a.Spent r
  link_down : ∀ r value q, a.look r = some (value, some q) → q ∈ ids ∧ ids.idxOf r < ids.idxOf q
  live_eq : a.live = ids.countP a.contains

namespace Ledger

variable {ids : List NodeRef}

theorem mem_of_look (h : Ledger a ids) {r : NodeRef} {c : α × Option NodeRef}
    (hr : a.look r = some c) : r ∈ ids :=
  h.mem_of_contains r (contains_of_look hr)

theorem empty : Ledger (empty : Arena α) [] where
  wellFormed := wellFormed_empty
  nodup := .nil
  mem_of_contains r h := by simp [contains] at h
  settled r h := by simp at h
  link_down r value q h := by simp [look] at h
  live_eq := rfl

/-- A new reference is on no list. -/
theorem alloc_ref_not_mem (h : Ledger a ids) (value : α) : (a.alloc value).1 ∉ ids := by
  intro hmem
  rcases h.settled _ hmem with hlive | hspent
  · rw [contains_eq_isSome_look, h.wellFormed.look_alloc_ref] at hlive
    cases hlive
  · exact h.wellFormed.not_spent_alloc value hspent

/-- Making a node puts its reference at the end of the list. -/
theorem alloc (h : Ledger a ids) (value : α) :
    Ledger (a.alloc value).2 (ids ++ [(a.alloc value).1]) where
  wellFormed := h.wellFormed.alloc value
  nodup := by
    refine List.nodup_append.2 ⟨h.nodup, List.pairwise_singleton _ _, ?_⟩
    intro p hp q hq heq
    rw [List.mem_singleton] at hq
    exact h.alloc_ref_not_mem value (hq ▸ heq ▸ hp)
  mem_of_contains := by
    intro r hr
    rw [h.wellFormed.contains_alloc, Bool.or_eq_true, beq_iff_eq] at hr
    rcases hr with hr | rfl
    · exact List.mem_append_left _ (h.mem_of_contains r hr)
    · exact List.mem_append_right _ (List.mem_singleton_self _)
  settled := by
    intro r hr
    rw [h.wellFormed.contains_alloc, Bool.or_eq_true, beq_iff_eq]
    rcases List.mem_append.1 hr with hr | hr
    · rcases h.settled r hr with hlive | hspent
      · exact .inl (.inl hlive)
      · exact .inr ((h.wellFormed.later_alloc value).spent hspent)
    · exact .inl (.inr (List.mem_singleton.1 hr))
  link_down := by
    intro r v q hr
    rw [h.wellFormed.look_alloc] at hr
    split at hr
    · cases hr
    · obtain ⟨hq, hlt⟩ := h.link_down r v q hr
      rw [List.idxOf_append_of_mem (h.mem_of_look hr), List.idxOf_append_of_mem hq]
      exact ⟨List.mem_append_left _ hq, hlt⟩
  live_eq := by
    have hold : ids.countP (a.alloc value).2.contains = ids.countP a.contains := by
      apply List.countP_congr
      intro q hq
      rw [h.wellFormed.contains_alloc, Bool.or_eq_true, beq_iff_eq, or_iff_left]
      rintro rfl
      exact h.alloc_ref_not_mem value hq
    rw [live_alloc, h.live_eq, List.countP_append, hold, List.countP_singleton,
      h.wellFormed.contains_alloc]
    simp

/-- Changing a node keeps the list if a new link leads down the list. -/
theorem modify (h : Ledger a ids) {r : NodeRef} {f : Node α → Node α}
    (hlink : ∀ value q, (a.modify r f).look r = some (value, some q) →
      q ∈ ids ∧ ids.idxOf r < ids.idxOf q) : Ledger (a.modify r f) ids where
  wellFormed := h.wellFormed.modify r f
  nodup := h.nodup
  mem_of_contains := by
    intro q hq
    rw [contains_modify] at hq
    exact h.mem_of_contains q hq
  settled := by
    intro q hq
    rw [contains_modify]
    exact (h.settled q hq).imp_right (later_modify a r f).spent
  link_down := by
    intro p v q hp
    by_cases hpr : p = r
    · subst hpr
      exact hlink v q hp
    · rw [look, node?_modify, if_neg hpr, ← look] at hp
      exact h.link_down p v q hp
  live_eq := by
    rw [live_modify, h.live_eq]
    apply List.countP_congr
    intro q _
    rw [contains_modify]

theorem set (h : Ledger a ids) (r : NodeRef) (value : α) :
    Ledger (a.modify r fun n => { n with value }) ids := by
  apply h.modify
  intro v q hlook
  rw [look_set, if_pos rfl] at hlook
  obtain ⟨⟨v', l⟩, hold, heq⟩ := Option.map_eq_some_iff.1 hlook
  cases heq
  exact h.link_down r v' q hold

theorem link (h : Ledger a ids) {r p : NodeRef} (hp : p ∈ ids) (hlt : ids.idxOf r < ids.idxOf p) :
    Ledger (a.modify r fun n => { n with next? := some p }) ids := by
  apply h.modify
  intro v q hlook
  rw [look_link, if_pos rfl] at hlook
  obtain ⟨⟨v', l⟩, hold, heq⟩ := Option.map_eq_some_iff.1 hlook
  cases heq
  exact ⟨hp, hlt⟩

/-- Removing a node keeps the list. -/
theorem discard (h : Ledger a ids) {r : NodeRef} (hr : a.contains r = true) :
    Ledger (a.discard r) ids where
  wellFormed := h.wellFormed.discard hr
  nodup := h.nodup
  mem_of_contains := by
    intro q hq
    rw [contains_discard hr, Bool.and_eq_true] at hq
    exact h.mem_of_contains q hq.1
  settled := by
    intro q hq
    by_cases hqr : q = r
    · subst hqr
      exact .inr (spent_discard hr)
    · rcases h.settled q hq with hlive | hspent
      · exact .inl (by simp [contains_discard hr, hlive, hqr])
      · exact .inr ((later_discard a r).spent hspent)
  link_down := by
    intro p v q hp
    rw [look_discard hr] at hp
    split at hp
    · cases hp
    · exact h.link_down p v q hp
  live_eq := by
    have hperm := List.perm_cons_erase (h.mem_of_contains r hr)
    have hrest : (ids.erase r).countP (a.discard r).contains = (ids.erase r).countP a.contains := by
      apply List.countP_congr
      intro q hq
      have hqr : q ≠ r := (h.nodup.mem_erase_iff.1 hq).1
      simp [contains_discard hr, hqr]
    have hgone : ¬ (a.discard r).contains r = true := by simp [contains_discard hr]
    rw [live_discard, h.live_eq, hperm.countP_eq, hperm.countP_eq, List.countP_cons_of_pos hr,
      List.countP_cons_of_neg hgone, hrest, Nat.add_sub_cancel]

/-- Removing all nodes keeps the list. -/
theorem clear (h : Ledger a ids) : Ledger a.clear ids where
  wellFormed := h.wellFormed.clear
  nodup := h.nodup
  mem_of_contains := by
    intro q hq
    simp at hq
  settled := by
    intro q hq
    rcases h.settled q hq with hlive | hspent
    · exact .inr (spent_clear hlive)
    · exact .inr ((later_clear a).spent hspent)
  link_down := by
    intro p v q hp
    simp at hp
  live_eq := by
    rw [live_clear, List.countP_eq_zero.2]
    simp

end Ledger

end ScanKit.Arena
