import ScanKit.Proofs.Arena.Ledger
import Mathlib.Data.List.Perm.Basic

/-!
# Walks

In an arena with a ledger every reference has a path, and it is no longer than there are slots,
since the nodes on it are in slots of their own.  So the bound on the steps of a walk is never what
ends it.  Removing a chain while walking it removes the nodes on its path and no others, and a node
that is added to a chain is linked behind the last one.
-/

universe u

namespace ScanKit.Arena

variable {α : Type u} {a : Arena α} {ids : List NodeRef}

/-- Distinct references that resolve are to slots of their own. -/
theorem nodup_slots {rs : List NodeRef} (hnodup : rs.Nodup)
    (hlive : ∀ r ∈ rs, a.contains r = true) : (rs.map (·.slot)).Nodup := by
  refine List.pairwise_map.2 (hnodup.imp_of_mem ?_)
  intro p q hp hq hne hslot
  obtain ⟨n, hn⟩ := contains_iff.1 (hlive q hq)
  rw [node?_eq_none_of_slot_eq (hlive p hp) hslot.symm (Ne.symm hne)] at hn
  cases hn

/-- There are no more references that resolve than there are slots. -/
theorem length_le_size {rs : List NodeRef} (hnodup : rs.Nodup)
    (hlive : ∀ r ∈ rs, a.contains r = true) : rs.length ≤ a.slots.size := by
  have hslots := nodup_slots hnodup hlive
  have hsub : rs.map (·.slot) ⊆ List.range a.slots.size := by
    intro i hi
    obtain ⟨r, hr, rfl⟩ := List.mem_map.1 hi
    obtain ⟨s, hs, -⟩ := exists_slot (hlive r hr)
    exact List.mem_range.2 (Array.getElem?_eq_some_iff.1 hs).1
  have hle := (List.subperm_of_subset hslots hsub).length_le
  rwa [List.length_map, List.length_range] at hle

/-- The nodes on a path are there. -/
theorem contains_of_path {r : NodeRef} {nodes : List (NodeRef × α)} {e : Option NodeRef}
    (hpath : Path a.look r nodes e) {q : NodeRef} (hq : q ∈ nodes.map (·.1)) :
    a.contains q = true := by
  obtain ⟨x, hx, rfl⟩ := List.mem_map.1 hq
  obtain ⟨l, hlook⟩ := hpath.look_of_mem hx
  exact contains_of_look hlook

/-- There is a node where a path that meets any starts. -/
theorem contains_of_path_ne_nil {r : NodeRef} {nodes : List (NodeRef × α)} {e : Option NodeRef}
    (hpath : Path a.look r nodes e) (hnodes : nodes ≠ []) : a.contains r = true := by
  rw [contains_eq_isSome_look, Option.isSome_iff_ne_none]
  exact fun hnone => hnodes (hpath.eq_nil_iff.2 hnone)

namespace Ledger

/-- Links lead down the list, so every reference has a path. -/
theorem exists_path (h : Ledger a ids) (r : NodeRef) :
    ∃ nodes e, Path a.look r nodes e :=
  Path.exists_path (fun p value q hp => (h.link_down p value q hp).2)
    (fun _ _ hp => List.idxOf_lt_length_of_mem (h.mem_of_look hp)) r

theorem nodup_of_path (h : Ledger a ids) {r : NodeRef} {nodes : List (NodeRef × α)}
    {e : Option NodeRef} (hpath : Path a.look r nodes e) : (nodes.map (·.1)).Nodup :=
  hpath.nodup fun p value q hp => (h.link_down p value q hp).2

theorem length_lt_of_path (h : Ledger a ids) {r : NodeRef} {nodes : List (NodeRef × α)}
    {e : Option NodeRef} (hpath : Path a.look r nodes e) : nodes.length < a.slots.size + 1 := by
  have hle := length_le_size (h.nodup_of_path hpath) fun _ => contains_of_path hpath
  rw [List.length_map] at hle
  exact Nat.lt_succ_of_le hle

/-- A walk meets what is on the path. -/
theorem walk_eq_of_path (h : Ledger a ids) {r : NodeRef} {nodes : List (NodeRef × α)}
    {e : Option NodeRef} (hpath : Path a.look r nodes e) : a.walk r = ⟨nodes, e⟩ :=
  follow_eq_of_path hpath (h.length_lt_of_path hpath)

theorem walk_path (h : Ledger a ids) (r : NodeRef) :
    Path a.look r (a.walk r).nodes (a.walk r).brokenAt? := by
  obtain ⟨nodes, e, hpath⟩ := h.exists_path r
  rwa [h.walk_eq_of_path hpath]

theorem values_of_path (h : Ledger a ids) {r : NodeRef} {nodes : List (NodeRef × α)}
    {e : Option NodeRef} (hr : a.contains r = true) (hpath : Path a.look r nodes e) :
    a.values r = .ok (nodes.map (·.2)) := by
  obtain ⟨n, hn⟩ := contains_iff.1 hr
  rw [values, h.walk_eq_of_path hpath, node, hn]
  rfl

/-- A chain has a last node exactly if its path does not break. -/
theorem tail_eq_ok_iff (h : Ledger a ids) {r last : NodeRef} :
    a.tail r = .ok last ↔ ∃ nodes v, Path a.look r (nodes ++ [(last, v)]) none := by
  constructor
  · intro htail
    have hpath := h.walk_path r
    rw [tail] at htail
    cases hbreak : (a.walk r).brokenAt? with
    | some q => simp [Walk.whole, hbreak] at htail
    | none =>
        rw [hbreak] at hpath
        obtain ⟨x, hx, -⟩ := hpath.getLast
        obtain rfl : x.1 = last := by simpa [Walk.whole, hbreak, hx] using htail
        obtain ⟨nodes, hnodes⟩ := List.getLast?_eq_some_iff.1 hx
        exact ⟨nodes, x.2, hnodes ▸ hpath⟩
  · rintro ⟨nodes, v, hpath⟩
    simp [tail, h.walk_eq_of_path hpath, Walk.whole]

/-- A chain has no last node exactly if its path breaks, and the error names where. -/
theorem tail_eq_error_iff (h : Ledger a ids) {r q : NodeRef} :
    a.tail r = .error ⟨q⟩ ↔ ∃ nodes, Path a.look r nodes (some q) := by
  constructor
  · intro htail
    have hpath := h.walk_path r
    rw [tail] at htail
    cases hbreak : (a.walk r).brokenAt? with
    | none => simp [Walk.whole, hbreak] at htail
    | some p =>
        obtain rfl : p = q := by simpa [Walk.whole, hbreak] using htail
        exact ⟨_, hbreak ▸ hpath⟩
  · rintro ⟨nodes, hpath⟩
    simp [tail, h.walk_eq_of_path hpath, Walk.whole]

/-- A path from a reference that was issued breaks at one that was. -/
theorem end_mem_of_path (h : Ledger a ids) {r q : NodeRef} {nodes : List (NodeRef × α)}
    (hpath : Path a.look r nodes (some q)) (hr : r ∈ ids) : q ∈ ids := by
  generalize he : some q = e at hpath
  induction hpath with
  | broken _ =>
      cases he
      exact hr
  | last _ => cases he
  | link hlook _ ih => exact ih (h.link_down _ _ _ hlook).1 he

end Ledger

/-! ## Removing a chain -/

/-- Removes nodes one after the other. -/
def discardAll (a : Arena α) (rs : List NodeRef) : Arena α := rs.foldl discard a

theorem discardAll_cons (a : Arena α) (r : NodeRef) (rs : List NodeRef) :
    a.discardAll (r :: rs) = (a.discard r).discardAll rs := rfl

/-- Removing nodes while walking a path removes the ones on it. -/
theorem freeAlong_eq_of_path {steps : Nat} {r : NodeRef} {nodes : List (NodeRef × α)}
    {e : Option NodeRef} (hpath : Path a.look r nodes e) (hnodup : (nodes.map (·.1)).Nodup)
    (hsteps : nodes.length < steps) :
    freeAlong steps a (some r) = (nodes.length, a.discardAll (nodes.map (·.1))) := by
  induction nodes generalizing a r steps with
  | nil =>
      cases hpath with
      | broken hlook =>
          cases steps with
          | zero => rfl
          | succ steps => simp [freeAlong, look_eq_none_iff.1 hlook, discardAll]
  | cons x nodes ih =>
      obtain ⟨steps, rfl⟩ : ∃ n, steps = n + 1 := ⟨steps - 1, by omega⟩
      have hlen : nodes.length < steps := Nat.lt_of_succ_lt_succ hsteps
      cases hpath with
      | last hlook =>
          cases steps <;> simp [freeAlong, look_eq_some_iff.1 hlook, discardAll]
      | @link _ q value _ _ hlook hrest =>
          have hr : a.contains r = true := contains_of_look hlook
          obtain ⟨hnot, hnodup⟩ := List.nodup_cons.1 hnodup
          -- the rest of the path does not look at the node that is gone
          have hrest' : Path (a.discard r).look q nodes e := by
            apply hrest.congr
            · intro y hy
              have hne : y.1 ≠ r := fun heq => hnot (List.mem_map.2 ⟨y, hy, heq⟩)
              rw [look_discard hr, if_neg hne]
            · intro p hp
              rw [look_discard hr]
              split
              · rfl
              · exact (hp ▸ hrest).look_end
          have hfree := ih hrest' hnodup hlen
          simp [freeAlong, look_eq_some_iff.1 hlook, hfree, discardAll]

/-- What is there beside a node that is removed stays there. -/
theorem contains_discard_of_cons {r : NodeRef} {rs : List NodeRef}
    (hlive : ∀ q ∈ r :: rs, a.contains q = true) (hnot : r ∉ rs) :
    ∀ q ∈ rs, (a.discard r).contains q = true := by
  intro q hq
  have hne : q ≠ r := fun heq => hnot (heq ▸ hq)
  simp [contains_discard (hlive r List.mem_cons_self), hlive q (List.mem_cons_of_mem r hq), hne]

namespace Ledger

/-- Removing nodes that are there keeps the list, and takes away those nodes only. -/
theorem discardAll (h : Ledger a ids) {rs : List NodeRef} (hnodup : rs.Nodup)
    (hlive : ∀ r ∈ rs, a.contains r = true) :
    Ledger (a.discardAll rs) ids ∧
      ∀ q, (a.discardAll rs).look q = if q ∈ rs then none else a.look q := by
  induction rs generalizing a with
  | nil => exact ⟨h, fun q => by simp [Arena.discardAll]⟩
  | cons r rs ih =>
      obtain ⟨hnot, hnodup⟩ := List.nodup_cons.1 hnodup
      have hr := hlive r List.mem_cons_self
      obtain ⟨hledger, hlook⟩ := ih (h.discard hr) hnodup (contains_discard_of_cons hlive hnot)
      refine ⟨hledger, fun q => (hlook q).trans ?_⟩
      rw [look_discard hr]
      by_cases hq : q = r <;> simp [hq]

/-- A path that meets none of the nodes that are removed stays as it is. -/
theorem path_discardAll (h : Ledger a ids) {rs : List NodeRef} (hnodup : rs.Nodup)
    (hlive : ∀ r ∈ rs, a.contains r = true) {r : NodeRef} {nodes : List (NodeRef × α)}
    {e : Option NodeRef} (hpath : Path a.look r nodes e) (hnodes : ∀ x ∈ nodes, x.1 ∉ rs) :
    Path (a.discardAll rs).look r nodes e := by
  have hlook := (h.discardAll hnodup hlive).2
  apply hpath.congr
  · intro x hx
    rw [hlook, if_neg (hnodes x hx)]
  · rintro q rfl
    rw [hlook, hpath.look_end, ite_self]

/-- Removing a chain removes the nodes that a walk of it meets. -/
theorem freeChain_eq (h : Ledger a ids) (r : NodeRef) :
    a.freeChain r = if a.contains r then
      .ok ((a.walk r).nodes.length, a.discardAll ((a.walk r).nodes.map (·.1)))
    else .error ⟨r⟩ := by
  have hpath := h.walk_path r
  have hfree := freeAlong_eq_of_path hpath (h.nodup_of_path hpath) (h.length_lt_of_path hpath)
  rw [freeChain, hfree, node, contains]
  cases a.node? r <;> rfl

end Ledger

/-! ## Adding to a chain -/

/-- Makes a node and links it behind another one. -/
def addBehind (a : Arena α) (last : NodeRef) (value : α) : Arena α :=
  (a.alloc value).2.modify last fun n => { n with next? := some (a.alloc value).1 }

theorem WellFormed.contains_addBehind (h : a.WellFormed) (last : NodeRef) (value : α)
    (q : NodeRef) :
    (a.addBehind last value).contains q = (a.contains q || q == (a.alloc value).1) := by
  rw [addBehind, contains_modify, h.contains_alloc]

theorem WellFormed.look_addBehind (h : a.WellFormed) {last : NodeRef}
    (hlast : a.contains last = true) (value : α) (q : NodeRef) :
    (a.addBehind last value).look q =
      if q = last then (a.look last).map fun c => (c.1, some (a.alloc value).1)
      else if q = (a.alloc value).1 then some (value, none) else a.look q := by
  have hne : last ≠ (a.alloc value).1 := by
    rintro rfl
    rw [contains_eq_isSome_look, h.look_alloc_ref] at hlast
    cases hlast
  rw [addBehind, look_link, h.look_alloc, if_neg hne, h.look_alloc]

namespace Ledger

/-- Nothing is made if the chain is broken. -/
theorem append_of_broken (h : Ledger a ids) {root q : NodeRef} {nodes : List (NodeRef × α)}
    (hpath : Path a.look root nodes (some q)) (value : α) :
    a.append root value = (.error ⟨q⟩, a) := by
  have htail : a.tail root = .error ⟨q⟩ := by
    simp [tail, h.walk_eq_of_path hpath, Walk.whole]
  rw [append, htail]

/-- A node is made and linked behind the last one of a chain that is not broken. -/
theorem append_of_last (h : Ledger a ids) {root : NodeRef} {nodes : List (NodeRef × α)}
    {x : NodeRef × α} (hpath : Path a.look root nodes none) (hlast : nodes.getLast? = some x)
    (value : α) :
    a.append root value = (.ok (a.alloc value).1, a.addBehind x.1 value) := by
  have htail : a.tail root = .ok x.1 := by
    simp [tail, h.walk_eq_of_path hpath, Walk.whole, hlast]
  rw [append, htail]
  rfl

/-- Linking a new node behind a node that is there keeps the list. -/
theorem addBehind (h : Ledger a ids) {last : NodeRef} (hlast : last ∈ ids) (value : α) :
    Ledger (a.addBehind last value) (ids ++ [(a.alloc value).1]) := by
  refine (h.alloc value).link (List.mem_append_right _ (List.mem_singleton_self _)) ?_
  rw [List.idxOf_append_of_mem hlast, List.idxOf_append_of_notMem (h.alloc_ref_not_mem value)]
  exact Nat.lt_of_lt_of_le (List.idxOf_lt_length_of_mem hlast) (Nat.le_add_right _ _)

end Ledger

end ScanKit.Arena
