import ScanKit.Proofs.Arena.Representation

/-!
# Removing a chain

Removing a chain takes away the nodes on its path, up to its end or its break, and leaves every other
slot alone, so that no other walk is touched.  Each slot that is emptied is listed in front of those
emptied before it, so the slots of the chain are filled again from its last node to its first, each
under its next generation.
-/

universe u v

namespace ScanKit.Arena

variable {α : Type u} {σ : Type v} {a b : Arena α} {ids : List NodeRef}

/-! ## Slots that are emptied one after the other -/

/-- A slot of none of the nodes that are removed is left alone. -/
theorem getElem?_discardAll_of_notMem {rs : List NodeRef} {i : Nat} (hi : i ∉ rs.map (·.slot)) :
    (a.discardAll rs).slots[i]? = a.slots[i]? := by
  induction rs generalizing a with
  | nil => rfl
  | cons r rs ih =>
      rw [List.map_cons, List.mem_cons, not_or] at hi
      rw [discardAll_cons, ih hi.2, getElem?_discard, if_neg (Ne.symm hi.1)]

/-- The slot of a node that is removed is emptied. -/
theorem getElem?_discardAll_of_mem {rs : List NodeRef} (hslots : (rs.map (·.slot)).Nodup)
    {r : NodeRef} (hr : r ∈ rs) :
    (a.discardAll rs).slots[r.slot]? = a.slots[r.slot]?.map Slot.vacated := by
  induction rs generalizing a with
  | nil => cases hr
  | cons q rs ih =>
      obtain ⟨hnot, hslots⟩ := List.nodup_cons.1 hslots
      rw [discardAll_cons]
      rcases List.mem_cons.1 hr with rfl | hr
      · rw [getElem?_discardAll_of_notMem hnot, getElem?_discard, if_pos rfl]
      · have hne : q.slot ≠ r.slot := fun heq => hnot (List.mem_map.2 ⟨r, hr, heq.symm⟩)
        rw [ih hslots hr, getElem?_discard, if_neg hne]

/-- The slots of the nodes that are removed are listed last one first, if none is retired. -/
theorem vacant_discardAll {rs : List NodeRef}
    (hkept : ∀ r ∈ rs, r.generation + 1 ≠ retiredGeneration) :
    (a.discardAll rs).vacant = (rs.map (·.slot)).reverse ++ a.vacant := by
  induction rs generalizing a with
  | nil => rfl
  | cons r rs ih =>
      have hr : (a.discard r).vacant = r.slot :: a.vacant := by
        rw [discard, if_neg (hkept r List.mem_cons_self)]
      rw [discardAll_cons,
        ih fun q hq => hkept q (List.mem_cons_of_mem r hq), hr]
      simp

theorem Consistent.live_discardAll (h : a.Consistent) {rs : List NodeRef} (hnodup : rs.Nodup)
    (hlive : ∀ r ∈ rs, a.contains r = true) : (a.discardAll rs).live + rs.length = a.live := by
  induction rs generalizing a with
  | nil => rfl
  | cons r rs ih =>
      obtain ⟨hnot, hnodup⟩ := List.nodup_cons.1 hnodup
      have hr := hlive r List.mem_cons_self
      have hrest := ih (h.discard hr) hnodup (contains_discard_of_cons hlive hnot)
      have hone := h.live_discard hr
      rw [discardAll_cons, List.length_cons]
      omega

/-! ## Slots that are filled again -/

/-- As many nodes as there are slots listed first are made under the references of these. -/
theorem issuedIn_alloc {qs : List NodeRef} {rest : List Nat} {values : List α}
    (hvacant : a.vacant = qs.map (·.slot) ++ rest)
    (hslots : ∀ q ∈ qs, ∃ s : Slot α, a.slots[q.slot]? = some s ∧ s.generation = q.generation)
    (hlength : values.length = qs.length) :
    issuedIn (values.map .alloc : List (Call NodeRef α σ)) a = qs := by
  induction qs generalizing a values with
  | nil =>
      obtain rfl := List.length_eq_zero_iff.1 hlength
      rfl
  | cons q qs ih =>
      obtain ⟨value, values, rfl⟩ := List.exists_cons_of_length_eq_add_one hlength
      obtain ⟨s, hs, hg⟩ := hslots q List.mem_cons_self
      have hmade := alloc_of_vacant hvacant hs value
      rw [hg] at hmade
      rw [List.map_cons, issuedIn_cons, act, hmade]
      refine congrArg (q :: ·) (ih rfl ?_ (Nat.succ.inj hlength))
      intro p hp
      obtain ⟨t, ht, hgeneration⟩ := hslots p (List.mem_cons_of_mem q hp)
      -- filling a slot keeps its generation
      refine ⟨if q.slot = p.slot then t.filled value else t, ?_, ?_⟩
      · simp only [Array.getElem?_modify, ht]
        split <;> rfl
      · split
        · exact hgeneration
        · exact hgeneration

/-! ## A chain that is removed -/

/-- From one arena to the next the nodes of a list are removed, and nothing else changes. -/
structure Removes (a b : Arena α) (rs : List NodeRef) : Prop where
  mem_iff : ∀ q, q ∈ rs ↔ a.contains q = true ∧ b.contains q = false
  contains : ∀ q, b.contains q = true → a.contains q = true
  live : b.live + rs.length = a.live
  slot : ∀ i, i ∉ rs.map (·.slot) → b.slots[i]? = a.slots[i]?
  path : ∀ z nodes e, Path a.look z nodes e → (∀ x ∈ nodes, x.1 ∉ rs) → Path b.look z nodes e

theorem Ledger.removes_discardAll (h : Ledger a ids) (hconsistent : a.Consistent)
    {rs : List NodeRef} (hnodup : rs.Nodup) (hlive : ∀ r ∈ rs, a.contains r = true) :
    Removes a (a.discardAll rs) rs := by
  have hcontains : ∀ q, (a.discardAll rs).contains q = (decide (q ∉ rs) && a.contains q) := by
    intro q
    rw [contains_eq_isSome_look, (h.discardAll hnodup hlive).2, contains_eq_isSome_look]
    by_cases hq : q ∈ rs <;> simp [hq]
  constructor
  · intro q
    constructor
    · intro hq
      exact ⟨hlive q hq, by simp [hcontains, hq]⟩
    · rintro ⟨hq, hgone⟩
      simpa [hcontains, hq] using hgone
  · intro q hq
    rw [hcontains, Bool.and_eq_true] at hq
    exact hq.2
  · exact hconsistent.live_discardAll hnodup hlive
  · intro i hi
    exact getElem?_discardAll_of_notMem hi
  · intro z nodes e hpath hnodes
    exact h.path_discardAll hnodup hlive hpath hnodes

/-- The slots of a chain that was removed are filled again from its last node to its first. -/
theorem issuedIn_alloc_discardAll {rs : List NodeRef} (hnodup : rs.Nodup)
    (hlive : ∀ r ∈ rs, a.contains r = true)
    (hkept : ∀ r ∈ rs, r.generation + 1 ≠ retiredGeneration) {values : List α}
    (hlength : values.length = rs.length) :
    issuedIn (values.map .alloc : List (Call NodeRef α σ)) (a.discardAll rs) =
      rs.reverse.map fun r => ⟨r.slot, r.generation + 1⟩ := by
  refine issuedIn_alloc (?_ : _ = _ ++ a.vacant) ?_ ?_
  · rw [vacant_discardAll hkept, List.map_map, List.map_reverse]
    rfl
  · intro q hq
    obtain ⟨r, hr, rfl⟩ := List.mem_map.1 hq
    have hmem := List.mem_reverse.1 hr
    obtain ⟨s, hs, hg, -⟩ := exists_slot (hlive r hmem)
    refine ⟨s.vacated, ?_, ?_⟩
    · rw [getElem?_discardAll_of_mem (nodup_slots hnodup hlive) hmem, hs, Option.map_some]
    · rw [Slot.vacated, hg]
  · rw [List.length_map, List.length_reverse, hlength]

/-- In every state that a run from the empty arena reaches, removing the chain from a node counts
the nodes on its path and removes these and no others, whether or not the path breaks.  If none of
their slots is retired by it, the nodes that are made next are in these slots, from the last one to
the first, each under the next generation. -/
theorem freeChain_removes_path (calls : List (Call NodeRef α σ)) {r : NodeRef}
    {nodes : List (NodeRef × α)} {e : Option NodeRef}
    (hr : (stateAfter act calls empty).contains r = true)
    (hpath : Path (stateAfter act calls empty).look r nodes e) :
    ∃ b, (stateAfter act calls empty).freeChain r = .ok (nodes.length, b) ∧
      Removes (stateAfter act calls empty) b (nodes.map (·.1)) ∧
      ((∀ x ∈ nodes, x.1.generation + 1 ≠ retiredGeneration) →
        ∀ values : List α, values.length = nodes.length →
          issuedIn (values.map .alloc : List (Call NodeRef α σ)) b =
            nodes.reverse.map fun x => ⟨x.1.slot, x.1.generation + 1⟩) := by
  have hledger := Ledger.empty.run calls
  have hnodup := hledger.nodup_of_path hpath
  have hlive : ∀ q ∈ nodes.map (·.1), (stateAfter act calls empty).contains q = true :=
    fun _ => contains_of_path hpath
  have hfree := hledger.freeChain_eq r
  rw [if_pos hr, hledger.walk_eq_of_path hpath] at hfree
  refine ⟨_, hfree, hledger.removes_discardAll (Consistent.empty.run calls) hnodup hlive, ?_⟩
  intro hkept values hlength
  have hkept' : ∀ q ∈ nodes.map (·.1), q.generation + 1 ≠ retiredGeneration := by simpa using hkept
  rw [issuedIn_alloc_discardAll hnodup hlive hkept' (by rw [hlength, List.length_map]),
    ← List.map_reverse, List.map_map]
  rfl

/-- A chain of four nodes whose third node is removed, and its slot filled with another chain. -/
def thirdRefilled : List (Call NodeRef Nat Unit) :=
  [.alloc 1, .append ⟨0, 0⟩ 2, .append ⟨0, 0⟩ 3, .append ⟨0, 0⟩ 4, .free ⟨2, 0⟩, .alloc 5]

/-- Removing the chain stops at its break, although there is a node in the slot behind it again, and
the next two nodes are in the slots that were emptied. -/
theorem freeChain_removes_path_thirdRefilled :
    ∃ b, (stateAfter act thirdRefilled empty).freeChain ⟨0, 0⟩ = .ok (2, b) ∧
      b.live + 2 = (stateAfter act thirdRefilled empty).live ∧
      Path b.look ⟨2, 1⟩ [(⟨2, 1⟩, 5)] none ∧ Path b.look ⟨3, 0⟩ [(⟨3, 0⟩, 4)] none ∧
      issuedIn ([.alloc 6, .alloc 7] : List (Call NodeRef Nat Unit)) b = [⟨1, 1⟩, ⟨0, 1⟩] := by
  have hpath : Path (stateAfter act thirdRefilled empty).look ⟨0, 0⟩ [(⟨0, 0⟩, 1), (⟨1, 0⟩, 2)]
      (some ⟨2, 0⟩) := .link rfl (.link rfl (.broken rfl))
  obtain ⟨b, hfree, hremoves, hrefilled⟩ := freeChain_removes_path thirdRefilled rfl hpath
  refine ⟨b, hfree, hremoves.live, ?_, ?_, hrefilled (by decide) [6, 7] rfl⟩
  · exact hremoves.path _ _ _ (.last rfl) (by decide)
  · exact hremoves.path _ _ _ (.last rfl) (by decide)

end ScanKit.Arena
