import ScanKit.Proofs.Arena.Answers

/-!
# Adding a node to a chain

A node is linked behind the end of a chain.  Each walk that comes to that end goes on over the new
node, from whichever node of the chain it starts, and no other walk does: chains do not merge, so
what ends elsewhere never passes there.  A broken walk stays broken at the same link, since the new
node has a reference that no link was ever made to, even if it takes the slot that the link names.
-/

universe u v

namespace ScanKit.Arena

variable {α : Type u} {σ : Type v} {a b : Arena α} {ids : List NodeRef}

/-! ## Answers by what a reference leads to -/

theorem get_eq (a : Arena α) (r : NodeRef) :
    a.get r = ((a.look r).map (·.1)).elim (.error ⟨r⟩) .ok := by
  rw [get, node, look]
  cases a.node? r <;> rfl

theorem next_eq (a : Arena α) (r : NodeRef) :
    a.next r = ((a.look r).map (·.2)).elim (.error ⟨r⟩) .ok := by
  rw [next, node, look]
  cases a.node? r <;> rfl

/-! ## What is extended and what is kept -/

/-- From one arena to the next a value is added behind the node `last`, under the reference `made`,
and nothing else changes. -/
structure ExtendsAt (a b : Arena α) (last made : NodeRef) (value : α) : Prop where
  fresh : a.contains made = false
  /-- A walk that comes to the end where the node is added goes on over it. -/
  extended : ∀ z nodes v, Path a.look z (nodes ++ [(last, v)]) none →
    Path b.look z (nodes ++ [(last, v), (made, value)]) none
  /-- A walk that breaks, or ends at another node, meets what it met before. -/
  kept : ∀ z nodes e, a.contains z = true → Path a.look z nodes e →
    (e = none → ∀ x, nodes.getLast? = some x → x.1 ≠ last) → Path b.look z nodes e
  path_made : Path b.look made [(made, value)] none
  values_extended : ∀ z vs, a.tail z = .ok last → a.values z = .ok vs →
    b.values z = .ok (vs ++ [value])
  values_kept : ∀ z, a.contains z = true → a.tail z ≠ .ok last → b.values z = a.values z
  values_made : b.values made = .ok [value]
  tail_broken : ∀ z q, a.contains z = true → a.tail z = .error ⟨q⟩ → b.tail z = .error ⟨q⟩
  contains : ∀ z, b.contains z = (a.contains z || z == made)
  get : ∀ z, a.contains z = true → b.get z = a.get z
  next : ∀ z, a.contains z = true → z ≠ last → b.next z = a.next z
  next_last : b.next last = .ok (some made)
  live : b.live = a.live + 1

section Added

variable {last z : NodeRef} {v value : α} {nodes : List (NodeRef × α)} {e : Option NodeRef}

/-- Adding a node changes what is found under the reference of the last node and its own only. -/
theorem Ledger.look_addBehind_of_ne (h : Ledger a ids) (hlast : a.contains last = true) {q : NodeRef}
    (hq : q ∈ ids) (hne : q ≠ last) : (a.addBehind last value).look q = a.look q := by
  have hold : q ≠ (a.alloc value).1 := ne_of_mem_of_not_mem hq (h.alloc_ref_not_mem value)
  rw [h.wellFormed.look_addBehind hlast, if_neg hne, if_neg hold]

theorem Ledger.contains_addBehind_of_mem (h : Ledger a ids) (hz : a.contains z = true) :
    (a.addBehind last value).contains z = true := by
  rw [h.wellFormed.contains_addBehind, hz, Bool.true_or]

/-- The new node is found behind the one it is linked to. -/
theorem Ledger.path_addBehind_last (h : Ledger a ids) (hlast : a.look last = some (v, none)) :
    Path (a.addBehind last value).look last [(last, v), ((a.alloc value).1, value)] none := by
  have hlive := contains_of_look hlast
  have hne : (a.alloc value).1 ≠ last :=
    (ne_of_mem_of_not_mem (h.mem_of_look hlast) (h.alloc_ref_not_mem value)).symm
  refine .link (q := (a.alloc value).1) ?_ (.last ?_)
  · rw [h.wellFormed.look_addBehind hlive, if_pos rfl, hlast]
    rfl
  · rw [h.wellFormed.look_addBehind hlive, if_neg hne, if_pos rfl]

/-- A walk to the node that is added behind goes on over the new one. -/
theorem Ledger.path_addBehind (h : Ledger a ids)
    (hpath : Path a.look z (nodes ++ [(last, v)]) none) :
    Path (a.addBehind last value).look z (nodes ++ [(last, v), ((a.alloc value).1, value)])
      none := by
  obtain ⟨hleads, hend⟩ := hpath.split
  have hlast : a.look last = some (v, none) := hend.look_head
  refine Leads.path (hleads.congr ?_) (h.path_addBehind_last hlast)
  intro x hx
  -- the nodes on the way to the end have links, and the end has none
  obtain ⟨p, hlook⟩ := hleads.look_of_mem hx
  apply h.look_addBehind_of_ne (contains_of_look hlast) (h.mem_of_look hlook)
  rintro rfl
  rw [hlast] at hlook
  cases hlook

/-- A walk that breaks, or ends at another node, does not come to the new one. -/
theorem Ledger.path_addBehind_of_ne (h : Ledger a ids) (hlast : a.look last = some (v, none))
    (hz : a.contains z = true) (hpath : Path a.look z nodes e)
    (hother : e = none → ∀ x, nodes.getLast? = some x → x.1 ≠ last) :
    Path (a.addBehind last value).look z nodes e := by
  have hlive := contains_of_look hlast
  apply hpath.congr
  · intro x hx
    obtain ⟨l, hlook⟩ := hpath.look_of_mem hx
    apply h.look_addBehind_of_ne hlive (h.mem_of_look hlook)
    intro heq
    have hnone : a.look x.1 = some (x.2, none) := by
      rw [heq, hlast] at hlook
      cases hlook
      rw [heq, hlast]
    obtain ⟨hend, he⟩ := hpath.getLast?_of_look hx hnone
    exact hother he x hend heq
  · rintro q rfl
    have hnone := hpath.look_end
    rw [h.look_addBehind_of_ne hlive (h.end_mem_of_path hpath (h.mem_of_contains z hz)), hnone]
    rintro rfl
    rw [hlast] at hnone
    cases hnone

/-- The values of a chain that ends where the node is added are followed by the new one. -/
theorem Ledger.values_addBehind (h : Ledger a ids) (htail : a.tail z = .ok last) {vs : List α}
    (hvalues : a.values z = .ok vs) : (a.addBehind last value).values z = .ok (vs ++ [value]) := by
  obtain ⟨nodes, v, hpath⟩ := h.tail_eq_ok_iff.1 htail
  have hz : a.contains z = true := contains_of_path_ne_nil hpath (by simp)
  have hlast := h.mem_of_look hpath.split.2.look_head
  rw [h.values_of_path hz hpath] at hvalues
  cases hvalues
  rw [(h.addBehind hlast value).values_of_path (h.contains_addBehind_of_mem hz)
    (h.path_addBehind hpath)]
  simp

/-- The values of any other chain are the same. -/
theorem Ledger.values_addBehind_of_ne (h : Ledger a ids) (hlast : a.look last = some (v, none))
    (hz : a.contains z = true) (htail : a.tail z ≠ .ok last) :
    (a.addBehind last value).values z = a.values z := by
  obtain ⟨nodes, e, hpath⟩ := h.exists_path z
  have hother : e = none → ∀ x, nodes.getLast? = some x → x.1 ≠ last := by
    rintro rfl x hx rfl
    obtain ⟨before, rfl⟩ := List.getLast?_eq_some_iff.1 hx
    exact htail (h.tail_eq_ok_iff.2 ⟨before, x.2, hpath⟩)
  rw [h.values_of_path hz hpath, (h.addBehind (h.mem_of_look hlast) value).values_of_path
    (h.contains_addBehind_of_mem hz) (h.path_addBehind_of_ne hlast hz hpath hother)]

theorem Ledger.get_addBehind (h : Ledger a ids) (hlast : a.look last = some (v, none))
    (hz : a.contains z = true) : (a.addBehind last value).get z = a.get z := by
  rw [get_eq, get_eq]
  by_cases hzl : z = last
  · rw [h.wellFormed.look_addBehind (contains_of_look hlast), if_pos hzl, hzl, hlast]
    rfl
  · rw [h.look_addBehind_of_ne (contains_of_look hlast) (h.mem_of_contains z hz) hzl]

end Added

theorem Ledger.extendsAt (h : Ledger a ids) {last : NodeRef} {v : α}
    (hlast : a.look last = some (v, none)) (value : α) :
    ExtendsAt a (a.addBehind last value) last (a.alloc value).1 value := by
  have hlive := contains_of_look hlast
  have hafter := h.addBehind (h.mem_of_look hlast) value
  have hmade : Path (a.addBehind last value).look (a.alloc value).1 [((a.alloc value).1, value)]
      none := (h.path_addBehind_last hlast).tail
  exact {
    fresh := contains_eq_false_iff_look.2 (h.wellFormed.look_alloc_ref value)
    extended := fun z nodes v => h.path_addBehind
    kept := fun z nodes e => h.path_addBehind_of_ne hlast
    path_made := hmade
    values_extended := fun z vs htail hvalues => h.values_addBehind htail hvalues
    values_kept := fun z => h.values_addBehind_of_ne hlast
    values_made := hafter.values_of_path (contains_of_path_ne_nil hmade (List.cons_ne_nil _ _)) hmade
    tail_broken := by
      intro z q hz htail
      obtain ⟨nodes, hpath⟩ := h.tail_eq_error_iff.1 htail
      exact hafter.tail_eq_error_iff.2 ⟨nodes, h.path_addBehind_of_ne hlast hz hpath nofun⟩
    contains := h.wellFormed.contains_addBehind last value
    get := fun z => h.get_addBehind hlast
    next := by
      intro z hz hzl
      rw [next_eq, next_eq, h.look_addBehind_of_ne hlive (h.mem_of_contains z hz) hzl]
    next_last := by
      rw [next_eq, h.wellFormed.look_addBehind hlive, if_pos rfl, hlast]
      rfl
    live := by rw [Arena.addBehind, live_modify, live_alloc] }

/-- In every state that a run from the empty arena reaches, adding a value to a chain that has a last
node succeeds, whichever node of the chain is named.  The walks that end at that last node go on over
the new one, and every other walk, value and link is as it was. -/
theorem append_extends_one_chain (calls : List (Call NodeRef α σ)) {root last : NodeRef}
    {nodes : List (NodeRef × α)} {v : α}
    (hpath : Path (stateAfter act calls empty).look root (nodes ++ [(last, v)]) none) (value : α) :
    ∃ made b, (stateAfter act calls empty).append root value = (.ok made, b) ∧
      ExtendsAt (stateAfter act calls empty) b last made value := by
  have hledger := Ledger.empty.run calls
  refine ⟨_, _, hledger.append_of_last hpath List.getLast?_concat value, ?_⟩
  exact hledger.extendsAt hpath.split.2.look_head value

/-- Two chains of two nodes, the first of which has lost its second node. -/
def besideBroken : List (Call NodeRef Nat Unit) :=
  [.alloc 1, .append ⟨0, 0⟩ 2, .alloc 3, .append ⟨2, 0⟩ 4, .free ⟨1, 0⟩]

/-- The node that is added to the second chain takes the slot that the first chain still links to,
and is not seen from there. -/
theorem append_extends_one_chain_besideBroken :
    ∃ b, (stateAfter act besideBroken empty).append ⟨2, 0⟩ 5 = (.ok ⟨1, 1⟩, b) ∧
      b.values ⟨2, 0⟩ = .ok [3, 4, 5] ∧ b.values ⟨0, 0⟩ = .ok [1] ∧
      b.next ⟨0, 0⟩ = .ok (some ⟨1, 0⟩) ∧ b.tail ⟨0, 0⟩ = .error ⟨⟨1, 0⟩⟩ := by
  have hpath : Path (stateAfter act besideBroken empty).look ⟨2, 0⟩
      ([(⟨2, 0⟩, 3)] ++ [(⟨3, 0⟩, 4)]) none := .link rfl (.last rfl)
  obtain ⟨made, b, happend, hextends⟩ := append_extends_one_chain besideBroken hpath 5
  obtain rfl : ⟨1, 1⟩ = made := Except.ok.inj (congrArg Prod.fst happend)
  refine ⟨b, happend, hextends.values_extended ⟨2, 0⟩ [3, 4] rfl rfl, ?_, ?_, ?_⟩
  · exact hextends.values_kept ⟨0, 0⟩ rfl nofun
  · exact hextends.next ⟨0, 0⟩ rfl (by decide)
  · exact hextends.tail_broken ⟨0, 0⟩ ⟨1, 0⟩ rfl rfl

end ScanKit.Arena
