import ScanKit.Proofs.Arena.Answers

/-!
# References over the history of an arena

Some calls remove nodes: `free` the one it is asked to, `freeChain` those that a walk from its root
meets, and `clear` all there are.  In every state that a run from the empty arena reaches, no
reference was issued twice, and a reference resolves exactly if it was issued and not removed.  So a
reference that was removed is refused from then on, also when its slot is filled again.
-/

universe u v

namespace ScanKit.Arena

variable {α : Type u} {σ : Type v} {a : Arena α} {ids : List NodeRef}

/-! ## What a call removes -/

/-- The references whose nodes a call removes, given the references issued before it. -/
def removedBy (a : Arena α) (ids : List NodeRef) : Call NodeRef α σ → List NodeRef
  | .free r => if a.contains r then [r] else []
  | .freeChain root => (a.walk root).nodes.map (·.1)
  | .clear => ids
  | _ => []

/-- A call removes references that were issued before it. -/
theorem Ledger.removedBy_subset (h : Ledger a ids) (c : Call NodeRef α σ) :
    ∀ r ∈ removedBy a ids c, r ∈ ids := by
  intro r hr
  cases c with
  | free q =>
      rw [removedBy] at hr
      split at hr
      · rename_i hq
        rw [List.mem_singleton.1 hr]
        exact h.mem_of_contains q hq
      · cases hr
  | freeChain root => exact h.mem_of_contains r (contains_of_path (h.walk_path root) hr)
  | clear => exact hr
  | alloc | append | set | get | next | tail | chainLength | values | find | contains | live =>
      cases hr

/-- What is there after a call was there and is not removed by it, or is made by it. -/
theorem Ledger.contains_act (h : Ledger a ids) (c : Call NodeRef α σ) (r : NodeRef) :
    (Arena.act c a).2.contains r = true ↔
      (a.contains r = true ∧ r ∉ removedBy a ids c) ∨ r ∈ (Arena.act c a).1.issued := by
  have hsame : a.contains r = true ↔ (a.contains r = true ∧ r ∉ []) ∨ r ∈ [] := by simp
  cases c with
  | alloc value =>
      simp [Arena.act, h.wellFormed.contains_alloc, removedBy]
  | append root value =>
      obtain ⟨nodes, e, hpath⟩ := h.exists_path root
      cases e with
      | some q =>
          rw [h.act_append_of_broken hpath]
          exact hsame
      | none =>
          obtain ⟨x, hlast, -⟩ := hpath.getLast
          rw [h.act_append_of_last hpath hlast]
          simp [h.wellFormed.contains_addBehind, removedBy]
  | set q value =>
      rw [act_set]
      cases a.look q with
      | none => exact hsame
      | some _ =>
          rw [contains_modify]
          exact hsame
  | free q =>
      rw [act_free, removedBy]
      cases hq : a.look q with
      | none => simp [contains_eq_isSome_look, hq]
      | some c =>
          have hlive : a.contains q = true := contains_of_look hq
          simp [contains_discard hlive, hlive]
  | freeChain root =>
      obtain ⟨nodes, e, hpath⟩ := h.exists_path root
      rw [h.act_freeChain hpath, removedBy, h.walk_eq_of_path hpath]
      cases hroot : a.look root with
      | none => simp [hpath.eq_nil_iff.2 hroot]
      | some _ =>
          have hall := h.discardAll (h.nodup_of_path hpath) fun _ => contains_of_path hpath
          rw [contains_eq_isSome_look, hall.2, contains_eq_isSome_look]
          split <;> simp_all
  | clear =>
      have hgone : (a.contains r = true ∧ r ∉ ids) ↔ False :=
        iff_false_intro fun hr => hr.2 (h.mem_of_contains r hr.1)
      simp [Arena.act, removedBy, hgone]
  | get | next | tail | chainLength | values | find | contains | live => exact hsame

/-- The references whose nodes the calls of a run remove, given the references issued before it. -/
def removedIn : List (Call NodeRef α σ) → Arena α → List NodeRef → List NodeRef
  | [], _, _ => []
  | c :: cs, a, ids => removedBy a ids c ++ removedIn cs (act c a).2 (ids ++ (act c a).1.issued)

/-- What was removed in a run is removed in every longer one. -/
theorem removedIn_subset_append (calls more : List (Call NodeRef α σ)) (a : Arena α)
    (ids : List NodeRef) : removedIn calls a ids ⊆ removedIn (calls ++ more) a ids := by
  induction calls generalizing a ids with
  | nil => exact List.nil_subset _
  | cons c calls ih =>
      refine List.append_subset.2 ⟨List.subset_append_left _ _, ?_⟩
      exact List.Subset.trans (ih (act c a).2 _) (List.subset_append_right _ _)

/-- What is there after a run was there or is made in it, and is not removed. -/
theorem Ledger.contains_run (h : Ledger a ids) (calls : List (Call NodeRef α σ)) (r : NodeRef) :
    (stateAfter Arena.act calls a).contains r = true ↔
      (a.contains r = true ∨ r ∈ issuedIn calls a) ∧ r ∉ removedIn calls a ids := by
  induction calls generalizing a ids with
  | nil => simp [stateAfter, issuedIn, answersOf, removedIn]
  | cons c calls ih =>
      -- what a run issues was not issued before, so no call before has removed it
      have hfresh : r ∈ issuedIn (c :: calls) a → r ∉ ids := fun hr hmem =>
        (List.nodup_append.1 (h.run (c :: calls)).nodup).2.2 r hmem r hr rfl
      have hsubset := h.removedBy_subset c r
      rw [issuedIn_cons, List.mem_append] at hfresh ⊢
      rw [stateAfter, ih (h.act c), h.contains_act c, removedIn, List.mem_append]
      tauto

/-- What was issued and is there later was there all the time. -/
theorem Ledger.contains_of_contains_run (h : Ledger a ids) {r : NodeRef} (hr : r ∈ ids)
    (calls : List (Call NodeRef α σ))
    (hlater : (stateAfter Arena.act calls a).contains r = true) : a.contains r = true := by
  obtain ⟨hlive | hissued, -⟩ := (h.contains_run calls r).1 hlater
  · exact hlive
  · exact absurd rfl ((List.nodup_append.1 (h.run calls).nodup).2.2 r hr r hissued)

/-! ## References that were removed -/

/-- What is asked of the node or the chain of a reference fails with an error that names the
reference, and adding to the chain makes nothing. -/
structure Refuses (a : Arena α) (r : NodeRef) : Prop where
  get : a.get r = .error ⟨r⟩
  set : ∀ value, a.set r value = .error ⟨r⟩
  next : a.next r = .error ⟨r⟩
  append : ∀ value, a.append r value = (.error ⟨r⟩, a)
  tail : a.tail r = .error ⟨r⟩
  chainLength : a.chainLength r = .error ⟨r⟩
  values : a.values r = .error ⟨r⟩
  free : a.free r = .error ⟨r⟩
  freeChain : a.freeChain r = .error ⟨r⟩

theorem refuses_of_contains_eq_false {r : NodeRef} (hr : a.contains r = false) : a.Refuses r := by
  have hnode : a.node? r = none := by simpa [contains] using hr
  have hwalk : a.walk r = ⟨[], some r⟩ := by simp [walk, follow, hnode]
  have htail : a.tail r = .error ⟨r⟩ := by simp [Arena.tail, hwalk, Walk.whole]
  exact {
    get := by simp [Arena.get, node, hnode, Except.map]
    set := fun value => by simp [Arena.set, node, hnode, Except.map]
    next := by simp [Arena.next, node, hnode, Except.map]
    append := fun value => by simp [Arena.append, htail]
    tail := htail
    chainLength := by simp [Arena.chainLength, hwalk, Walk.whole]
    values := by simp [Arena.values, node, hnode, Except.map]
    free := by simp [Arena.free, node, hnode, Except.map]
    freeChain := by simp [Arena.freeChain, node, hnode, Except.map] }

/-- No reference is issued twice. A reference resolves exactly if it was issued and not removed. One
that was removed is refused in every later state. -/
theorem references_never_aliased (calls : List (Call NodeRef α σ)) :
    (issuedIn calls empty).Nodup ∧
      (∀ r, (stateAfter act calls empty).contains r = true ↔
        r ∈ issuedIn calls empty ∧ r ∉ removedIn calls empty []) ∧
      ∀ r ∈ removedIn calls empty [], ∀ more : List (Call NodeRef α σ),
        (stateAfter act (calls ++ more) empty).Refuses r := by
  have hcontains : ∀ (calls : List (Call NodeRef α σ)) (r : NodeRef),
      (stateAfter act calls empty).contains r = true ↔
        r ∈ issuedIn calls empty ∧ r ∉ removedIn calls empty [] := by
    intro calls r
    rw [Ledger.empty.contains_run calls r, contains, node?_empty]
    simp
  refine ⟨?_, hcontains calls, ?_⟩
  · simpa using (Ledger.empty.run calls).nodup
  · intro r hr more
    have hremoved := removedIn_subset_append calls more empty [] hr
    apply refuses_of_contains_eq_false
    rw [Bool.eq_false_iff]
    intro hlive
    exact ((hcontains (calls ++ more) r).1 hlive).2 hremoved

/-- A node is made, removed, and its slot filled again. -/
def refilled : List (Call NodeRef Nat Unit) := [.alloc 1, .free ⟨0, 0⟩, .alloc 2]

theorem references_never_aliased_refilled :
    issuedIn refilled empty = [⟨0, 0⟩, ⟨0, 1⟩] ∧ ⟨0, 0⟩ ∈ removedIn refilled empty [] ∧
      (stateAfter act (refilled ++ [.clear, .alloc 3]) empty).Refuses ⟨0, 0⟩ := by
  have hremoved : ⟨0, 0⟩ ∈ removedIn refilled empty [] := by decide
  exact ⟨by decide, hremoved, (references_never_aliased refilled).2.2 _ hremoved _⟩

end ScanKit.Arena
