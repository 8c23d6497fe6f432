import ScanKit.Proofs.Arena.Answers
import ScanKit.Proofs.Arena.Loop
import Mathlib.Logic.Relation

/-!
# Chains are acyclic and do not merge

A reference is linked to once, right when it is issued, and from a node that has no link yet.  So no
two nodes ever store the same link (`Unshared`), resolving or not, and links lead from references
that were issued earlier to ones that were issued later.  Neither is to be seen in the state: the
order of issue is that of the ledger, and a slot says nothing about it.  Following links from any
node therefore meets distinct nodes, no more than are live, and every loop on a chain comes to an
end.
-/

universe u v w

namespace ScanKit.Arena

variable {α : Type u} {σ : Type v} {a b : Arena α} {ids : List NodeRef}

/-! ## Links -/

/-- A node stores a link, whether or not it resolves. -/
def Links (a : Arena α) (r q : NodeRef) : Prop := a.next r = .ok (some q)

theorem links_iff {r q : NodeRef} :
    a.Links r q ↔ ∃ value, a.look r = some (value, some q) := by
  rw [Links]
  rcases hlook : a.look r with _ | ⟨value, l⟩
  · simp [next_of_look_eq_none hlook]
  · simp [next_of_look_eq_some hlook]

/-- No two nodes store the same link. -/
def Unshared (a : Arena α) : Prop := ∀ p q r, a.Links p r → a.Links q r → p = q

theorem unshared_empty : (empty : Arena α).Unshared := by
  intro p q r hp
  simp [links_iff, look] at hp

/-- Links that were stored before and are not shared then are not shared. -/
theorem Unshared.of_links (h : a.Unshared) (hlinks : ∀ p r, b.Links p r → a.Links p r) :
    b.Unshared := fun p q r hp hq => h p q r (hlinks p r hp) (hlinks q r hq)

/-- A link to a reference that no node links to is not shared. -/
theorem Unshared.link (h : a.Unshared) {r p : NodeRef} (hfresh : ∀ q, ¬ a.Links q p) :
    (a.modify r fun n => { n with next? := some p }).Unshared := by
  -- a link is an old one, or the new one
  have hlinks : ∀ q t, (a.modify r fun n => { n with next? := some p }).Links q t →
      (q = r ∧ t = p) ∨ a.Links q t := by
    intro q t hq
    obtain ⟨value, hlook⟩ := links_iff.1 hq
    rw [look_link] at hlook
    split at hlook
    · rename_i hqr
      obtain ⟨c, -, hc⟩ := Option.map_eq_some_iff.1 hlook
      cases hc
      exact .inl ⟨hqr, rfl⟩
    · exact .inr (links_iff.2 ⟨value, hlook⟩)
  intro q q' t hq hq'
  rcases hlinks q t hq with ⟨rfl, rfl⟩ | hold
  · rcases hlinks q' t hq' with ⟨rfl, -⟩ | hold'
    · rfl
    · exact absurd hold' (hfresh q')
  · rcases hlinks q' t hq' with ⟨-, rfl⟩ | hold'
    · exact absurd hold (hfresh q)
    · exact h q q' t hold hold'

/-! ## Links over a run -/

/-- A node that is made has no link. -/
theorem WellFormed.links_alloc (h : a.WellFormed) (value : α) {p r : NodeRef}
    (hlink : (a.alloc value).2.Links p r) : a.Links p r := by
  obtain ⟨v, hlook⟩ := links_iff.1 hlink
  rw [h.look_alloc] at hlook
  split at hlook
  · cases hlook
  · exact links_iff.2 ⟨v, hlook⟩

theorem links_set {r p q : NodeRef} {value : α}
    (hlink : (a.modify r fun n => { n with value }).Links p q) : a.Links p q := by
  obtain ⟨v, hlook⟩ := links_iff.1 hlink
  rw [look_set] at hlook
  split at hlook
  · rename_i hpr
    obtain ⟨⟨v', l⟩, hold, hc⟩ := Option.map_eq_some_iff.1 hlook
    cases hc
    exact links_iff.2 ⟨v', hpr ▸ hold⟩
  · exact links_iff.2 ⟨v, hlook⟩

namespace Ledger

/-- A reference that is about to be issued is linked to by no node. -/
theorem not_links_alloc_ref (h : Ledger a ids) (value : α) (q : NodeRef) :
    ¬ (a.alloc value).2.Links q (a.alloc value).1 := by
  intro hlink
  obtain ⟨v, hlook⟩ := links_iff.1 (h.wellFormed.links_alloc value hlink)
  exact h.alloc_ref_not_mem value (h.link_down q v _ hlook).1

/-- Removing nodes makes no link. -/
theorem links_discardAll (h : Ledger a ids) {rs : List NodeRef} (hnodup : rs.Nodup)
    (hlive : ∀ r ∈ rs, a.contains r = true) {p q : NodeRef} (hlink : (a.discardAll rs).Links p q) :
    a.Links p q := by
  obtain ⟨v, hlook⟩ := links_iff.1 hlink
  rw [(h.discardAll hnodup hlive).2] at hlook
  split at hlook
  · cases hlook
  · exact links_iff.2 ⟨v, hlook⟩

/-- A change keeps links unshared. -/
theorem unshared_change (h : Ledger a ids) (hunshared : a.Unshared) {issued : List NodeRef}
    (hchange : Change a issued b) : b.Unshared := by
  cases hchange with
  | same => exact hunshared
  | alloc value => exact hunshared.of_links fun p r => h.wellFormed.links_alloc value
  | addBehind _ value =>
      have halloc := hunshared.of_links fun p r => h.wellFormed.links_alloc value
      exact halloc.link (h.not_links_alloc_ref value)
  | set r value => exact hunshared.of_links fun p q => links_set
  | discardAll hnodup hlive => exact hunshared.of_links fun p q => h.links_discardAll hnodup hlive
  | clear =>
      intro p q r hp
      simp [links_iff] at hp

/-- A run keeps links unshared. -/
theorem unshared_run (h : Ledger a ids) (hunshared : a.Unshared)
    (calls : List (Call NodeRef α σ)) : (stateAfter Arena.act calls a).Unshared := by
  induction calls generalizing a ids with
  | nil => exact hunshared
  | cons c calls ih => exact ih (h.act c) (h.unshared_change hunshared (h.change_act c))

/-! ## No way back -/

/-- Links lead down the list, however many of them are followed. -/
theorem idxOf_lt_of_transGen (h : Ledger a ids) {p q : NodeRef}
    (hlinks : Relation.TransGen a.Links p q) : ids.idxOf p < ids.idxOf q := by
  have hone : ∀ {p q : NodeRef}, a.Links p q → ids.idxOf p < ids.idxOf q := by
    intro p q hlink
    obtain ⟨v, hlook⟩ := links_iff.1 hlink
    exact (h.link_down p v q hlook).2
  induction hlinks with
  | single hlink => exact hone hlink
  | tail _ hlink ih => exact Nat.lt_trans ih (hone hlink)

/-- A path is no longer than there are live nodes. -/
theorem length_le_live (h : Ledger a ids) {r : NodeRef} {nodes : List (NodeRef × α)}
    {e : Option NodeRef} (hpath : Path a.look r nodes e) : nodes.length ≤ a.live := by
  have hsub : nodes.map (·.1) ⊆ ids.filter a.contains := by
    intro q hq
    have hlive := contains_of_path hpath hq
    exact List.mem_filter.2 ⟨h.mem_of_contains q hlive, hlive⟩
  have hle := (List.subperm_of_subset (h.nodup_of_path hpath) hsub).length_le
  rwa [List.length_map, ← List.countP_eq_length_filter, ← h.live_eq] at hle

end Ledger

/-- In every state that a run from the empty arena reaches, no two nodes store the same link, no
links lead from a node back to it, and following links from any reference meets distinct nodes, no
more than are live, up to one without a link or to a link that does not resolve.  So every loop on a
chain comes to an end, at the latest one turn after as many as there are live nodes. -/
theorem chains_acyclic_unshared (calls : List (Call NodeRef α σ)) :
    (stateAfter act calls empty).Unshared ∧
      (∀ r, ¬ Relation.TransGen (stateAfter act calls empty).Links r r) ∧
      ∀ r, (∃ nodes e, Path (stateAfter act calls empty).look r nodes e ∧
          (nodes.map (·.1)).Nodup ∧
          (∀ x ∈ nodes, (stateAfter act calls empty).contains x.1 = true) ∧
          nodes.length ≤ (stateAfter act calls empty).live) ∧
        (stateAfter act calls empty).LoopsEndWithin ((stateAfter act calls empty).live + 1) r := by
  have hledger := Ledger.empty.run calls
  refine ⟨Ledger.empty.unshared_run unshared_empty calls, ?_, ?_⟩
  · intro r hback
    exact Nat.lt_irrefl _ (hledger.idxOf_lt_of_transGen hback)
  · intro r
    obtain ⟨nodes, e, hpath⟩ := hledger.exists_path r
    have hle := hledger.length_le_live hpath
    refine ⟨⟨nodes, e, hpath, hledger.nodup_of_path hpath, ?_, hle⟩, ?_⟩
    · intro x hx
      exact contains_of_path hpath (List.mem_map_of_mem hx)
    · exact hledger.loopsEndWithin hpath (Nat.lt_succ_of_le hle)

/-- A chain of three nodes whose second node is removed, and its slot filled again. -/
def brokenRefilled : List (Call NodeRef Nat Unit) :=
  [.alloc 1, .append ⟨0, 0⟩ 2, .append ⟨0, 0⟩ 3, .free ⟨1, 0⟩, .alloc 4]

/-- The first node keeps its link, no other node has it, and the loop that removes what is left of
the chain from there ends within four turns. -/
theorem chains_acyclic_unshared_brokenRefilled :
    (stateAfter act brokenRefilled empty).Links ⟨0, 0⟩ ⟨1, 0⟩ ∧
      (∀ q, (stateAfter act brokenRefilled empty).Links q ⟨1, 0⟩ → q = ⟨0, 0⟩) ∧
      ∃ result, EndsWithin freeTurn 4
          (1, some ⟨1, 0⟩, (stateAfter act brokenRefilled empty).discard ⟨0, 0⟩) result ∧
        (stateAfter act brokenRefilled empty).freeChain ⟨0, 0⟩ = .ok result := by
  obtain ⟨hunshared, -, hloops⟩ := chains_acyclic_unshared.{0, 0, 0} brokenRefilled
  have hlink : (stateAfter act brokenRefilled empty).Links ⟨0, 0⟩ ⟨1, 0⟩ := rfl
  refine ⟨hlink, fun q hq => hunshared q ⟨0, 0⟩ ⟨1, 0⟩ hq hlink, ?_⟩
  exact (hloops ⟨0, 0⟩).2.freeChain ⟨1, some ⟨1, 0⟩⟩ _ rfl

end ScanKit.Arena
