import ScanKit.Proofs.Arena.Acyclic
import ScanKit.Proofs.Arena.Append
import ScanKit.Proofs.Arena.History

/-!
# Removing one node of a chain

Removing a node splits its chain: what is behind it is a chain of its own, and what is before it
breaks at it.  The break is for good.  A node keeps its link for as long as it lives, since only a
node without one is ever given one, and the reference that it links to is never issued again, so
whatever takes the slot of the removed node is not reached over the old link.
-/

universe u v

namespace ScanKit.Arena

variable {α : Type u} {σ : Type v} {a b : Arena α} {ids : List NodeRef}

/-! ## Links over a continuation -/

namespace Ledger

/-- A node that outlives a change keeps its link. -/
theorem links_change (h : Ledger a ids) {p q : NodeRef} (hlink : a.Links p q)
    {issued : List NodeRef} (hchange : Change a issued b) (hlive : b.contains p = true) :
    b.Links p q := by
  obtain ⟨v, hlook⟩ := links_iff.1 hlink
  have hp := h.mem_of_look hlook
  cases hchange with
  | same => exact hlink
  | alloc value =>
      have hne : p ≠ (a.alloc value).1 := ne_of_mem_of_not_mem hp (h.alloc_ref_not_mem value)
      exact links_iff.2 ⟨v, by rw [h.wellFormed.look_alloc, if_neg hne, hlook]⟩
  | @addBehind last _ hlast value =>
      -- the node that is given a link had none
      have hne : p ≠ last := by
        rintro rfl
        rw [hlast] at hlook
        cases hlook
      exact links_iff.2 ⟨v, by rw [h.look_addBehind_of_ne (contains_of_look hlast) hp hne, hlook]⟩
  | set r value =>
      rw [links_iff]
      by_cases hpr : p = r
      · exact ⟨value, by rw [look_set, if_pos hpr, ← hpr, hlook, Option.map_some]⟩
      · exact ⟨v, by rw [look_set, if_neg hpr, hlook]⟩
  | @discardAll rs hnodup hrs =>
      have hall := (h.discardAll hnodup hrs).2 p
      by_cases hmem : p ∈ rs
      · simp [contains_eq_isSome_look, hall, hmem] at hlive
      · exact links_iff.2 ⟨v, by rw [hall, if_neg hmem, hlook]⟩
  | clear => simp at hlive

/-- A node that outlives a run keeps its link. -/
theorem links_run (h : Ledger a ids) {p q : NodeRef} (hlink : a.Links p q)
    (calls : List (Call NodeRef α σ))
    (hlive : (stateAfter Arena.act calls a).contains p = true) :
    (stateAfter Arena.act calls a).Links p q := by
  induction calls generalizing a ids with
  | nil => exact hlink
  | cons c calls ih =>
      obtain ⟨v, hlook⟩ := links_iff.1 hlink
      have hp := List.mem_append_left (Arena.act c a).1.issued (h.mem_of_look hlook)
      have hnow := (h.act c).contains_of_contains_run hp calls hlive
      exact ih (h.act c) (h.links_change hlink (h.change_act c) hnow) hlive

/-- A way over nodes that outlive a run leads where it led. -/
theorem leads_run (h : Ledger a ids) {r q : NodeRef} {nodes : List (NodeRef × α)}
    (hleads : Leads a.look r nodes q) (calls : List (Call NodeRef α σ))
    (hlive : ∀ x ∈ nodes, (stateAfter Arena.act calls a).contains x.1 = true) :
    ∃ nodes', nodes'.map (·.1) = nodes.map (·.1) ∧
      Leads (stateAfter Arena.act calls a).look r nodes' q := by
  apply hleads.relink
  intro x hx p hlook
  exact links_iff.1 (h.links_run (links_iff.2 ⟨x.2, hlook⟩) calls (hlive x hx))

end Ledger

/-! ## The two parts of a chain -/

/-- From each node on a list from which the others on it are all there, links meet the list from
there on and break at `q`, and nothing that needs the whole chain is to be had. -/
def BreaksAt (a : Arena α) (before : List (NodeRef × α)) (q : NodeRef) : Prop :=
  ∀ front y rest, before = front ++ y :: rest → (∀ z ∈ y :: rest, a.contains z.1 = true) →
    ∃ nodes, nodes.map (·.1) = (y :: rest).map (·.1) ∧ Path a.look y.1 nodes (some q) ∧
      a.tail y.1 = .error ⟨q⟩ ∧ a.chainLength y.1 = .error ⟨q⟩ ∧
      ∀ value, a.append y.1 value = (.error ⟨q⟩, a)

/-- A way to a node that was removed stays a way to a break. -/
theorem Ledger.breaksAt_run (h : Ledger a ids) {r q : NodeRef} {before : List (NodeRef × α)}
    (hleads : Leads a.look r before q) (hq : q ∈ ids) (hgone : a.contains q = false)
    (calls : List (Call NodeRef α σ)) : (stateAfter Arena.act calls a).BreaksAt before q := by
  rintro front y rest rfl hlive
  have hlater := h.run calls
  have hend : (stateAfter Arena.act calls a).look q = none := by
    rw [← contains_eq_false_iff_look, Bool.eq_false_iff]
    intro hlive
    rw [h.contains_of_contains_run hq calls hlive] at hgone
    cases hgone
  obtain ⟨nodes, hnodes, hway⟩ := h.leads_run hleads.split.2 calls hlive
  have hpath := hway.path (.broken hend)
  rw [List.append_nil] at hpath
  refine ⟨nodes, hnodes, hpath, hlater.tail_eq_error_iff.2 ⟨nodes, hpath⟩, ?_, ?_⟩
  · rw [chainLength, hlater.walk_eq_of_path hpath]
    rfl
  · exact hlater.append_of_broken hpath

/-- From one arena to the next the node `x` of a chain is removed, with nodes before and after it. -/
structure Splits (a b : Arena α) (before : List (NodeRef × α)) (x : NodeRef × α)
    (after : List (NodeRef × α)) : Prop where
  /-- A walk that does not pass through the node is as it was. -/
  kept : ∀ z nodes e, Path a.look z nodes e → (∀ y ∈ nodes, y.1 ≠ x.1) → Path b.look z nodes e
  /-- A walk from before the node breaks at it. -/
  broken : ∀ front y rest, before = front ++ y :: rest →
    Path b.look y.1 (y :: rest) (some x.1)
  /-- What is behind the node is a chain of its own. -/
  rest : ∀ y rest, after = y :: rest →
    Path b.look y.1 (y :: rest) none ∧ b.values y.1 = .ok ((y :: rest).map (·.2))

section Removed

variable {r : NodeRef} {before after : List (NodeRef × α)} {x : NodeRef × α} {e : Option NodeRef}

theorem Ledger.path_discard (h : Ledger a ids) (hlive : a.contains x.1 = true) {z : NodeRef}
    {nodes : List (NodeRef × α)} (hpath : Path a.look z nodes e) (hnodes : ∀ y ∈ nodes, y.1 ≠ x.1) :
    Path (a.discard x.1).look z nodes e := by
  have hone : ∀ q ∈ [x.1], a.contains q = true := by simpa using hlive
  exact h.path_discardAll (List.pairwise_singleton _ _) hone hpath (by simpa using hnodes)

/-- The way to a node stays where it is when the node is removed. -/
theorem Ledger.leads_discard (h : Ledger a ids) (hlive : a.contains x.1 = true)
    (hpath : Path a.look r (before ++ x :: after) e) : Leads (a.discard x.1).look r before x.1 := by
  have hnodup := h.nodup_of_path hpath
  rw [List.map_append, List.map_cons] at hnodup
  obtain ⟨-, -, hbefore⟩ := List.nodup_append.1 hnodup
  apply hpath.split.1.congr
  intro z hz
  rw [look_discard hlive, if_neg (hbefore z.1 (List.mem_map_of_mem hz) x.1 List.mem_cons_self)]

theorem Ledger.splits (h : Ledger a ids) (hpath : Path a.look r (before ++ x :: after) none) :
    Splits a (a.discard x.1) before x after := by
  have hlive : a.contains x.1 = true := contains_of_look hpath.split.2.look_head
  refine ⟨fun z nodes e => h.path_discard hlive, ?_, ?_⟩
  · rintro front y rest rfl
    have hgone : (a.discard x.1).look x.1 = none := by rw [look_discard hlive, if_pos rfl]
    simpa using (h.leads_discard hlive hpath).split.2.path (.broken hgone)
  · rintro y rest rfl
    have hafter := h.nodup_of_path hpath.split.2
    have hrest : Path (a.discard x.1).look y.1 (y :: rest) none := by
      apply h.path_discard hlive hpath.split.2.tail
      intro z hz heq
      exact (List.nodup_cons.1 hafter).1 (List.mem_map.2 ⟨z, hz, heq⟩)
    have hy : (a.discard x.1).contains y.1 = true :=
      contains_of_path_ne_nil hrest (List.cons_ne_nil y rest)
    exact ⟨hrest, (h.discard hlive).values_of_path hy hrest⟩

end Removed

/-- In every state that a run from the empty arena reaches, removing a node of a chain with an end
answers its value and its link and splits the chain there.  However the run goes on, the walk from a
node before the break meets the nodes up to the break for as long as these live, and everything that
needs the whole chain fails with the reference of the node that was removed. -/
theorem free_splits_for_good (calls : List (Call NodeRef α σ)) {r : NodeRef}
    {before after : List (NodeRef × α)} {x : NodeRef × α}
    (hpath : Path (stateAfter act calls empty).look r (before ++ x :: after) none) :
    ∃ b, (stateAfter act calls empty).free x.1 = .ok (⟨x.2, after.head?.map (·.1)⟩, b) ∧
      Splits (stateAfter act calls empty) b before x after ∧
      ∀ more : List (Call NodeRef α σ), (stateAfter act more b).BreaksAt before x.1 := by
  have hledger := Ledger.empty.run calls
  have hlook := hpath.split.2.look_head
  have hlive := contains_of_look hlook
  refine ⟨_, free_eq_ok_iff.2 ⟨look_eq_some_iff.1 hlook, rfl⟩, hledger.splits hpath, ?_⟩
  have hgone : ((stateAfter act calls empty).discard x.1).contains x.1 = false := by
    rw [contains_discard hlive, bne_self_eq_false, Bool.and_false]
  exact (hledger.discard hlive).breaksAt_run (hledger.leads_discard hlive hpath)
    (hledger.mem_of_look hlook) hgone

/-- A chain of four nodes. -/
def fourLinked : List (Call NodeRef Nat Unit) :=
  [.alloc 1, .append ⟨0, 0⟩ 2, .append ⟨0, 0⟩ 3, .append ⟨0, 0⟩ 4]

/-- The slot of the third node is filled twice after its removal, the second time with the first node
of another chain, and a value before the break is changed. -/
def refilledTwice : List (Call NodeRef Nat Unit) :=
  [.alloc 5, .free ⟨2, 1⟩, .alloc 6, .append ⟨2, 2⟩ 7, .set ⟨1, 0⟩ 8]

theorem free_splits_for_good_refilledTwice :
    ∃ b, (stateAfter act fourLinked empty).free ⟨2, 0⟩ = .ok (⟨3, some ⟨3, 0⟩⟩, b) ∧
      b.values ⟨3, 0⟩ = .ok [4] ∧ Path b.look ⟨0, 0⟩ [(⟨0, 0⟩, 1), (⟨1, 0⟩, 2)] (some ⟨2, 0⟩) ∧
      (stateAfter act refilledTwice b).contains ⟨2, 2⟩ = true ∧
      (stateAfter act refilledTwice b).tail ⟨0, 0⟩ = .error ⟨⟨2, 0⟩⟩ := by
  have hpath : Path (stateAfter act fourLinked empty).look ⟨0, 0⟩
      ([(⟨0, 0⟩, 1), (⟨1, 0⟩, 2)] ++ (⟨2, 0⟩, 3) :: [(⟨3, 0⟩, 4)]) none :=
    .link rfl (.link rfl (.link rfl (.last rfl)))
  obtain ⟨b, hfree, hsplits, hbreaks⟩ := free_splits_for_good fourLinked hpath
  obtain rfl : (stateAfter act fourLinked empty).discard ⟨2, 0⟩ = b :=
    (free_eq_ok_iff.1 hfree).2
  refine ⟨_, hfree, (hsplits.rest _ _ rfl).2, hsplits.broken [] _ _ rfl, by decide, ?_⟩
  obtain ⟨_, -, -, htail, -⟩ := hbreaks refilledTwice [] _ _ rfl (by decide)
  exact htail

end ScanKit.Arena
