import ScanKit.Proofs.Arena.Append

/-!
# Making a chain and removing it

A chain of values is made node by node, each linked behind the one before.  Its nodes have new
references, whatever slots they take, so nothing that was issued before leads to one of them, and
removing the chain leaves what there was before it.  Each value may as well be added from the first
node on, since the last node that a walk from there meets is the one that was made last.
-/

universe u v

namespace ScanKit.Arena

variable {α : Type u} {σ : Type v} {a b : Arena α} {ids : List NodeRef}

/-! ## From the first node on -/

/-- Adds values to a chain one by one, each from the first node on, up to the first that is
refused. -/
def appendEachFrom (root : NodeRef) : List α → Arena α → Except StaleRef Unit × Arena α
  | [], a => (.ok (), a)
  | value :: values, a => match a.append root value with
    | (.ok _, b) => appendEachFrom root values b
    | (.error e, b) => (.error e, b)

/-- Makes a chain of values, each of which is added from the first node on. -/
def chainFrom (a : Arena α) : List α → Except StaleRef (Option NodeRef) × Arena α
  | [] => (.ok none, a)
  | value :: values =>
      let made := a.alloc value
      let added := appendEachFrom made.1 values made.2
      (added.1.map fun _ => some made.1, added.2)

/-! ## What stays as it was -/

/-- What there is in an arena is in the next one, with its value, its link and its walk. -/
structure Keeps (a b : Arena α) : Prop where
  contains : ∀ q, a.contains q = true → b.contains q = true
  get : ∀ q, a.contains q = true → b.get q = a.get q
  next : ∀ q, a.contains q = true → b.next q = a.next q
  walk : ∀ q, a.contains q = true → b.walk q = a.walk q

/-- All stays as it was if the references that were issued lead to the same. -/
theorem Ledger.keeps {ids' : List NodeRef} (ha : Ledger a ids) (hb : Ledger b ids')
    (hlook : ∀ q ∈ ids, b.look q = a.look q) : Keeps a b where
  contains := by
    intro q hq
    rwa [contains_eq_isSome_look, hlook q (ha.mem_of_contains q hq), ← contains_eq_isSome_look]
  get := by
    intro q hq
    rw [get_eq, get_eq, hlook q (ha.mem_of_contains q hq)]
  next := by
    intro q hq
    rw [next_eq, next_eq, hlook q (ha.mem_of_contains q hq)]
  walk := by
    intro q hq
    obtain ⟨nodes, e, hpath⟩ := ha.exists_path q
    have hpath' : Path b.look q nodes e := by
      apply hpath.congr
      · intro x hx
        obtain ⟨l, hx⟩ := hpath.look_of_mem hx
        exact hlook x.1 (ha.mem_of_look hx)
      · rintro p rfl
        rw [hlook p (ha.end_mem_of_path hpath (ha.mem_of_contains q hq)), hpath.look_end]
    rw [ha.walk_eq_of_path hpath, hb.walk_eq_of_path hpath']

/-! ## A chain that is made -/

/-- From one arena, which has issued `ids`, to the next these nodes are made as a chain, and nothing
else changes. -/
structure Makes (a : Arena α) (ids : List NodeRef) (b : Arena α) (root : NodeRef)
    (nodes : List (NodeRef × α)) : Prop where
  ledger : Ledger b (ids ++ nodes.map (·.1))
  path : Path b.look root nodes none
  kept : ∀ q ∈ ids, b.look q = a.look q
  live : b.live = a.live + nodes.length

theorem Ledger.makes_alloc (h : Ledger a ids) (value : α) :
    Makes a ids (a.alloc value).2 (a.alloc value).1 [((a.alloc value).1, value)] where
  ledger := h.alloc value
  path := .last (by rw [h.wellFormed.look_alloc, if_pos rfl])
  kept := by
    intro q hq
    rw [h.wellFormed.look_alloc, if_neg (ne_of_mem_of_not_mem hq (h.alloc_ref_not_mem value))]
  live := live_alloc a value

namespace Makes

variable {root last : NodeRef} {v : α} {nodes : List (NodeRef × α)}

/-- The nodes that are made were not there before. -/
theorem not_mem (h : Makes a ids b root nodes) {q : NodeRef} (hq : q ∈ nodes.map (·.1)) :
    q ∉ ids :=
  fun hmem => (List.nodup_append.1 h.ledger.nodup).2.2 q hmem q hq rfl

/-- A node that is added behind the last one is made as part of the chain. -/
theorem addBehind (h : Makes a ids b root (nodes ++ [(last, v)])) (value : α) :
    Makes a ids (b.addBehind last value) root
      (nodes ++ [(last, v)] ++ [((b.alloc value).1, value)]) := by
  have hlook : b.look last = some (v, none) := h.path.split.2.look_head
  have hlast : last ∉ ids := h.not_mem (by simp)
  refine ⟨?_, ?_, ?_, ?_⟩
  · have hledger := h.ledger.addBehind (h.ledger.mem_of_look hlook) value
    rwa [List.map_append, ← List.append_assoc]
  · rw [List.append_assoc]
    exact h.ledger.path_addBehind h.path
  · intro q hq
    rw [h.ledger.look_addBehind_of_ne (contains_of_look hlook) (List.mem_append_left _ hq)
      (ne_of_mem_of_not_mem hq hlast), h.kept q hq]
  · rw [Arena.addBehind, live_modify, live_alloc, h.live, Nat.add_assoc, List.length_append,
      List.length_append, List.length_append, Nat.add_assoc]
    rfl

/-- Values that are added behind the last node one by one are made as part of the chain, and so they
are if each is added from the first node on. -/
theorem appendEach (h : Makes a ids b root (nodes ++ [(last, v)])) (values : List α) :
    appendEachFrom root values b = (.ok (), b.appendEach last values) ∧
      ∃ more : List (NodeRef × α), more.map (·.2) = values ∧
        Makes a ids (b.appendEach last values) root (nodes ++ [(last, v)] ++ more) := by
  induction values generalizing b nodes last v with
  | nil => exact ⟨rfl, [], rfl, by rwa [List.append_nil]⟩
  | cons value values ih =>
      have hroot := h.ledger.append_of_last h.path List.getLast?_concat value
      have hlast := h.ledger.append_of_last h.path.split.2 List.getLast?_singleton value
      obtain ⟨hfrom, more, rfl, hmakes⟩ := ih (h.addBehind value)
      rw [appendEachFrom, hroot, Arena.appendEach, hlast]
      refine ⟨hfrom, ((b.alloc value).1, value) :: more, rfl, ?_⟩
      rwa [List.append_assoc _ [_] more] at hmakes

end Makes

/-- A chain of values is made of that many nodes, and none of them is refused. -/
theorem Ledger.makes_chain (h : Ledger a ids) (value : α) (values : List α) :
    ∃ root b nodes, a.chain (value :: values) = (some root, b) ∧
      a.chainFrom (value :: values) = (.ok (some root), b) ∧
      nodes.map (·.2) = value :: values ∧ Makes a ids b root nodes := by
  have hfirst : Makes a ids _ _ ([] ++ [((a.alloc value).1, value)]) := h.makes_alloc value
  obtain ⟨hfrom, more, rfl, hmakes⟩ := hfirst.appendEach values
  refine ⟨_, _, _, rfl, ?_, ?_, hmakes⟩
  · rw [chainFrom, hfrom]
    rfl
  · rfl

/-! ## A chain that is removed again -/

/-- What leads to the same is as many nodes. -/
theorem Ledger.live_eq_of_look {ids' : List NodeRef} (ha : Ledger a ids)
    (hb : Ledger b (ids ++ ids')) (hlook : ∀ q, b.look q = a.look q) : b.live = a.live := by
  have hcontains : b.contains = a.contains := by
    funext q
    rw [contains_eq_isSome_look, hlook, contains_eq_isSome_look]
  have hnone : ids'.countP a.contains = 0 := by
    rw [List.countP_eq_zero]
    intro q hq hlive
    exact (List.nodup_append.1 hb.nodup).2.2 q (ha.mem_of_contains q hlive) q hq rfl
  rw [hb.live_eq, hcontains, List.countP_append, hnone, ha.live_eq, Nat.add_zero]

namespace Makes

variable {root : NodeRef} {nodes : List (NodeRef × α)}

/-- The nodes that were made are there and distinct, so they can be removed. -/
theorem discardAll (h : Makes a ids b root nodes) :
    Ledger (b.discardAll (nodes.map (·.1))) (ids ++ nodes.map (·.1)) ∧
      ∀ q, (b.discardAll (nodes.map (·.1))).look q =
        if q ∈ nodes.map (·.1) then none else b.look q :=
  h.ledger.discardAll (h.ledger.nodup_of_path h.path) fun _ => contains_of_path h.path

/-- What an arena leads to after nodes that were made are removed again is what it led to before. -/
theorem look_discardAll (ha : Ledger a ids) (h : Makes a ids b root nodes) (q : NodeRef) :
    (b.discardAll (nodes.map (·.1))).look q = a.look q := by
  have hnone : q ∉ ids → a.look q = none := fun hq =>
    contains_eq_false_iff_look.1 (Bool.eq_false_iff.2 (mt (ha.mem_of_contains q) hq))
  rw [h.discardAll.2]
  split
  · next hq => rw [hnone (h.not_mem hq)]
  · next hq =>
      by_cases hids : q ∈ ids
      · exact h.kept q hids
      · have hissued : q ∉ ids ++ nodes.map (·.1) := by simp_all
        rw [hnone hids, ← contains_eq_false_iff_look, Bool.eq_false_iff]
        exact mt (h.ledger.mem_of_contains q) hissued

end Makes

/-- An arena has the nodes of another and no others, with the same values, links and walks. -/
structure Restores (a c : Arena α) : Prop where
  keeps : Keeps a c
  contains : ∀ q, c.contains q = a.contains q
  live : c.live = a.live

/-- In every state that a run from the empty arena reaches, a chain of values can be made, whether
each value is added behind the last node or from the first one on.  The chain has these values, and
what there was before stays as it was.  Removing the chain counts its nodes, of which none is there
after that, and leaves what there was before. -/
theorem freeChain_undoes_chain (calls : List (Call NodeRef α σ)) {values : List α}
    (hvalues : values ≠ []) :
    ∃ root b, (stateAfter act calls empty).chain values = (some root, b) ∧
      (stateAfter act calls empty).chainFrom values = (.ok (some root), b) ∧
      b.values root = .ok values ∧ b.chainLength root = .ok values.length ∧
      b.live = (stateAfter act calls empty).live + values.length ∧
      Keeps (stateAfter act calls empty) b ∧
      ∃ c, b.freeChain root = .ok (values.length, c) ∧
        Restores (stateAfter act calls empty) c ∧
        ∀ x ∈ (b.walk root).nodes, c.contains x.1 = false := by
  have hledger := Ledger.empty.run calls
  obtain ⟨value, values, rfl⟩ := List.exists_cons_of_ne_nil hvalues
  obtain ⟨root, b, nodes, hchain, hfrom, hnodes, hmakes⟩ := hledger.makes_chain value values
  have hlength : nodes.length = (value :: values).length := by rw [← hnodes, List.length_map]
  have hroot : b.contains root = true := by
    apply contains_of_path_ne_nil hmakes.path
    rintro rfl
    cases hnodes
  have hwalk := hmakes.ledger.walk_eq_of_path hmakes.path
  have hlook := hmakes.look_discardAll hledger
  have hafter := hmakes.discardAll.1
  refine ⟨root, b, hchain, hfrom, ?_, ?_, hlength ▸ hmakes.live,
    hledger.keeps hmakes.ledger hmakes.kept, b.discardAll (nodes.map (·.1)), ?_, ?_, ?_⟩
  · rw [hmakes.ledger.values_of_path hroot hmakes.path, hnodes]
  · rw [chainLength, hwalk, ← hlength]
    rfl
  · rw [hmakes.ledger.freeChain_eq, if_pos hroot, hwalk, hlength]
  · refine ⟨hledger.keeps hafter fun q _ => hlook q, ?_, hledger.live_eq_of_look hafter hlook⟩
    intro q
    rw [contains_eq_isSome_look, hlook, contains_eq_isSome_look]
  · intro x hx
    rw [hwalk] at hx
    rw [contains_eq_false_iff_look, hmakes.discardAll.2, if_pos (List.mem_map_of_mem hx)]

/-- A chain that lost its second node, and a slot that was emptied after that. -/
def scattered : List (Call NodeRef Nat Unit) :=
  [.alloc 1, .append ⟨0, 0⟩ 2, .append ⟨0, 0⟩ 3, .alloc 4, .free ⟨1, 0⟩, .free ⟨3, 0⟩]

/-- The nodes of a chain of three take both empty slots and a new one.  The broken chain still leads
to the reference that it breaks at, and is what is left with its third node in the end. -/
theorem freeChain_undoes_chain_scattered :
    ∃ b c, (stateAfter act scattered empty).chain [5, 6, 7] = (some ⟨3, 1⟩, b) ∧
      b.values ⟨3, 1⟩ = .ok [5, 6, 7] ∧ b.live = 5 ∧ b.next ⟨0, 0⟩ = .ok (some ⟨1, 0⟩) ∧
      b.freeChain ⟨3, 1⟩ = .ok (3, c) ∧ c.live = 2 ∧ c.contains ⟨1, 1⟩ = false ∧
      c.get ⟨2, 0⟩ = .ok 3 := by
  obtain ⟨root, b, hchain, -, hvalues, -, hlive, hkeeps, c, hfree, hrestores, -⟩ :=
    freeChain_undoes_chain scattered (List.cons_ne_nil 5 [6, 7])
  obtain rfl : ⟨3, 1⟩ = root := Option.some.inj (congrArg Prod.fst hchain)
  exact ⟨b, c, hchain, hvalues, hlive, hkeeps.next ⟨0, 0⟩ rfl, hfree, hrestores.live,
    hrestores.contains ⟨1, 1⟩, hrestores.keeps.get ⟨2, 0⟩ rfl⟩

end ScanKit.Arena
