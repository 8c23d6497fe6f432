import ScanKit.Proofs.Arena.Stepwise

/-!
# The parts of an arena fit together

What is live is kept three times over: in the slots, in the vacant list and in the count of nodes.
Every operation keeps them in step, whatever arena it is asked of and whether or not it succeeds:
the vacant list names the empty slots that can be filled again, and the count is that of the slots
with a node.  So a new node never takes the slot of another, the numbers that a removal changes stay
in range, and the link to an added node can always be written.
-/

universe u v w

namespace ScanKit

namespace Arena

variable {α : Type u} {σ : Type v} {a : Arena α} {ids : List NodeRef}

/-! ## Counting slots -/

/-- Changing one item of an array counts the new one in place of the old. -/
theorem countP_modify {β : Type u} {xs : Array β} {i : Nat} {x : β} (hx : xs[i]? = some x)
    (p : β → Bool) (f : β → β) :
    (xs.modify i f).countP p + (if p x then 1 else 0) =
      xs.countP p + (if p (f x) then 1 else 0) := by
  obtain ⟨hi, rfl⟩ := Array.getElem?_eq_some_iff.1 hx
  have hset : xs.modify i f = xs.set i (f xs[i]) := by
    apply Array.ext
    · simp
    · intro j hj hj'
      rw [Array.getElem_modify, Array.getElem_set]
      split
      · rename_i heq
        simp only [heq]
      · rfl
  have hle := Array.boole_getElem_le_countP (p := p) hi
  rw [hset, Array.countP_set hi]
  omega

/-- The number of slots with a node. -/
def occupied (a : Arena α) : Nat := a.slots.countP (·.node?.isSome)

theorem WellFormed.occupied_alloc (h : a.WellFormed) (value : α) :
    (a.alloc value).2.occupied = a.occupied + 1 := by
  have halloc := h.allocates value
  generalize a.alloc value = result at halloc ⊢
  cases halloc with
  | filled _ hslot hempty _ =>
      have hcount := countP_modify hslot (·.node?.isSome) (·.filled value)
      simpa [occupied, hempty, Slot.filled] using hcount
  | added _ => simp [occupied]

@[simp] theorem occupied_modify (a : Arena α) (r : NodeRef) (f : Node α → Node α) :
    (a.modify r f).occupied = a.occupied := by
  rw [modify]
  split
  · rename_i hr
    obtain ⟨s, hs, -, -⟩ := exists_slot hr
    have hcount := countP_modify hs (·.node?.isSome) fun s => { s with node? := s.node?.map f }
    simpa [occupied] using hcount
  · rfl

theorem occupied_discard {r : NodeRef} (hr : a.contains r = true) :
    (a.discard r).occupied + 1 = a.occupied := by
  obtain ⟨s, hs, -, hnode⟩ := exists_slot hr
  have hcount := countP_modify hs (·.node?.isSome) Slot.vacated
  simpa [occupied, discard, Slot.vacated, Option.isSome_iff_ne_none.2 hnode] using hcount

@[simp] theorem occupied_clear (a : Arena α) : a.clear.occupied = 0 := by
  rw [occupied, Array.countP_eq_zero]
  intro s hs
  obtain ⟨t, -, rfl⟩ := Array.mem_map.1 hs
  split
  · simp [Slot.vacated]
  · assumption

/-! ## Consistency -/

/-- The slots and the vacant list are well formed, and the count is that of the slots with a
node. -/
structure Consistent (a : Arena α) : Prop extends WellFormed a where
  live_eq : a.live = a.occupied

namespace Consistent

theorem empty : (empty : Arena α).Consistent := ⟨wellFormed_empty, rfl⟩

theorem alloc (h : a.Consistent) (value : α) : (a.alloc value).2.Consistent where
  toWellFormed := h.toWellFormed.alloc value
  live_eq := by rw [live_alloc, h.occupied_alloc, h.live_eq]

theorem modify (h : a.Consistent) (r : NodeRef) (f : Node α → Node α) :
    (a.modify r f).Consistent where
  toWellFormed := h.toWellFormed.modify r f
  live_eq := by rw [live_modify, occupied_modify, h.live_eq]

theorem discard (h : a.Consistent) {r : NodeRef} (hr : a.contains r = true) :
    (a.discard r).Consistent where
  toWellFormed := h.toWellFormed.discard hr
  live_eq := by rw [Arena.live_discard, h.live_eq, ← occupied_discard hr, Nat.add_sub_cancel]

/-- There is a node to count off where one is removed. -/
theorem live_discard (h : a.Consistent) {r : NodeRef} (hr : a.contains r = true) :
    (a.discard r).live + 1 = a.live := by
  rw [(h.discard hr).live_eq, occupied_discard hr, h.live_eq]

theorem clear (h : a.Consistent) : a.clear.Consistent where
  toWellFormed := h.toWellFormed.clear
  live_eq := by rw [live_clear, occupied_clear]

/-- Each turn of a removal along a chain keeps the parts in step, so the chain may break anywhere. -/
theorem freeAlong (h : a.Consistent) (steps : Nat) (link : Option NodeRef) :
    (freeAlong steps a link).2.Consistent := by
  induction steps generalizing a link with
  | zero => exact h
  | succ steps ih =>
      cases link with
      | none => exact h
      | some r =>
          rw [Arena.freeAlong]
          cases hr : a.node? r with
          | none => exact h
          | some n => exact ih (h.discard (contains_iff.2 ⟨n, hr⟩)) n.next?

/-- A call keeps the parts in step, whatever it answers. -/
theorem act (h : a.Consistent) (c : Call NodeRef α σ) : (Arena.act c a).2.Consistent := by
  cases c with
  | alloc value => exact h.alloc value
  | append root value =>
      show (a.append root value).2.Consistent
      rw [append]
      cases a.tail root with
      | error e => exact h
      | ok last => exact (h.alloc value).modify last _
  | set r value =>
      rw [act_set]
      cases a.look r with
      | none => exact h
      | some _ => exact h.modify r _
  | free r =>
      rw [act_free]
      cases hr : a.look r with
      | none => exact h
      | some c => exact h.discard (contains_of_look hr)
  | freeChain root =>
      show (a.settled _ (a.freeChain root)).2.Consistent
      rw [freeChain, node]
      cases a.node? root with
      | none => exact h
      | some n => exact h.freeAlong (a.slots.size + 1) (some root)
  | clear => exact h.clear
  | get | next | tail | chainLength | values | find | contains | live => exact h

theorem run (h : a.Consistent) (calls : List (Call NodeRef α σ)) :
    (stateAfter Arena.act calls a).Consistent := by
  induction calls generalizing a with
  | nil => exact h
  | cons c calls ih => exact ih (h.act c)

end Consistent

/-! ## Removing a chain step by step -/

/-- Removing a chain is a run of removals of one node each, every one of which succeeds. -/
theorem freeAlong_eq_run (steps : Nat) (a : Arena α) (link : Option NodeRef) :
    ∃ frees : List (Call NodeRef α σ), (∀ c ∈ frees, ∃ r, c = .free r) ∧
      (∀ x ∈ answersOf act frees a, x.failure? = none) ∧
      freeAlong steps a link = (frees.length, stateAfter act frees a) := by
  induction steps generalizing a link with
  | zero => exact ⟨[], by simp, by simp [answersOf], rfl⟩
  | succ steps ih =>
      cases link with
      | none => exact ⟨[], by simp, by simp [answersOf], rfl⟩
      | some r =>
          cases hr : a.node? r with
          | none => exact ⟨[], by simp, by simp [answersOf], by simp [freeAlong, hr, stateAfter]⟩
          | some n =>
              have hact : act (.free r : Call NodeRef α σ) a =
                  (.freed (.ok (n.value, n.next?)), a.discard r) := by
                rw [act_free, look, hr, Option.map_some]
              obtain ⟨frees, hfrees, hanswers, hrest⟩ := ih (a.discard r) n.next?
              refine ⟨.free r :: frees, ?_, ?_, ?_⟩
              · rintro c (_ | ⟨_, hc⟩)
                · exact ⟨r, rfl⟩
                · exact hfrees c hc
              · rw [answersOf, hact]
                rintro x (_ | ⟨_, hx⟩)
                · rfl
                · exact hanswers x hx
              · simp [freeAlong, hr, hrest, stateAfter, hact]

/-! ## What the operations rely on -/

theorem settled_eq_of_failure {β : Type w} {answer : Except NodeRef β → Answer NodeRef α σ}
    {result : Except StaleRef (β × Arena α)} (hanswer : ∀ x, (answer (.ok x)).failure? = none)
    (h : (a.settled answer result).1.failure? ≠ none) : (a.settled answer result).2 = a := by
  cases result with
  | error e => rfl
  | ok x => exact absurd (hanswer x.1) h

/-- A call that fails leaves the arena as it was. -/
theorem act_eq_of_failure (a : Arena α) (c : Call NodeRef α σ)
    (h : (act c a).1.failure? ≠ none) : (act c a).2 = a := by
  cases c with
  | append root value =>
      have hact : act (.append root value : Call NodeRef α σ) a =
          (.made ((a.append root value).1.mapError (·.ref)), (a.append root value).2) := rfl
      rw [hact, append] at h ⊢
      cases htail : a.tail root with
      | error e => rfl
      | ok last =>
          rw [htail] at h
          exact absurd rfl h
  | set | free | freeChain => exact settled_eq_of_failure (fun _ => rfl) h
  | alloc | clear => exact absurd rfl h
  | get | next | tail | chainLength | values | find | contains | live => rfl

/-- What the operations on an arena rely on without asking. -/
structure StaysInRange (a : Arena α) : Prop where
  /-- A new node takes a slot that is there and empty, or one that is added. -/
  alloc : ∀ value, Allocates a value (a.alloc value)
  /-- A slot with a node is left alone when one is made. -/
  kept : ∀ (value : α) (i : Nat) (s : Slot α), a.slots[i]? = some s → s.node? ≠ none →
    (a.alloc value).2.slots[i]? = some s
  /-- The link to an added node can be written. -/
  append : ∀ root value, a.appendInSteps root value = a.append root value
  /-- The generation of a slot that is emptied fits in 32 bits, and there is a node to count off. -/
  free : ∀ (r : NodeRef) (n : Node α) (b : Arena α), a.free r = .ok (n, b) → ∃ s : Slot α,
    a.slots[r.slot]? = some s ∧ b.slots[r.slot]? = some s.vacated ∧
      s.vacated.generation < UInt32.size ∧ b.live + 1 = a.live

theorem Consistent.staysInRange (h : a.Consistent) (hledger : Ledger a ids) : a.StaysInRange where
  alloc := h.allocates
  kept value i s hs hnode := h.getElem?_alloc value hs hnode
  append := hledger.appendInSteps_eq
  free := by
    intro r n b hfree
    obtain ⟨hn, rfl⟩ := free_eq_ok_iff.1 hfree
    have hr : a.contains r = true := contains_iff.2 ⟨n, hn⟩
    obtain ⟨s, hs, -, hnode⟩ := exists_slot hr
    have hlt := (h.sound r.slot s hs).generation_lt hnode
    refine ⟨s, hs, ?_, ?_, ?_⟩
    · rw [getElem?_discard, if_pos rfl, hs, Option.map_some]
    · exact Nat.succ_lt_of_lt_pred hlt
    · exact h.live_discard hr

/-- In every state that a run from the empty arena reaches, the count is that of the slots with a
node, and the vacant list names each empty slot that is not retired, once, and no others.  So making
a node replaces none, and a removal changes no number beyond its range; removing a chain is a run of
such removals, so that this holds in the middle of it too.  A call that fails leaves the state as it
was, and so it is if each step of the call is taken by itself on the slots. -/
theorem representation_consistent (calls : List (Call NodeRef α σ)) :
    (stateAfter act calls empty).Consistent ∧
      (∀ i, i ∈ (stateAfter act calls empty).vacant ↔ ∃ s : Slot α,
        (stateAfter act calls empty).slots[i]? = some s ∧ s.node? = none ∧
          s.generation < retiredGeneration) ∧
      (stateAfter act calls empty).StaysInRange ∧
      (∀ root n b, (stateAfter act calls empty).freeChain root = .ok (n, b) →
        ∃ frees : List (Call NodeRef α σ), (∀ c ∈ frees, ∃ r, c = .free r) ∧ frees.length = n ∧
          (∀ x ∈ answersOf act frees (stateAfter act calls empty), x.failure? = none) ∧
          stateAfter act (calls ++ frees) empty = b) ∧
      (∀ c : Call NodeRef α σ, (act c (stateAfter act calls empty)).1.failure? ≠ none →
        (act c (stateAfter act calls empty)).2 = stateAfter act calls empty) ∧
      (stateAfter act calls empty).StepsAgree := by
  have hconsistent := Consistent.empty.run calls
  have hrange := hconsistent.staysInRange (Ledger.empty.run calls)
  refine ⟨hconsistent, fun i => hconsistent.mem_vacant_iff, hrange, ?_, act_eq_of_failure _,
    stepsAgree _⟩
  intro root n b hfree
  obtain ⟨frees, hfrees, hanswers, hrun⟩ := freeAlong_eq_run (σ := σ)
    ((stateAfter act calls empty).slots.size + 1) (stateAfter act calls empty) (some root)
  rw [freeChain, hrun] at hfree
  cases hroot : (stateAfter act calls empty).node root with
  | error e => simp [hroot, Except.map] at hfree
  | ok m =>
      rw [hroot] at hfree
      cases hfree
      exact ⟨frees, hfrees, rfl, hanswers, stateAfter_append act calls frees empty⟩

/-- A chain of three nodes whose second node is removed. -/
def middleRemoved : List (Call NodeRef Nat Unit) :=
  [.alloc 1, .append ⟨0, 0⟩ 2, .append ⟨0, 0⟩ 3, .free ⟨1, 0⟩]

/-- Nothing is added behind the break, which would take the slot in the middle of the chain, and
removing what is left from the first node on removes that node only.  A reference that is ahead of
the node that will take the slot removes nothing, though the slot is at its generation. -/
theorem representation_consistent_middleRemoved :
    (act (.append ⟨0, 0⟩ 4 : Call NodeRef Nat Unit) (stateAfter act middleRemoved empty)).2 =
        stateAfter act middleRemoved empty ∧
      ((stateAfter act middleRemoved empty).discard ⟨0, 0⟩).live + 1 =
        (stateAfter act middleRemoved empty).live ∧
      ((stateAfter act middleRemoved empty).discard ⟨0, 0⟩).Consistent ∧
      (stateAfter act middleRemoved empty).freeInSteps ⟨1, 1⟩ =
        (.error ⟨⟨1, 1⟩⟩, stateAfter act middleRemoved empty) := by
  obtain ⟨-, -, hrange, hchain, hfailure, hsteps⟩ := representation_consistent middleRemoved
  have hfails : (act (.append ⟨0, 0⟩ 4 : Call NodeRef Nat Unit)
      (stateAfter act middleRemoved empty)).1.failure? = some ⟨1, 0⟩ := rfl
  obtain ⟨_, -, -, -, hlive⟩ := hrange.free ⟨0, 0⟩ ⟨1, some ⟨1, 0⟩⟩ _ rfl
  refine ⟨hfailure _ (hfails ▸ Option.some_ne_none _), hlive, ?_, (hsteps.free ⟨1, 1⟩).trans rfl⟩
  obtain ⟨frees, -, -, -, hstate⟩ :=
    hchain ⟨0, 0⟩ 1 ((stateAfter act middleRemoved empty).discard ⟨0, 0⟩) rfl
  rw [← hstate]
  exact (representation_consistent (middleRemoved ++ frees)).1

end Arena

end ScanKit
