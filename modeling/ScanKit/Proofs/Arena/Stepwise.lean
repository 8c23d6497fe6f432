import ScanKit.Proofs.Arena.Answers

/-!
# Operations step by step

Each operation that can fail is given as the steps that it takes on the slots.  A step leaves the
arena as it has made it, whether or not a later one fails, so here it is not for the form of the
result to say that a failure changes nothing.  It changes nothing all the same: the steps come to
what the operation comes to that changes the arena only if it succeeds (`kept`).
-/

universe u v

namespace ScanKit.Arena

variable {α : Type u} {a : Arena α} {ids : List NodeRef}

/-- What comes of an operation that changes the arena only if it succeeds. -/
def kept {β : Type v} (a : Arena α) : Except StaleRef (β × Arena α) → Except StaleRef β × Arena α
  | .ok (x, b) => (.ok x, b)
  | .error e => (.error e, a)

/-! ## Steps on a slot -/

/-- The slot of a reference, if it is at the generation of the reference. -/
def slot? (a : Arena α) (r : NodeRef) : Option (Slot α) :=
  a.slots[r.slot]?.filter fun s => s.generation = r.generation

/-- Writes a slot. -/
def write (a : Arena α) (i : Nat) (s : Slot α) : Arena α :=
  { a with slots := a.slots.setIfInBounds i s }

/-- Finds the node in its slot and writes its value. -/
def setInSteps (a : Arena α) (r : NodeRef) (value : α) : Except StaleRef Unit × Arena α :=
  match a.slot? r with
  | none => (.error ⟨r⟩, a)
  | some s => match s.node? with
    | none => (.error ⟨r⟩, a)
    | some n => (.ok (), a.write r.slot { s with node? := some { n with value } })

/-- Takes what is in the slot out of it, and if that is a node counts the generation of the slot up,
lists the slot as vacant unless it is retired then, and counts the node off.  A slot in which there
is no node has been written when this is seen. -/
def freeInSteps (a : Arena α) (r : NodeRef) : Except StaleRef (Node α) × Arena α :=
  match a.slot? r with
  | none => (.error ⟨r⟩, a)
  | some s =>
      let taken := a.write r.slot { s with node? := none }
      match s.node? with
      | none => (.error ⟨r⟩, taken)
      | some n =>
          let emptied := taken.write r.slot ⟨s.generation + 1, none⟩
          let vacant :=
            if s.generation + 1 = retiredGeneration then a.vacant else r.slot :: a.vacant
          (.ok n, { emptied with vacant, live := a.live - 1 })

/-- Removes nodes along links until one cannot be removed, and counts them. -/
def freeAlongInSteps : Nat → Arena α → Option NodeRef → Nat × Arena α
  | steps + 1, a, some r => match a.freeInSteps r with
    | (.error _, a) => (0, a)
    | (.ok n, a) =>
        let rest := freeAlongInSteps steps a n.next?
        (rest.1 + 1, rest.2)
  | _, a, _ => (0, a)

/-- Removes the first node of a chain and then those behind it.  Only the first has to be there. -/
def freeChainInSteps (a : Arena α) (root : NodeRef) : Except StaleRef Nat × Arena α :=
  match a.freeInSteps root with
  | (.error e, b) => (.error e, b)
  | (.ok n, b) =>
      let rest := freeAlongInSteps a.slots.size b n.next?
      (.ok (rest.1 + 1), rest.2)

/-- Adds a node at the end of a chain in three steps: the end is found, the node is made, and the
link to it is written.  The last step fails if the end of the chain does not resolve any more. -/
def appendInSteps (a : Arena α) (root : NodeRef) (value : α) :
    Except StaleRef NodeRef × Arena α :=
  match a.tail root with
  | .error e => (.error e, a)
  | .ok last =>
      let made := a.alloc value
      match made.2.node last with
      | .error e => (.error e, made.2)
      | .ok _ => (.ok made.1, made.2.modify last fun n => { n with next? := some made.1 })

/-! ## What the steps come to -/

/-- A slot that is found is the one under its number, at the generation of the reference. -/
theorem slot?_eq_some_iff {r : NodeRef} {s : Slot α} :
    a.slot? r = some s ↔ a.slots[r.slot]? = some s ∧ s.generation = r.generation := by
  rw [slot?, Option.filter_eq_some_iff, decide_eq_true_eq]

theorem node?_eq_slot? (a : Arena α) (r : NodeRef) :
    a.node? r = (a.slot? r).bind (·.node?) := by
  rw [node?, slot?]
  cases a.slots[r.slot]? with
  | none => rfl
  | some s => by_cases hs : s.generation = r.generation <;> simp [hs, Option.filter]

/-- What is written over a slot stands in the place of what was there. -/
theorem write_eq_modify {i : Nat} {s : Slot α} (h : a.slots[i]? = some s) (f : Slot α → Slot α) :
    a.write i (f s) = { a with slots := a.slots.modify i f } := by
  have hslots : a.slots.setIfInBounds i (f s) = a.slots.modify i f := by
    apply Array.ext_getElem?
    intro j
    rw [Array.getElem?_setIfInBounds, Array.getElem?_modify]
    split
    · next hij =>
        rw [if_pos (Array.getElem?_eq_some_iff.1 h).1, ← hij, h]
        rfl
    · rfl
  rw [write, hslots]

/-- A slot that is written as it is stays as it is. -/
theorem write_self {i : Nat} {s : Slot α} (h : a.slots[i]? = some s) : a.write i s = a := by
  obtain ⟨hi, rfl⟩ := Array.getElem?_eq_some_iff.1 h
  simp [write, Array.setIfInBounds, hi]

/-- The last of two writes remains. -/
theorem write_write (a : Arena α) (i : Nat) (s t : Slot α) :
    (a.write i s).write i t = a.write i t := by
  simp [write]

theorem setInSteps_eq (a : Arena α) (r : NodeRef) (value : α) :
    a.setInSteps r value = a.kept ((a.set r value).map ((), ·)) := by
  rw [setInSteps, set, node, node?_eq_slot?]
  cases hs : a.slot? r with
  | none => rfl
  | some s =>
      obtain ⟨hslot, -⟩ := slot?_eq_some_iff.1 hs
      cases hnode : s.node? with
      | none => simp [hnode, kept, Except.map]
      | some n =>
          have hcontains : a.contains r = true := by
            rw [contains, node?_eq_slot?, hs, Option.bind_some, hnode]
            rfl
          have hwrite := write_eq_modify hslot fun s =>
            { s with node? := s.node?.map fun n => { n with value } }
          simp only [hnode, Option.map_some] at hwrite
          simp [hnode, kept, Except.map, modify, hcontains, hwrite]

/-- Where there is no node to take out, the slot is written as it was. -/
theorem freeInSteps_eq (a : Arena α) (r : NodeRef) : a.freeInSteps r = a.kept (a.free r) := by
  rw [freeInSteps, free, node, node?_eq_slot?]
  cases hs : a.slot? r with
  | none => rfl
  | some s =>
      obtain ⟨hslot, hgeneration⟩ := slot?_eq_some_iff.1 hs
      cases hnode : s.node? with
      | none =>
          have hsame : { s with node? := none } = s := by rw [← hnode]
          simp [hnode, kept, Except.map, hsame, write_self hslot]
      | some n =>
          have hvacated : (a.write r.slot ⟨s.generation + 1, none⟩).slots =
              a.slots.modify r.slot Slot.vacated :=
            congrArg Arena.slots (write_eq_modify hslot Slot.vacated)
          simp [hnode, kept, Except.map, write_write, discard, hvacated, ← hgeneration]

theorem freeAlongInSteps_eq (steps : Nat) (a : Arena α) (link : Option NodeRef) :
    freeAlongInSteps steps a link = freeAlong steps a link := by
  induction steps generalizing a link with
  | zero => rfl
  | succ steps ih =>
      cases link with
      | none => rfl
      | some r =>
          rw [freeAlongInSteps, freeAlong, freeInSteps_eq, free, node]
          cases a.node? r with
          | none => rfl
          | some n => simp [kept, Except.map, ih]

theorem freeChainInSteps_eq (a : Arena α) (root : NodeRef) :
    a.freeChainInSteps root = a.kept (a.freeChain root) := by
  rw [freeChainInSteps, freeChain, freeInSteps_eq, free, node, freeAlong]
  cases a.node? root with
  | none => rfl
  | some n => simp [kept, Except.map, freeAlongInSteps_eq]

/-- In steps the operations that can fail come to what they come to at once. -/
structure StepsAgree (a : Arena α) : Prop where
  set : ∀ r value, a.setInSteps r value = a.kept ((a.set r value).map ((), ·))
  free : ∀ r, a.freeInSteps r = a.kept (a.free r)
  freeChain : ∀ root, a.freeChainInSteps root = a.kept (a.freeChain root)

theorem stepsAgree (a : Arena α) : a.StepsAgree :=
  ⟨a.setInSteps_eq, a.freeInSteps_eq, a.freeChainInSteps_eq⟩

/-- The link to an added node can always be written. -/
theorem Ledger.appendInSteps_eq (h : Ledger a ids) (root : NodeRef) (value : α) :
    a.appendInSteps root value = a.append root value := by
  rw [appendInSteps, append]
  cases htail : a.tail root with
  | error e => rfl
  | ok last =>
      obtain ⟨nodes, v, hpath⟩ := h.tail_eq_ok_iff.1 htail
      have hlast := contains_of_look hpath.split.2.look_head
      obtain ⟨n, hn⟩ := contains_iff.1
        ((h.wellFormed.contains_alloc value last).trans (by rw [hlast, Bool.true_or]))
      simp only [node, hn]

end ScanKit.Arena
