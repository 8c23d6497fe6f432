import ScanKit.Arena.Basic

/-! # Chains of nodes

A chain is followed from a node along the stored links. It ends at a node without a link, or breaks
at a link that does not resolve. The operations go by the nodes that are met on the way, and by a
number of steps that is enough for every chain.
-/

universe u v

namespace ScanKit.Arena

variable {α : Type u} {σ : Type v}

/-- The nodes met from a reference on, with their values, and the link at which the chain breaks. -/
structure Walk (α : Type u) where
  nodes : List (NodeRef × α)
  brokenAt? : Option NodeRef

/-- Follows links for a number of steps. -/
def follow (a : Arena α) : Nat → NodeRef → Walk α
  | 0, r => ⟨[], some r⟩
  | steps + 1, r => match a.node? r with
    | none => ⟨[], some r⟩
    | some ⟨value, none⟩ => ⟨[(r, value)], none⟩
    | some ⟨value, some next⟩ =>
        let rest := a.follow steps next
        ⟨(r, value) :: rest.nodes, rest.brokenAt?⟩

/-- The chain from a node on. No chain has more nodes than there are slots, and one more step finds
where it breaks. -/
def walk (a : Arena α) (root : NodeRef) : Walk α := a.follow (a.slots.size + 1) root

namespace Walk

def values (w : Walk α) : List α := w.nodes.map (·.2)

/-- A result that needs the whole chain. -/
def whole {β : Type v} (w : Walk α) (result : β) : Except StaleRef β := match w.brokenAt? with
  | none => .ok result
  | some r => .error ⟨r⟩

end Walk

/-- The last node of a chain. -/
def tail (a : Arena α) (root : NodeRef) : Except StaleRef NodeRef :=
  let w := a.walk root
  w.whole ((w.nodes.getLast?.map (·.1)).getD root)

def chainLength (a : Arena α) (root : NodeRef) : Except StaleRef Nat :=
  let w := a.walk root
  w.whole w.nodes.length

/-- The values of a chain up to its end or break. -/
def values (a : Arena α) (root : NodeRef) : Except StaleRef (List α) :=
  (a.node root).map fun _ => (a.walk root).values

/-- The first node that a test accepts. The test keeps a state and is asked once for each value in
turn. -/
def firstAccepted (accept : σ → α → Bool × σ) :
    σ → List (NodeRef × α) → Option NodeRef × σ
  | s, [] => (none, s)
  | s, (r, value) :: rest => match accept s value with
    | (true, s) => (some r, s)
    | (false, s) => firstAccepted accept s rest

/-- The first node of a chain that a test accepts. A break before it is an error. -/
def find (a : Arena α) (root : NodeRef) (accept : σ → α → Bool × σ) (s : σ) :
    Except StaleRef (Option NodeRef) × σ :=
  let w := a.walk root
  match firstAccepted accept s w.nodes with
  | (some r, s) => (.ok (some r), s)
  | (none, s) => (w.whole none, s)

/-- Adds a node at the end of a chain. Nothing is made if the chain is broken. -/
def append (a : Arena α) (root : NodeRef) (value : α) : Except StaleRef NodeRef × Arena α :=
  match a.tail root with
  | .error e => (.error e, a)
  | .ok last =>
      let made := a.alloc value
      (.ok made.1, made.2.modify last fun n => { n with next? := some made.1 })

/-- Adds nodes behind the last node of a chain, each of them the last one then. -/
def appendEach (a : Arena α) (last : NodeRef) : List α → Arena α
  | [] => a
  | value :: values => match a.append last value with
    | (.ok made, a) => a.appendEach made values
    | (.error _, a) => a

/-- Makes a chain of values; there is none without values. -/
def chain (a : Arena α) : List α → Option NodeRef × Arena α
  | [] => (none, a)
  | value :: values =>
      let made := a.alloc value
      (some made.1, made.2.appendEach made.1 values)

/-- Removes the nodes along a chain for a number of steps and counts them. -/
def freeAlong : Nat → Arena α → Option NodeRef → Nat × Arena α
  | steps + 1, a, some r => match a.node? r with
    | none => (0, a)
    | some n =>
        let rest := freeAlong steps (a.discard r) n.next?
        (rest.1 + 1, rest.2)
  | _, a, _ => (0, a)

/-- Removes the nodes of a chain up to its end or break and counts them. -/
def freeChain (a : Arena α) (root : NodeRef) : Except StaleRef (Nat × Arena α) :=
  (a.node root).map fun _ => freeAlong (a.slots.size + 1) a (some root)

end ScanKit.Arena
