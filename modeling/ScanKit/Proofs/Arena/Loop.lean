import ScanKit.Proofs.Arena.Walk
import ScanKit.Proofs.Loop

/-!
# Operations on chains as loops

Each operation on a chain goes from node to node in a loop of its own, with a state of its own and
no bound on its turns: `tailTurn`, `lengthTurn`, `valuesTurn`, `findTurn` and `freeTurn` are the
bodies.  Along a path every one of them ends with what the operation answers, at most one turn after
the last node, so walking a chain first and then answering is no other operation than the loop.
-/

universe u w

namespace ScanKit.Arena

variable {α : Type u} {σ : Type w}

/-! ## The bodies -/

/-- Goes on to the next node, to a node without a link at last. -/
def tailTurn (a : Arena α) (current : NodeRef) : Except StaleRef NodeRef ⊕ NodeRef :=
  match a.next current with
  | .error e => .inl (.error e)
  | .ok none => .inl (.ok current)
  | .ok (some next) => .inr next

/-- Goes on to the next node and counts it. -/
def lengthTurn (a : Arena α) : Nat × NodeRef → Except StaleRef Nat ⊕ Nat × NodeRef
  | (count, current) => match a.next current with
    | .error e => .inl (.error e)
    | .ok none => .inl (.ok count)
    | .ok (some next) => .inr (count + 1, next)

/-- Hands out the value of a node and goes on to its link.  A link that does not resolve is the end
like no link. -/
def valuesTurn (a : Arena α) : List α × Option NodeRef → List α ⊕ List α × Option NodeRef
  | (seen, none) => .inl seen
  | (seen, some current) => match a.node current with
    | .error _ => .inl seen
    | .ok n => .inr (seen ++ [n.value], n.next?)

/-- Asks the test about the value of a node and goes on to its link if it is not accepted. -/
def findTurn (a : Arena α) (accept : σ → α → Bool × σ) :
    Option NodeRef × σ → (Except StaleRef (Option NodeRef) × σ) ⊕ Option NodeRef × σ
  | (none, s) => .inl (.ok none, s)
  | (some current, s) => match a.node current with
    | .error e => .inl (.error e, s)
    | .ok n => match accept s n.value with
      | (true, s) => .inl (.ok (some current), s)
      | (false, s) => .inr (n.next?, s)

/-- Removes a node, counts it and goes on to the link that it had. -/
def freeTurn : Nat × Option NodeRef × Arena α → Nat × Arena α ⊕ Nat × Option NodeRef × Arena α
  | (freed, none, a) => .inl (freed, a)
  | (freed, some current, a) => match a.free current with
    | .error _ => .inl (freed, a)
    | .ok (n, a) => .inr (freed + 1, n.next?, a)

/-! ## Loops along a path -/

section Paths

variable {a : Arena α} {ids : List NodeRef} {r : NodeRef} {nodes : List (NodeRef × α)}
  {e : Option NodeRef}

theorem node_of_look_eq_some {value : α} {l : Option NodeRef} (h : a.look r = some (value, l)) :
    a.node r = .ok ⟨value, l⟩ := by
  rw [node, look_eq_some_iff.1 h]

theorem node_of_look_eq_none (h : a.look r = none) : a.node r = .error ⟨r⟩ := by
  rw [node, look_eq_none_iff.1 h]

theorem next_of_look_eq_some {value : α} {l : Option NodeRef} (h : a.look r = some (value, l)) :
    a.next r = .ok l := by
  rw [next, node_of_look_eq_some h]
  rfl

theorem next_of_look_eq_none (h : a.look r = none) : a.next r = .error ⟨r⟩ := by
  rw [next, node_of_look_eq_none h]
  rfl

theorem tailTurn_endsWithin (hpath : Path a.look r nodes e) :
    EndsWithin a.tailTurn (nodes.length + 1) r
      ((Walk.mk nodes e).whole ((nodes.getLast?.map (·.1)).getD r)) := by
  induction hpath with
  | broken hlook => exact .done (by rw [tailTurn, next_of_look_eq_none hlook]; rfl)
  | last hlook => exact .done (by rw [tailTurn, next_of_look_eq_some hlook]; rfl)
  | @link r q value nodes e hlook hrest ih =>
      refine .more (by rw [tailTurn, next_of_look_eq_some hlook]) ?_
      cases e with
      | some _ => exact ih
      | none =>
          -- the last node of the chain is the last one of its rest, which has one
          obtain ⟨x, hx, -⟩ := hrest.getLast
          have hlast : ((r, value) :: nodes).getLast? = some x := by
            cases nodes with
            | nil => simp at hx
            | cons y ys => rwa [List.getLast?_cons_cons]
          rw [hx] at ih
          rw [hlast]
          exact ih

/-- The nodes before are counted already, and so is the one at hand. -/
theorem lengthTurn_endsWithin (hpath : Path a.look r nodes e) (before : Nat) :
    EndsWithin a.lengthTurn (nodes.length + 1) (before + 1, r)
      ((Walk.mk nodes e).whole (before + nodes.length)) := by
  induction hpath generalizing before with
  | broken hlook => exact .done (by rw [lengthTurn, next_of_look_eq_none hlook]; rfl)
  | last hlook => exact .done (by rw [lengthTurn, next_of_look_eq_some hlook]; rfl)
  | @link r q value nodes e hlook _ ih =>
      have hsum : before + 1 + nodes.length = before + (nodes.length + 1) := by omega
      have hrest := ih (before + 1)
      rw [hsum] at hrest
      exact .more (by rw [lengthTurn, next_of_look_eq_some hlook]) hrest

/-- What was seen before comes first. -/
theorem valuesTurn_endsWithin (hpath : Path a.look r nodes e) (seen : List α) :
    EndsWithin a.valuesTurn (nodes.length + 1) (seen, some r) (seen ++ nodes.map (·.2)) := by
  induction hpath generalizing seen with
  | broken hlook =>
      rw [List.map_nil, List.append_nil]
      exact .done (by rw [valuesTurn, node_of_look_eq_none hlook])
  | last hlook => exact .more (by rw [valuesTurn, node_of_look_eq_some hlook]) (.done rfl)
  | @link r q value nodes e hlook _ ih =>
      have hrest := ih (seen ++ [value])
      rw [List.append_assoc, List.singleton_append] at hrest
      exact .more (by rw [valuesTurn, node_of_look_eq_some hlook]) hrest

theorem findTurn_endsWithin (hpath : Path a.look r nodes e) (accept : σ → α → Bool × σ) (s : σ) :
    EndsWithin (a.findTurn accept) (nodes.length + 1) (some r, s)
      (match firstAccepted accept s nodes with
        | (some q, s) => (.ok (some q), s)
        | (none, s) => ((Walk.mk nodes e).whole none, s)) := by
  induction hpath generalizing s with
  | broken hlook => exact .done (by rw [findTurn, node_of_look_eq_none hlook]; rfl)
  | @last r value hlook =>
      rw [firstAccepted]
      rcases haccept : accept s value with ⟨_ | _, s'⟩
      · have hbody : a.findTurn accept (some r, s) = .inr (none, s') := by
          simp only [findTurn, node_of_look_eq_some hlook, haccept]
        exact .more hbody (.done rfl)
      · exact .done (by simp only [findTurn, node_of_look_eq_some hlook, haccept])
  | @link r q value nodes e hlook _ ih =>
      rw [firstAccepted]
      rcases haccept : accept s value with ⟨_ | _, s'⟩
      · exact .more (by simp only [findTurn, node_of_look_eq_some hlook, haccept]) (ih s')
      · exact .done (by simp only [findTurn, node_of_look_eq_some hlook, haccept])

end Paths

/-- Removing along links for more steps than there are nodes to remove is the loop. -/
theorem freeTurn_endsWithin (steps : Nat) (a : Arena α) (link : Option NodeRef) (freed : Nat)
    (h : (freeAlong steps a link).1 < steps) :
    EndsWithin freeTurn ((freeAlong steps a link).1 + 1) (freed, link, a)
      (freed + (freeAlong steps a link).1, (freeAlong steps a link).2) := by
  induction steps generalizing a link freed with
  | zero => exact absurd h (Nat.not_lt_zero _)
  | succ steps ih =>
      cases link with
      | none => exact .done rfl
      | some r =>
          rw [freeAlong] at h ⊢
          cases hnode : a.node? r with
          | none => exact .done (by rw [freeTurn, free, node, hnode]; rfl)
          | some n =>
              rw [hnode] at h
              have hrest := ih (a.discard r) n.next? (freed + 1) (Nat.lt_of_succ_lt_succ h)
              rw [Nat.add_right_comm] at hrest
              exact .more (by rw [freeTurn, free, node, hnode]; rfl) hrest

/-! ## All loops on a chain -/

/-- The loops on the chain from a reference end within so many turns, with what the operations
answer.  Handing out values starts a loop only at a node, and removing a chain starts one behind its
first node. -/
structure LoopsEndWithin (a : Arena α) (turns : Nat) (r : NodeRef) : Prop where
  tail : EndsWithin a.tailTurn turns r (a.tail r)
  chainLength : EndsWithin a.lengthTurn turns (1, r) (a.chainLength r)
  values : ∃ vs, EndsWithin a.valuesTurn turns ([], some r) vs ∧
    a.values r = (a.node r).map fun _ => vs
  find : ∀ {σ : Type w} (accept : σ → α → Bool × σ) (s : σ),
    EndsWithin (a.findTurn accept) turns (some r, s) (a.find r accept s)
  freeChain : ∀ n b, a.free r = .ok (n, b) → ∃ result,
    EndsWithin freeTurn turns (1, n.next?, b) result ∧ a.freeChain r = .ok result

/-- The loops on a chain end one turn after its last node, if not before. -/
theorem Ledger.loopsEndWithin {a : Arena α} {ids : List NodeRef} (h : Ledger a ids) {r : NodeRef}
    {nodes : List (NodeRef × α)} {e : Option NodeRef} (hpath : Path a.look r nodes e) {turns : Nat}
    (hturns : nodes.length < turns) : a.LoopsEndWithin turns r where
  tail := by
    rw [Arena.tail, h.walk_eq_of_path hpath]
    exact (tailTurn_endsWithin hpath).mono hturns
  chainLength := by
    have hends := lengthTurn_endsWithin hpath 0
    rw [Nat.zero_add, Nat.zero_add] at hends
    rw [Arena.chainLength, h.walk_eq_of_path hpath]
    exact hends.mono hturns
  values := by
    have hends := valuesTurn_endsWithin hpath []
    rw [List.nil_append] at hends
    refine ⟨_, hends.mono hturns, ?_⟩
    rw [Arena.values, h.walk_eq_of_path hpath]
    rfl
  find accept s := by
    rw [Arena.find, h.walk_eq_of_path hpath]
    exact (findTurn_endsWithin hpath accept s).mono hturns
  freeChain n b hfree := by
    obtain ⟨hnode, rfl⟩ := free_eq_ok_iff.1 hfree
    -- what the loop counts behind the first node is one less than the whole chain
    have hfreed : freeAlong (a.slots.size + 1) a (some r) =
        ((freeAlong a.slots.size (a.discard r) n.next?).1 + 1,
          (freeAlong a.slots.size (a.discard r) n.next?).2) := by
      rw [freeAlong, hnode]
    have hlt := h.length_lt_of_path hpath
    have hlength := congrArg Prod.fst
      (hfreed.symm.trans (freeAlong_eq_of_path hpath (h.nodup_of_path hpath) hlt))
    dsimp only at hlength
    have hends := freeTurn_endsWithin a.slots.size (a.discard r) n.next? 1 (by omega)
    refine ⟨_, hends.mono (by omega), ?_⟩
    rw [Arena.freeChain, node, hnode, hfreed, Nat.add_comm 1]
    rfl

end ScanKit.Arena
