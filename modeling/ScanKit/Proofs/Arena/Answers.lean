import ScanKit.Proofs.Arena.Call
import ScanKit.Proofs.Arena.Walk

/-!
# What a call comes back with

Every call on an arena with a ledger is described by what its references lead to and by the paths
from them, without a bound on steps and without slots.
-/

universe u v

namespace ScanKit.Arena

variable {α : Type u} {σ : Type v} {a : Arena α} {ids : List NodeRef}

/-! ## Calls on one node -/

theorem act_get (a : Arena α) (r : NodeRef) :
    act (.get r : Call NodeRef α σ) a = match a.look r with
      | some c => (.value (.ok c.1), a)
      | none => (.value (.error r), a) := by
  show (Answer.value ((a.get r).mapError (·.ref)), a) = _
  rw [get, node, look]
  cases a.node? r <;> rfl

theorem act_set (a : Arena α) (r : NodeRef) (value : α) :
    act (.set r value : Call NodeRef α σ) a = match a.look r with
      | some _ => (.done (.ok ()), a.modify r fun n => { n with value })
      | none => (.done (.error r), a) := by
  show a.settled .done ((a.set r value).map ((), ·)) = _
  rw [set, node, look]
  cases a.node? r <;> rfl

theorem act_next (a : Arena α) (r : NodeRef) :
    act (.next r : Call NodeRef α σ) a = match a.look r with
      | some c => (.link (.ok c.2), a)
      | none => (.link (.error r), a) := by
  show (Answer.link ((a.next r).mapError (·.ref)), a) = _
  rw [next, node, look]
  cases a.node? r <;> rfl

theorem act_free (a : Arena α) (r : NodeRef) :
    act (.free r : Call NodeRef α σ) a = match a.look r with
      | some c => (.freed (.ok c), a.discard r)
      | none => (.freed (.error r), a) := by
  show a.settled (fun v => .freed (v.map fun n => (n.value, n.next?))) (a.free r) = _
  rw [free, node, look]
  cases a.node? r <;> rfl

/-! ## Calls on a chain -/

section Chains

variable {root : NodeRef} {nodes : List (NodeRef × α)} {e : Option NodeRef}

theorem Ledger.act_tail (h : Ledger a ids) (hpath : Path a.look root nodes e) :
    act (.tail root : Call NodeRef α σ) a =
      (.last (completed e ((nodes.getLast?.map (·.1)).getD root)), a) := by
  show (Answer.last ((a.tail root).mapError (·.ref)), a) = _
  rw [tail, h.walk_eq_of_path hpath]
  cases e <;> rfl

theorem Ledger.act_chainLength (h : Ledger a ids) (hpath : Path a.look root nodes e) :
    act (.chainLength root : Call NodeRef α σ) a = (.count (completed e nodes.length), a) := by
  show (Answer.count ((a.chainLength root).mapError (·.ref)), a) = _
  rw [chainLength, h.walk_eq_of_path hpath]
  cases e <;> rfl

theorem Ledger.act_values (h : Ledger a ids) (hpath : Path a.look root nodes e) :
    act (.values root : Call NodeRef α σ) a = match a.look root with
      | some _ => (.values (.ok (nodes.map (·.2))), a)
      | none => (.values (.error root), a) := by
  show (Answer.values ((a.values root).mapError (·.ref)), a) = _
  rw [values, h.walk_eq_of_path hpath, node, look]
  cases a.node? root <;> rfl

theorem Ledger.act_find (h : Ledger a ids) (hpath : Path a.look root nodes e)
    (accept : σ → α → Bool × σ) (s : σ) :
    act (.find root accept s : Call NodeRef α σ) a = match firstAccepted accept s nodes with
      | (some r, s) => (.found (.ok (some r)) s, a)
      | (none, s) => (.found (completed e none) s, a) := by
  show (Answer.found ((a.find root accept s).1.mapError (·.ref)) (a.find root accept s).2, a) = _
  rw [find, h.walk_eq_of_path hpath]
  obtain ⟨found, s'⟩ : Option NodeRef × σ := firstAccepted accept s nodes
  cases e <;> cases found <;> rfl

/-- Nothing is added to a broken chain. -/
theorem Ledger.act_append_of_broken (h : Ledger a ids) {q : NodeRef}
    (hpath : Path a.look root nodes (some q)) (value : α) :
    act (.append root value : Call NodeRef α σ) a = (.made (.error q), a) := by
  show (Answer.made ((a.append root value).1.mapError (·.ref)), (a.append root value).2) = _
  rw [h.append_of_broken hpath]
  rfl

/-- A node is added behind the last one of a chain. -/
theorem Ledger.act_append_of_last (h : Ledger a ids) {x : NodeRef × α}
    (hpath : Path a.look root nodes none) (hlast : nodes.getLast? = some x) (value : α) :
    act (.append root value : Call NodeRef α σ) a =
      (.made (.ok (a.alloc value).1), a.addBehind x.1 value) := by
  show (Answer.made ((a.append root value).1.mapError (·.ref)), (a.append root value).2) = _
  rw [h.append_of_last hpath hlast]
  rfl

theorem Ledger.act_freeChain (h : Ledger a ids) (hpath : Path a.look root nodes e) :
    act (.freeChain root : Call NodeRef α σ) a = match a.look root with
      | some _ => (.count (.ok nodes.length), a.discardAll (nodes.map (·.1)))
      | none => (.count (.error root), a) := by
  have hfree := h.freeChain_eq root
  rw [h.walk_eq_of_path hpath, contains_eq_isSome_look] at hfree
  show a.settled .count (a.freeChain root) = _
  rw [hfree]
  cases a.look root <;> rfl

end Chains

/-! ## What a call leaves -/

/-- The ways in which a call changes an arena, with the references that it issues. -/
inductive Change (a : Arena α) : List NodeRef → Arena α → Prop where
  | same : Change a [] a
  | alloc (value : α) : Change a [(a.alloc value).1] (a.alloc value).2
  | /-- Only behind a node without a link is one added. -/
    addBehind {last : NodeRef} {v : α} (hlast : a.look last = some (v, none)) (value : α) :
      Change a [(a.alloc value).1] (a.addBehind last value)
  | set (r : NodeRef) (value : α) : Change a [] (a.modify r fun n => { n with value })
  | /-- Only nodes that are there are removed, and each once. -/
    discardAll {rs : List NodeRef} (hnodup : rs.Nodup) (hlive : ∀ r ∈ rs, a.contains r = true) :
      Change a [] (a.discardAll rs)
  | clear : Change a [] a.clear

/-- A call does nothing else, whatever it names. -/
theorem Ledger.change_act (h : Ledger a ids) (c : Call NodeRef α σ) :
    Change a (Arena.act c a).1.issued (Arena.act c a).2 := by
  cases c with
  | alloc value => exact .alloc value
  | append root value =>
      obtain ⟨nodes, e, hpath⟩ := h.exists_path root
      cases e with
      | some q =>
          rw [h.act_append_of_broken hpath]
          exact .same
      | none =>
          obtain ⟨x, hlast, hlook⟩ := hpath.getLast
          rw [h.act_append_of_last hpath hlast]
          exact .addBehind hlook value
  | set r value =>
      rw [act_set]
      cases a.look r with
      | none => exact .same
      | some _ => exact .set r value
  | free r =>
      rw [act_free]
      cases hr : a.look r with
      | none => exact .same
      | some c =>
          have hone : ∀ q ∈ [r], a.contains q = true := by simpa using contains_of_look hr
          exact .discardAll (List.pairwise_singleton _ _) hone
  | freeChain root =>
      obtain ⟨nodes, e, hpath⟩ := h.exists_path root
      rw [h.act_freeChain hpath]
      cases a.look root with
      | none => exact .same
      | some _ => exact .discardAll (h.nodup_of_path hpath) fun _ => contains_of_path hpath
  | clear => exact .clear
  | get | next | tail | chainLength | values | find | contains | live => exact .same

/-- A change keeps the ledger, with the references that are issued at the end. -/
theorem Ledger.change {b : Arena α} {issued : List NodeRef} (h : Ledger a ids)
    (hchange : Change a issued b) : Ledger b (ids ++ issued) := by
  cases hchange with
  | alloc value => exact h.alloc value
  | addBehind hlast value => exact h.addBehind (h.mem_of_look hlast) value
  | same =>
      rw [List.append_nil]
      exact h
  | set r value =>
      rw [List.append_nil]
      exact h.set r value
  | discardAll hnodup hlive =>
      rw [List.append_nil]
      exact (h.discardAll hnodup hlive).1
  | clear =>
      rw [List.append_nil]
      exact h.clear

/-- A call keeps the ledger. -/
theorem Ledger.act (h : Ledger a ids) (c : Call NodeRef α σ) :
    Ledger (Arena.act c a).2 (ids ++ (Arena.act c a).1.issued) := h.change (h.change_act c)

/-! ## Runs -/

/-- The references that the calls of a run issue, in order. -/
def issuedIn (calls : List (Call NodeRef α σ)) (a : Arena α) : List NodeRef :=
  (answersOf act calls a).flatMap Answer.issued

theorem issuedIn_cons (c : Call NodeRef α σ) (calls : List (Call NodeRef α σ)) (a : Arena α) :
    issuedIn (c :: calls) a = (act c a).1.issued ++ issuedIn calls (act c a).2 := rfl

/-- The ledger after a run lists what was issued before and what the run issues. -/
theorem Ledger.run (h : Ledger a ids) (calls : List (Call NodeRef α σ)) :
    Ledger (stateAfter Arena.act calls a) (ids ++ issuedIn calls a) := by
  induction calls generalizing a ids with
  | nil => simpa [issuedIn, answersOf, stateAfter] using h
  | cons c calls ih =>
      rw [issuedIn_cons, ← List.append_assoc]
      exact ih (h.act c)

end ScanKit.Arena
