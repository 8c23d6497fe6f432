import ScanKit.Arena.Chain
import ScanKit.Proofs.Run

/-!
# Calls on an arena

A call names everything that can be asked of an arena, with its arguments, and an answer is what
comes back.  Both are written over any type of names for nodes, so that the same calls can be made
of an arena, whose names are references, and of anything else that has names of its own.  A run
makes calls one after the other, whatever they answer.
-/

universe u v w

namespace ScanKit

/-- What can be asked of an arena whose nodes have names in `κ`. -/
inductive Call (κ : Type w) (α : Type u) (σ : Type v) where
  | alloc (value : α)
  | append (root : κ) (value : α)
  | get (r : κ)
  | set (r : κ) (value : α)
  | next (r : κ)
  | tail (root : κ)
  | chainLength (root : κ)
  | values (root : κ)
  | find (root : κ) (accept : σ → α → Bool × σ) (s : σ)
  | contains (r : κ)
  | live
  | free (r : κ)
  | freeChain (root : κ)
  | clear

/-- What a call comes back with.  An error is the name of a node that is not there. -/
inductive Answer (κ : Type w) (α : Type u) (σ : Type v) where
  | made (r : Except κ κ)
  | value (v : Except κ α)
  | done (d : Except κ Unit)
  | link (l : Except κ (Option κ))
  | last (r : Except κ κ)
  | count (n : Except κ Nat)
  | values (vs : Except κ (List α))
  | found (r : Except κ (Option κ)) (s : σ)
  | flag (b : Bool)
  | live (n : Nat)
  | freed (v : Except κ (α × Option κ))
  | cleared

variable {κ : Type w} {ι : Type w} {α : Type u} {σ : Type v}

namespace Call

/-- The names that a call is made with. -/
def names : Call κ α σ → List κ
  | alloc _ | live | clear => []
  | append r _ | get r | set r _ | next r | tail r | chainLength r | values r | find r _ _
  | contains r | free r | freeChain r => [r]

/-- The call made under other names. -/
@[simp] def map (f : κ → ι) : Call κ α σ → Call ι α σ
  | alloc value => alloc value
  | append root value => append (f root) value
  | get r => get (f r)
  | set r value => set (f r) value
  | next r => next (f r)
  | tail root => tail (f root)
  | chainLength root => chainLength (f root)
  | values root => values (f root)
  | find root accept s => find (f root) accept s
  | contains r => contains (f r)
  | live => live
  | free r => free (f r)
  | freeChain root => freeChain (f root)
  | clear => clear

end Call

namespace Answer

/-- The name of a node that was made. -/
@[simp] def issued : Answer κ α σ → List κ
  | made (.ok r) => [r]
  | _ => []

/-- The name at which a call failed, if it did. -/
def failure? : Answer κ α σ → Option κ
  | made (.error r) | value (.error r) | done (.error r) | link (.error r) | last (.error r)
  | count (.error r) | values (.error r) | found (.error r) _ | freed (.error r) => some r
  | _ => none

/-- The answer under other names. -/
@[simp] def map (f : κ → ι) : Answer κ α σ → Answer ι α σ
  | made r => made ((r.map f).mapError f)
  | value v => value (v.mapError f)
  | done d => done (d.mapError f)
  | link l => link ((l.map (·.map f)).mapError f)
  | last r => last ((r.map f).mapError f)
  | count n => count (n.mapError f)
  | values vs => values (vs.mapError f)
  | found r s => found ((r.map (·.map f)).mapError f) s
  | flag b => flag b
  | live n => live n
  | freed v => freed ((v.map fun x => (x.1, x.2.map f)).mapError f)
  | cleared => cleared

end Answer

/-- A result, unless a name at which it is missed is given. -/
def completed {β : Type u} (e : Option κ) (result : β) : Except κ β := match e with
  | some r => .error r
  | none => .ok result

@[simp] theorem map_completed {β γ : Type u} (f : β → γ) (e : Option κ) (result : β) :
    (completed e result).map f = completed e (f result) := by
  cases e <;> rfl

@[simp] theorem mapError_completed {β : Type u} (f : κ → ι) (e : Option κ) (result : β) :
    (completed e result).mapError f = completed (e.map f) result := by
  cases e <;> rfl

namespace Arena

/-- What is answered by an operation that changes the arena only if it succeeds. -/
def settled {β : Type w} (a : Arena α) (answer : Except NodeRef β → Answer NodeRef α σ) :
    Except StaleRef (β × Arena α) → Answer NodeRef α σ × Arena α
  | .ok (x, b) => (answer (.ok x), b)
  | .error e => (answer (.error e.ref), a)

/-- The call that an arena is asked for. -/
def act : Call NodeRef α σ → Arena α → Answer NodeRef α σ × Arena α
  | .alloc value, a => (.made (.ok (a.alloc value).1), (a.alloc value).2)
  | .append root value, a =>
      (.made ((a.append root value).1.mapError (·.ref)), (a.append root value).2)
  | .get r, a => (.value ((a.get r).mapError (·.ref)), a)
  | .set r value, a => a.settled .done ((a.set r value).map ((), ·))
  | .next r, a => (.link ((a.next r).mapError (·.ref)), a)
  | .tail root, a => (.last ((a.tail root).mapError (·.ref)), a)
  | .chainLength root, a => (.count ((a.chainLength root).mapError (·.ref)), a)
  | .values root, a => (.values ((a.values root).mapError (·.ref)), a)
  | .find root accept s, a =>
      (.found ((a.find root accept s).1.mapError (·.ref)) (a.find root accept s).2, a)
  | .contains r, a => (.flag (a.contains r), a)
  | .live, a => (.live a.live, a)
  | .free r, a => a.settled (fun v => .freed (v.map fun n => (n.value, n.next?))) (a.free r)
  | .freeChain root, a => a.settled .count (a.freeChain root)
  | .clear, a => (.cleared, a.clear)

end Arena

end ScanKit
