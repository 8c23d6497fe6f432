import ScanKit.Growable.Basic
import ScanKit.Proofs.Run

/-!
# Operations on growable arrays

What can be done with an array, and in which ways one can be made, as data.  A run of an array is a
run of its operations, so a statement about every list of operations and every start is one about
every array that can come to be.
-/

universe u v w

namespace ScanKit.Growable

/-- A way to make an array. -/
inductive Start (α : Type u) where
  | empty
  | ofCapacity (capacity : Nat)
  | ofConfig (c : Config)
  | ofList (xs : List α)

def Start.build {α : Type u} : Start α → Except ConfigError (Growable α)
  | empty => .ok Growable.empty
  | ofCapacity capacity => .ok (Growable.ofCapacity capacity)
  | ofConfig c => Growable.ofConfig c
  | ofList xs => .ok (Growable.ofList xs)

/-- Something that is done with an array. -/
inductive Op (α : Type u) where
  | push (x : α)
  | extend (xs : List α)
  | pop
  | remove (i : Nat)
  | replace (i : Nat) (x : α)
  | get (i : Nat)
  | set (i : Nat) (x : α)
  | dropFront (n : Nat)
  | reserve (needed : Nat)
  | clear
  | withGrowth (mayGrow : Bool)
  /-- Goes on with a copy. -/
  | copy
deriving DecidableEq, Repr

/-- What comes back. -/
inductive Answer (α : Type u) where
  | refused (e : Error)
  | done
  | item (x : α)
  | dropped (n : Nat)
deriving DecidableEq, Repr

variable {α : Type u}

/-- The answer that a result is, with the form that it has if there is one. -/
def Answer.ofResult {β : Type v} (form : β → Answer α) : Except Error β → Answer α
  | .ok x => form x
  | .error e => refused e

theorem Answer.ofResult_map {β : Type v} {γ : Type w} (form : γ → Answer α) (f : β → γ)
    (r : Except Error β) : ofResult form (r.map f) = ofResult (fun x => form (f x)) r := by
  cases r <;> rfl

/-- Does one thing with an array. -/
def act : Op α → Growable α → Answer α × Growable α
  | .push x, a => (.ofResult (fun _ => .done) (a.push x).1, (a.push x).2)
  | .extend xs, a => (.ofResult (fun _ => .done) (a.extend xs).1, (a.extend xs).2)
  | .pop, a => (.ofResult .item a.pop.1, a.pop.2)
  | .remove i, a => (.ofResult .item (a.remove i).1, (a.remove i).2)
  | .replace i x, a => (.ofResult .item (a.replace i x).1, (a.replace i x).2)
  | .get i, a => (.ofResult .item (a.get i), a)
  | .set i x, a => (.ofResult (fun _ => .done) (a.set i x).1, (a.set i x).2)
  | .dropFront n, a => (.dropped (a.dropFront n).1, (a.dropFront n).2)
  | .reserve needed, a => (.ofResult (fun _ => .done) (a.reserve needed).1, (a.reserve needed).2)
  | .clear, a => (.done, a.clear)
  | .withGrowth mayGrow, a => (.done, a.withGrowth mayGrow)
  | .copy, a => (.done, a.copy)

end ScanKit.Growable
