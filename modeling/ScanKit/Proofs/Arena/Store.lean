import ScanKit.Proofs.Arena.Path
import ScanKit.Proofs.Arena.Call

/-!
# A store that never reuses a name

A store is what an arena would be if names cost nothing.  Keys are the natural numbers, a new node
takes the first key that was never used, and a node that is removed leaves its key unused for good.
There are no slots, no generations and no vacant list.
-/

universe u v

namespace ScanKit

/-- The nodes under all keys that were ever used, with their links. -/
structure Store (α : Type u) where
  cells : List (Option (α × Option Nat))

namespace Store

variable {α : Type u} {σ : Type v}

def empty : Store α := ⟨[]⟩

/-- The key that was never used. -/
def fresh (s : Store α) : Nat := s.cells.length

/-- The value and the link under a key. -/
def look (s : Store α) (k : Nat) : Option (α × Option Nat) := s.cells[k]?.join

/-- Puts a node without a link under the fresh key. -/
def push (s : Store α) (value : α) : Store α := ⟨s.cells ++ [some (value, none)]⟩

def put (s : Store α) (k : Nat) (c : α × Option Nat) : Store α := ⟨s.cells.set k (some c)⟩

def delete (s : Store α) (k : Nat) : Store α := ⟨s.cells.set k none⟩

def deleteAll (s : Store α) (ks : List Nat) : Store α := ks.foldl delete s

def clear (s : Store α) : Store α := ⟨s.cells.map fun _ => none⟩

def live (s : Store α) : Nat := s.cells.countP (·.isSome)

/-- The chain from a key on, which is no longer than there are keys, and the key at which it breaks,
if it does. -/
def walk (s : Store α) (root : Nat) : List (Nat × α) × Option Nat :=
  Path.meet s.look (s.fresh + 1) root

/-- The first key whose value a test accepts. -/
def firstAccepted (accept : σ → α → Bool × σ) : σ → List (Nat × α) → Option Nat × σ
  | s, [] => (none, s)
  | s, (k, value) :: rest => match accept s value with
    | (true, s) => (some k, s)
    | (false, s) => firstAccepted accept s rest

/-- The call that a store is asked for. -/
@[simp] def act : Call Nat α σ → Store α → Answer Nat α σ × Store α
  | .alloc value, s => (.made (.ok s.fresh), s.push value)
  | .append root value, s => match s.walk root with
    | (nodes, none) => match nodes.getLast? with
      | some x => (.made (.ok s.fresh), (s.push value).put x.1 (x.2, some s.fresh))
      | none => (.made (.error root), s)
    | (_, some k) => (.made (.error k), s)
  | .get k, s => match s.look k with
    | some c => (.value (.ok c.1), s)
    | none => (.value (.error k), s)
  | .set k value, s => match s.look k with
    | some c => (.done (.ok ()), s.put k (value, c.2))
    | none => (.done (.error k), s)
  | .next k, s => match s.look k with
    | some c => (.link (.ok c.2), s)
    | none => (.link (.error k), s)
  | .tail root, s => match s.walk root with
    | (nodes, e) => (.last (completed e ((nodes.getLast?.map (·.1)).getD root)), s)
  | .chainLength root, s => match s.walk root with
    | (nodes, e) => (.count (completed e nodes.length), s)
  | .values root, s => match s.look root with
    | some _ => (.values (.ok ((s.walk root).1.map (·.2))), s)
    | none => (.values (.error root), s)
  | .find root accept t, s => match firstAccepted accept t (s.walk root).1 with
    | (some k, t) => (.found (.ok (some k)) t, s)
    | (none, t) => (.found (completed (s.walk root).2 none) t, s)
  | .contains k, s => (.flag (s.look k).isSome, s)
  | .live, s => (.live s.live, s)
  | .free k, s => match s.look k with
    | some c => (.freed (.ok c), s.delete k)
    | none => (.freed (.error k), s)
  | .freeChain root, s => match s.look root with
    | some _ => (.count (.ok (s.walk root).1.length), s.deleteAll ((s.walk root).1.map (·.1)))
    | none => (.count (.error root), s)
  | .clear, s => (.cleared, s.clear)

end Store

end ScanKit
