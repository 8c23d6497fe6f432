import ScanKit.Growable.Config
import ScanKit.Growable.Error

/-! # Growable arrays

An array with a capacity of its own. Asking for more room than there is doubles the capacity until
the room is there; an array that may not grow refuses and stays as it was.

The memory behind the elements is left out: the capacity is the number that the array goes by, and
there is always memory for it. Sizes are natural numbers, and only the doubling of a capacity looks
at the bound on them.
-/

universe u

namespace ScanKit

/-- Sizes and counts stay below this bound. -/
def sizeBound : Nat := UInt64.size

structure Growable (α : Type u) where
  items : Array α
  capacity : Nat
  mayGrow : Bool

variable {α : Type u}

namespace Growable

/-- The capacity after room for `needed` elements was asked for. It is doubled as often as it takes;
where a doubling would pass the bound on sizes it becomes what is needed. -/
def grown (needed capacity : Nat) : Nat :=
  if 0 < capacity ∧ capacity < needed then
    if 2 * capacity < sizeBound then grown needed (2 * capacity) else needed
  else capacity
termination_by needed - capacity
decreasing_by omega

/-- An empty array with room for at least one element. -/
def ofCapacity (capacity : Nat) : Growable α := ⟨#[], max capacity 1, true⟩

def empty : Growable α := ofCapacity Config.standard.capacity

instance : Inhabited (Growable α) := ⟨empty⟩

def ofConfig (c : Config) : Except ConfigError (Growable α) :=
  c.validate.map fun _ => ⟨#[], c.capacity, c.mayGrow⟩

def ofList (xs : List α) : Growable α := ⟨xs.toArray, max xs.length Config.standard.capacity, true⟩

/-- Two arrays are equal if they hold the same elements. -/
instance [BEq α] : BEq (Growable α) := ⟨fun a b => a.items == b.items⟩

def size (a : Growable α) : Nat := a.items.size

def toList (a : Growable α) : List α := a.items.toList

def isEmpty (a : Growable α) : Bool := a.items.isEmpty

def withGrowth (a : Growable α) (mayGrow : Bool) : Growable α := { a with mayGrow }

/-- The capacity with which the array has room for `needed` elements. -/
def room (a : Growable α) (needed : Nat) : Except Error Nat :=
  if needed ≤ a.capacity then .ok a.capacity
  else if a.mayGrow then .ok (grown needed a.capacity)
  else .error (.growthRefused needed a.capacity)

/-- Makes room for `needed` elements in all. -/
def reserve (a : Growable α) (needed : Nat) : Except Error Unit × Growable α :=
  match a.room needed with
  | .ok capacity => (.ok (), { a with capacity })
  | .error e => (.error e, a)

def push (a : Growable α) (x : α) : Except Error Unit × Growable α :=
  match a.room (a.size + 1) with
  | .ok capacity => (.ok (), { a with items := a.items.push x, capacity })
  | .error e => (.error e, a)

/-- Adds all of the elements or none. -/
def extend (a : Growable α) (xs : List α) : Except Error Unit × Growable α :=
  match a.room (a.size + xs.length) with
  | .ok capacity => (.ok (), { a with items := a.items ++ xs, capacity })
  | .error e => (.error e, a)

/-- Adds elements one by one up to the first that is refused. -/
def pushEach (a : Growable α) : List α → Except Error Unit × Growable α
  | [] => (.ok (), a)
  | x :: xs => match a.push x with
    | (.ok (), a) => a.pushEach xs
    | (.error e, a) => (.error e, a)

/-- Adds so many terms of a sequence, from the one at `start` on, up to the first that is refused.
No term after that one is computed. -/
def pushTerms (term : Nat → α) (start : Nat) : Nat → Growable α → Except Error Unit × Growable α
  | 0, a => (.ok (), a)
  | n + 1, a => match a.push (term start) with
    | (.ok (), a) => pushTerms term (start + 1) n a
    | (.error e, a) => (.error e, a)

/-- The element at an index, if it is there. -/
def get? (a : Growable α) (i : Nat) : Option α := a.items[i]?

def get (a : Growable α) (i : Nat) : Except Error α := match a.items[i]? with
  | some x => .ok x
  | none => .error (.outOfBounds i a.size)

/-- Puts an element in the place of another and returns that one. -/
def replace (a : Growable α) (i : Nat) (x : α) : Except Error α × Growable α :=
  (a.get i, { a with items := a.items.setIfInBounds i x })

def set (a : Growable α) (i : Nat) (x : α) : Except Error Unit × Growable α :=
  ((a.get i).map fun _ => (), (a.replace i x).2)

/-- Takes the last element. -/
def pop (a : Growable α) : Except Error α × Growable α := match a.items.back? with
  | some x => (.ok x, { a with items := a.items.pop })
  | none => (.error (.outOfBounds 0 0), a)

/-- Takes up to so many elements from the end, one by one. -/
def popEach : Nat → Growable α → List (Except Error α) × Growable α
  | 0, a => ([], a)
  | n + 1, a =>
      let taken := a.pop
      let more := popEach n taken.2
      (taken.1 :: more.1, more.2)

/-- Rotates the items from one on to the left by a place: that one changes places with each of so
many behind it in turn. -/
def rotateFrom : Nat → Nat → Array α → Array α
  | _, 0, items => items
  | i, behind + 1, items => rotateFrom (i + 1) behind (items.swapIfInBounds i (i + 1))

/-- Takes the element at an index; those behind it move up. It is the last one, or is rotated to the
end before it is taken. -/
def remove (a : Growable α) (i : Nat) : Except Error α × Growable α :=
  if a.size ≤ i then (.error (.outOfBounds i a.size), a)
  else if i = a.size - 1 then a.pop
  else pop { a with items := rotateFrom i (a.size - 1 - i) a.items }

/-- Drops up to `n` elements from the front and returns how many it dropped. -/
def dropFront (a : Growable α) (n : Nat) : Nat × Growable α :=
  (min n a.size, { a with items := a.items.extract n a.size })

def clear (a : Growable α) : Growable α := { a with items := #[] }

/-- An array of its own with the same elements and the same room. -/
def copy (a : Growable α) : Growable α := ⟨#[] ++ a.items, a.capacity, a.mayGrow⟩

/-- The numbers below `n`, added one by one. -/
def range (n : Nat) : Growable Nat := (pushTerms id 0 n empty).2

@[simp] theorem toList_mk (items : Array α) (capacity : Nat) (mayGrow : Bool) :
    (Growable.mk items capacity mayGrow).toList = items.toList := rfl

@[simp] theorem length_toList (a : Growable α) : a.toList.length = a.size := rfl

theorem isEmpty_eq (a : Growable α) : a.isEmpty = (a.size == 0) := rfl

@[simp] theorem toList_ofCapacity (n : Nat) : (ofCapacity n : Growable α).toList = [] := rfl

@[simp] theorem toList_ofList (xs : List α) : (ofList xs).toList = xs := rfl

@[simp] theorem toList_withGrowth (a : Growable α) (b : Bool) :
    (a.withGrowth b).toList = a.toList := rfl

@[simp] theorem toList_clear (a : Growable α) : a.clear.toList = [] := rfl

theorem copy_eq (a : Growable α) : a.copy = a := by simp [copy]

@[simp] theorem toList_dropFront (a : Growable α) (n : Nat) :
    (a.dropFront n).2.toList = a.toList.drop n := by
  simp [dropFront, toList, size, List.take_of_length_le]

theorem grown_of_le {needed capacity : Nat} (h : needed ≤ capacity) :
    grown needed capacity = capacity := by
  rw [grown, if_neg (fun hlt => Nat.not_lt.2 h hlt.2)]

theorem grown_zero (needed : Nat) : grown needed 0 = 0 := by
  rw [grown, if_neg (fun hlt => Nat.lt_irrefl 0 hlt.1)]

theorem grown_of_double_lt {needed capacity : Nat} (hpos : 0 < capacity) (h : capacity < needed)
    (hfits : 2 * capacity < sizeBound) : grown needed capacity = grown needed (2 * capacity) := by
  rw [grown, if_pos ⟨hpos, h⟩, if_pos hfits]

theorem grown_of_le_double {needed capacity : Nat} (hpos : 0 < capacity) (h : capacity < needed)
    (hpast : sizeBound ≤ 2 * capacity) : grown needed capacity = needed := by
  rw [grown, if_pos ⟨hpos, h⟩, if_neg (Nat.not_lt.2 hpast)]

theorem toList_push {a : Growable α} {x : α} (h : (a.push x).1 = .ok ()) :
    (a.push x).2.toList = a.toList ++ [x] := by
  unfold push at h ⊢
  split
  · simp [toList]
  · simp_all

theorem push_of_error {a : Growable α} {x : α} {e : Error} (h : (a.push x).1 = .error e) :
    (a.push x).2 = a := by
  unfold push at h ⊢
  split
  · simp_all
  · rfl

theorem toList_extend {a : Growable α} {xs : List α} (h : (a.extend xs).1 = .ok ()) :
    (a.extend xs).2.toList = a.toList ++ xs := by
  unfold extend at h ⊢
  split
  · simp [toList]
  · simp_all

theorem extend_of_error {a : Growable α} {xs : List α} {e : Error}
    (h : (a.extend xs).1 = .error e) : (a.extend xs).2 = a := by
  unfold extend at h ⊢
  split
  · simp_all
  · rfl

/-- Terms of a sequence are added as if they had been listed before. -/
theorem pushTerms_eq_pushEach (term : Nat → α) (start n : Nat) (a : Growable α) :
    pushTerms term start n a = a.pushEach ((List.range' start n).map term) := by
  induction n generalizing start a with
  | zero => rfl
  | succ n ih =>
      simp only [pushTerms, List.range'_succ, List.map_cons, pushEach]
      split <;> simp_all

theorem get?_eq (a : Growable α) (i : Nat) : a.get? i = a.toList[i]? := by simp [get?, toList]

theorem get_eq (a : Growable α) (i : Nat) :
    a.get i = match a.toList[i]? with
      | some x => .ok x
      | none => .error (.outOfBounds i a.toList.length) := by
  simp [get, toList, size]

@[simp] theorem toList_replace (a : Growable α) (i : Nat) (x : α) :
    (a.replace i x).2.toList = a.toList.set i x := by
  simp [replace, toList]

@[simp] theorem toList_pop (a : Growable α) : a.pop.2.toList = a.toList.dropLast := by
  unfold pop
  split
  · simp [toList]
  · simp_all [toList]

/-- The element goes behind those that stand behind it. -/
theorem toList_rotateFrom {front back : List α} {x : α} {items : Array α}
    (h : items.toList = front ++ x :: back) :
    (rotateFrom front.length back.length items).toList = front ++ back ++ [x] := by
  induction back generalizing front items with
  | nil => simp [rotateFrom, h]
  | cons y back ih =>
      have hswap : (items.swapIfInBounds front.length (front.length + 1)).toList =
          (front ++ [y]) ++ x :: back := by
        obtain rfl : items = (front ++ x :: y :: back).toArray := Array.toList_inj.1 h
        simp [Array.swapIfInBounds]
      have hrest := ih hswap
      rw [List.length_append, List.length_singleton, List.append_assoc front] at hrest
      exact hrest

theorem remove_of_le {a : Growable α} {i : Nat} (h : a.size ≤ i) :
    a.remove i = (.error (.outOfBounds i a.size), a) := if_pos h

/-- The last element needs no rotation. -/
theorem remove_of_lt {a : Growable α} {i : Nat} (h : i < a.size) :
    a.remove i = pop { a with items := rotateFrom i (a.size - 1 - i) a.items } := by
  rw [remove, if_neg (Nat.not_le.2 h)]
  split
  · next hlast =>
      rw [hlast, Nat.sub_self]
      rfl
  · rfl

end Growable

end ScanKit
