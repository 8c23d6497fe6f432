import ScanKit.Proofs.Growable.Growth
import ScanKit.Proofs.Growable.Operation
import Mathlib.Data.List.Rotate

/-!
# Growable arrays as lists

A bounded list is a list with a capacity, which may be raised or not.  Every array is one
(`Growable.listed`), each operation does to the array what it does to the list (`act_listed`), and
so every run of an array is a run of a list.
-/

universe u

namespace ScanKit.Growable

variable {α : Type u}

/-! ## Bounded lists -/

/-- A list with room for so many elements, and whether more room may be made. -/
structure BoundedList (α : Type u) where
  items : List α
  capacity : Nat
  mayGrow : Bool

namespace BoundedList

/-- Holds other elements from now on, if there is room for as many as are needed or may be made.  How
much room is made is said by `GrowsTo` (see `growsTo_fit`). -/
def fit (l : BoundedList α) (needed : Nat) (items : List α) : Answer α × BoundedList α :=
  if l.capacity < needed ∧ l.mayGrow = false then
    (.refused (.growthRefused needed l.capacity), l)
  else (.done, { l with items, capacity := grown needed l.capacity })

/-- Answers about the element at an index and holds other elements from now on, if it is there. -/
def takeAt (l : BoundedList α) (i : Nat) (form : α → Answer α) (items : List α) :
    Answer α × BoundedList α :=
  if h : i < l.items.length then (form l.items[i], { l with items })
  else (.refused (.outOfBounds i l.items.length), l)

/-- What an operation does to a list.  The last element is the one at `length - 1`, and where there
is none that index and the length are 0. -/
def act : Op α → BoundedList α → Answer α × BoundedList α
  | .push x, l => l.fit (l.items.length + 1) (l.items ++ [x])
  | .extend xs, l => l.fit (l.items.length + xs.length) (l.items ++ xs)
  | .reserve needed, l => l.fit needed l.items
  | .pop, l => l.takeAt (l.items.length - 1) .item l.items.dropLast
  | .remove i, l => l.takeAt i .item (l.items.eraseIdx i)
  | .replace i x, l => l.takeAt i .item (l.items.set i x)
  | .get i, l => l.takeAt i .item l.items
  | .set i x, l => l.takeAt i (fun _ => .done) (l.items.set i x)
  | .dropFront n, l => (.dropped (min n l.items.length), { l with items := l.items.drop n })
  | .clear, l => (.done, { l with items := [] })
  | .withGrowth mayGrow, l => (.done, { l with mayGrow })
  | .copy, l => (.done, l)

/-- The room that is made is told without the loop that makes it. -/
theorem growsTo_fit {l : BoundedList α} (hpos : 0 < l.capacity) {needed : Nat} {items : List α}
    (hdone : (l.fit needed items).1 = .done) :
    GrowsTo l.capacity needed (l.fit needed items).2.capacity := by
  by_cases hfull : l.capacity < needed ∧ l.mayGrow = false
  · rw [fit, if_pos hfull] at hdone
    cases hdone
  · rw [fit, if_neg hfull]
    exact growsTo_grown hpos needed

theorem fit_of_refused {l : BoundedList α} {needed : Nat} {items : List α} {e : Error}
    (h : (l.fit needed items).1 = .refused e) : (l.fit needed items).2 = l := by
  by_cases hfull : l.capacity < needed ∧ l.mayGrow = false
  · rw [fit, if_pos hfull]
  · rw [fit, if_neg hfull] at h
    cases h

theorem takeAt_of_refused {l : BoundedList α} {i : Nat} {form : α → Answer α} {items : List α}
    {e : Error} (hform : ∀ x, form x ≠ .refused e) (h : (l.takeAt i form items).1 = .refused e) :
    (l.takeAt i form items).2 = l := by
  by_cases hi : i < l.items.length
  · rw [takeAt, dif_pos hi] at h
    exact absurd h (hform _)
  · rw [takeAt, dif_neg hi]

/-- An operation that is refused leaves the list as it was. -/
theorem act_of_refused {op : Op α} {l : BoundedList α} {e : Error}
    (h : (act op l).1 = .refused e) : (act op l).2 = l := by
  cases op with
  | push x | extend xs | reserve needed => exact fit_of_refused h
  | pop | remove i | replace i x | get i | set i x => exact takeAt_of_refused (fun _ => nofun) h
  | dropFront n | clear | withGrowth mayGrow | copy => cases h

end BoundedList

/-! ## Arrays -/

/-- What an array is apart from its storage. -/
def listed (a : Growable α) : BoundedList α := ⟨a.toList, a.capacity, a.mayGrow⟩

theorem listed_injective : Function.Injective (listed : Growable α → BoundedList α) := by
  rintro ⟨items, capacity, mayGrow⟩ ⟨items', capacity', mayGrow'⟩ h
  simpa [listed, toList] using h

/-- Room is refused if it is not there and may not be made. -/
theorem room_eq (a : Growable α) (needed : Nat) :
    a.room needed = if a.capacity < needed ∧ a.mayGrow = false then
      .error (.growthRefused needed a.capacity) else .ok (grown needed a.capacity) := by
  rcases Nat.lt_or_ge a.capacity needed with hlt | hle
  · cases hgrow : a.mayGrow <;> simp [room, hlt, Nat.not_le.2 hlt, hgrow]
  · simp [room, hle, grown_of_le, Nat.not_lt.2 hle]

/-- The list is refused room where the array is. -/
theorem fit_listed (a : Growable α) (needed : Nat) (items : List α) :
    a.listed.fit needed items = match a.room needed with
      | .ok capacity => (.done, ⟨items, capacity, a.mayGrow⟩)
      | .error e => (.refused e, a.listed) := by
  rw [room_eq]
  unfold BoundedList.fit
  by_cases h : a.capacity < needed ∧ a.mayGrow = false
  · rw [if_pos h]
    exact if_pos h
  · rw [if_neg h]
    exact if_neg h

/-- The list answers about an index as the array does.  Where there is no element nothing may be
changed. -/
theorem takeAt_listed {a : Growable α} {i : Nat} {items : List α} (form : α → Answer α)
    (hsame : a.toList.length ≤ i → items = a.toList) :
    a.listed.takeAt i form items = (.ofResult form (a.get i), ⟨items, a.capacity, a.mayGrow⟩) := by
  unfold BoundedList.takeAt
  rcases Nat.lt_or_ge i a.toList.length with hlt | hle
  · rw [get_eq, List.getElem?_eq_getElem hlt]
    exact dif_pos hlt
  · rw [get_eq, List.getElem?_eq_none hle, hsame hle]
    exact dif_neg (Nat.not_lt.2 hle)

/-- The last element is the one at the last index, and its absence is an error about that index. -/
theorem pop_eq (a : Growable α) :
    a.pop = (a.get (a.size - 1), { a with items := a.items.pop }) := by
  have hback : a.items.back? = a.items[a.size - 1]? := Array.back?_eq_getElem?
  unfold pop get
  rw [hback]
  cases hlast : a.items[a.size - 1]? with
  | some x => rfl
  | none =>
      have hempty : a.items = #[] := by
        have hle := Array.getElem?_eq_none_iff.1 hlast
        have hsize : a.items.size = 0 := by
          rw [size] at hle
          omega
        exact Array.size_eq_zero_iff.1 hsize
      cases a with
      | mk items capacity mayGrow =>
          subst hempty
          rfl

/-- An element is removed by rotating it to the end, past those behind it, and taking the last. -/
theorem remove_eq_pop_rotate {a : Growable α} {i : Nat} (h : i < a.toList.length) :
    a.remove i = Growable.pop
      { a with items := (a.toList.take i ++ (a.toList.drop i).rotate 1).toArray } := by
  have hfront : (a.toList.take i).length = i := List.length_take_of_le (Nat.le_of_lt h)
  have hback : (a.toList.drop (i + 1)).length = a.size - 1 - i := by
    rw [List.length_drop, length_toList]
    omega
  have hsplit : a.items.toList = a.toList.take i ++ a.toList[i] :: a.toList.drop (i + 1) := by
    rw [← List.drop_eq_getElem_cons h, List.take_append_drop]
    rfl
  have hrotated := toList_rotateFrom hsplit
  rw [hfront, hback] at hrotated
  have hitems : rotateFrom i (a.size - 1 - i) a.items =
      (a.toList.take i ++ (a.toList.drop i).rotate 1).toArray := by
    apply Array.toList_inj.1
    rw [List.toList_toArray, hrotated, List.drop_eq_getElem_cons h, List.rotate_cons_succ,
      List.rotate_zero, List.append_assoc]
  rw [remove_of_lt h, hitems]

/-- The element at the index is answered, and where there is none nothing is erased. -/
theorem remove_eq (a : Growable α) (i : Nat) :
    a.remove i = (a.get i, { a with items := (a.toList.eraseIdx i).toArray }) := by
  rcases Nat.lt_or_ge i a.toList.length with hlt | hle
  · have hrotated : a.toList.take i ++ (a.toList.drop i).rotate 1 =
        a.toList.eraseIdx i ++ [a.toList[i]] := by
      rw [List.drop_eq_getElem_cons hlt, List.rotate_cons_succ, List.rotate_zero,
        ← List.append_assoc, ← List.eraseIdx_eq_take_drop_succ]
    rw [remove_eq_pop_rotate hlt, hrotated, get_eq, List.getElem?_eq_getElem hlt]
    simp [pop]
  · rw [remove_of_le hle, get_eq, List.getElem?_eq_none hle, List.eraseIdx_of_length_le hle]
    rfl

@[simp] theorem toList_remove (a : Growable α) (i : Nat) :
    (a.remove i).2.toList = a.toList.eraseIdx i := by
  rw [remove_eq]
  rfl

/-- An operation does to an array what it does to the list that the array is. -/
theorem act_listed (op : Op α) (a : Growable α) :
    BoundedList.act op a.listed = ((act op a).1, (act op a).2.listed) := by
  cases op with
  | push x =>
      show a.listed.fit (a.size + 1) (a.toList ++ [x]) = _
      simp only [fit_listed, act, push]
      rcases a.room (a.size + 1) with e | capacity
      · rfl
      · simp [listed, toList, Answer.ofResult]
  | extend xs =>
      show a.listed.fit (a.size + xs.length) (a.toList ++ xs) = _
      simp only [fit_listed, act, extend]
      rcases a.room (a.size + xs.length) with e | capacity
      · rfl
      · simp [listed, toList, Answer.ofResult]
  | reserve needed =>
      show a.listed.fit needed a.toList = _
      simp only [fit_listed, act, reserve]
      rcases a.room needed with e | capacity <;> rfl
  | pop =>
      have hsame : a.toList.length ≤ a.size - 1 → a.toList.dropLast = a.toList := by
        intro hle
        rw [length_toList] at hle
        have hnil : a.toList = [] := List.eq_nil_of_length_eq_zero (by rw [length_toList]; omega)
        rw [hnil]
        rfl
      refine (takeAt_listed .item hsame).trans ?_
      rw [← toList_pop]
      simp only [act, pop_eq]
      rfl
  | remove i =>
      refine (takeAt_listed .item List.eraseIdx_of_length_le).trans ?_
      simp only [act, remove_eq]
      rfl
  | replace i x =>
      refine (takeAt_listed .item fun hle => List.set_eq_of_length_le hle).trans ?_
      rw [← toList_replace a i x]
      rfl
  | get i => exact takeAt_listed .item fun _ => rfl
  | set i x =>
      refine (takeAt_listed (fun _ => .done) fun hle => List.set_eq_of_length_le hle).trans ?_
      rw [← toList_replace a i x, act, set, Answer.ofResult_map]
      rfl
  | dropFront n =>
      show (Answer.dropped (min n a.size),
        BoundedList.mk (a.toList.drop n) a.capacity a.mayGrow) = _
      rw [← toList_dropFront]
      rfl
  | clear | withGrowth mayGrow => rfl
  | copy =>
      rw [act, copy_eq]
      rfl

/-! ## Runs -/

/-- The list that an array is at its start. -/
def Start.listed : Start α → BoundedList α
  | empty => ⟨[], 64, true⟩
  | ofCapacity capacity => ⟨[], max capacity 1, true⟩
  | ofConfig c => ⟨[], c.capacity, c.mayGrow⟩
  | ofList xs => ⟨xs, max xs.length 64, true⟩

theorem Start.listed_build {start : Start α} {a : Growable α} (h : start.build = .ok a) :
    a.listed = start.listed := by
  cases start with
  | empty | ofCapacity capacity | ofList xs =>
      cases h
      rfl
  | ofConfig c =>
      simp only [build, Growable.ofConfig] at h
      cases hvalid : c.validate with
      | error e =>
          rw [hvalid] at h
          cases h
      | ok valid =>
          rw [hvalid] at h
          cases h
          rfl

/-- However an array was made and whatever was done with it, its elements, its capacity and its
leave to grow are those of a list with which the same was done, and so is everything that came back.
What is refused leaves the array as it was. -/
theorem runs_as_list (start : Start α) {a : Growable α} (hbuild : start.build = .ok a)
    (ops : List (Op α)) :
    answersOf act ops a = answersOf BoundedList.act ops start.listed ∧
      (stateAfter act ops a).listed = stateAfter BoundedList.act ops start.listed ∧
      ∀ op e, (act op (stateAfter act ops a)).1 = .refused e →
        (act op (stateAfter act ops a)).2 = stateAfter act ops a := by
  obtain ⟨hanswers, hstate⟩ := run_map act_listed ops a
  rw [Start.listed_build hbuild] at hanswers hstate
  refine ⟨hanswers.symm, hstate.symm, ?_⟩
  intro op e hrefused
  have hact := act_listed op (stateAfter act ops a)
  have hsame := BoundedList.act_of_refused ((congrArg Prod.fst hact).trans hrefused)
  rw [hact] at hsame
  exact listed_injective hsame

/-- A start without leave to grow. -/
def fixedPair : Start Nat := .ofConfig (Config.ofCapacity 2).fixed

/-- Operations with a third element that is refused until the array may grow. -/
def thirdRefused : List (Op Nat) :=
  [.extend [10, 20], .push 30, .withGrowth true, .push 30, .remove 0, .dropFront 9, .pop]

/-- What comes back is what comes back from a list. -/
theorem runs_as_list_fixedPair :
    fixedPair.build = .ok ⟨#[], 2, false⟩ ∧
      answersOf act thirdRefused ⟨#[], 2, false⟩ =
        [.done, .refused (.growthRefused 3 2), .done, .done, .item 10, .dropped 2,
          .refused (.outOfBounds 0 0)] := by
  have hbuild : fixedPair.build = .ok ⟨#[], 2, false⟩ := rfl
  refine ⟨hbuild, (runs_as_list fixedPair hbuild thirdRefused).1.trans ?_⟩
  have hgrown : grown 3 2 = 4 := by simp [grown, sizeBound, UInt64.size]
  simp [thirdRefused, answersOf, BoundedList.act, BoundedList.fit, BoundedList.takeAt, fixedPair,
    Start.listed, Config.ofCapacity, Config.fixed, grown_of_le, hgrown]

end ScanKit.Growable
