import ScanKit.Proofs.Growable.Capacity

/-!
# Adding many elements at once

A batch asks for its room in one step, elements that are added one by one ask for theirs step by
step.  Room made step by step is the room made at once, so where the batch is taken both ways leave
the same array.  Where it is refused they part: the batch leaves the array alone, one by one fills
it up.
-/

universe u

namespace ScanKit.Growable

variable {α : Type u}

/-! ## One batch -/

/-- The array with elements added at its end and with the room that they need. -/
def added (a : Growable α) (xs : List α) : Growable α :=
  ⟨a.items ++ xs, grown (a.size + xs.length) a.capacity, a.mayGrow⟩

/-- So many more elements are refused: there is no room for them, and none may be made. -/
def Refuses (a : Growable α) (n : Nat) : Prop := a.capacity < a.size + n ∧ a.mayGrow = false

instance (a : Growable α) (n : Nat) : Decidable (a.Refuses n) :=
  inferInstanceAs (Decidable (_ ∧ _))

theorem extend_of_refuses {a : Growable α} {xs : List α} (h : a.Refuses xs.length) :
    a.extend xs = (.error (.growthRefused (a.size + xs.length) a.capacity), a) := by
  have hroom : a.room (a.size + xs.length) = .error (.growthRefused _ a.capacity) :=
    (room_eq a _).trans (if_pos h)
  simp only [extend, hroom]

theorem extend_of_not_refuses {a : Growable α} {xs : List α} (h : ¬ a.Refuses xs.length) :
    a.extend xs = (.ok (), a.added xs) := by
  have hroom : a.room (a.size + xs.length) = .ok (grown _ a.capacity) :=
    (room_eq a _).trans (if_neg h)
  simp only [extend, hroom, added]

/-- One element is a batch of its own. -/
theorem push_eq_extend (a : Growable α) (x : α) : a.push x = a.extend [x] := by
  simp only [push, extend, List.length_singleton]
  cases a.room (a.size + 1) with
  | error e => rfl
  | ok capacity => simp

/-! ## Batch by batch -/

@[simp] theorem toList_added (a : Growable α) (xs : List α) :
    (a.added xs).toList = a.toList ++ xs := by
  simp [added, toList]

@[simp] theorem size_added (a : Growable α) (xs : List α) :
    (a.added xs).size = a.size + xs.length := by
  rw [← length_toList, toList_added, List.length_append, length_toList]

theorem added_nil {a : Growable α} (h : a.size ≤ a.capacity) : a.added [] = a := by
  have hcapacity : grown a.size a.capacity = a.capacity := grown_of_le h
  simp [added, hcapacity]

/-- The room for two batches is the room for both of them at once. -/
theorem added_added (a : Growable α) (xs ys : List α) :
    (a.added xs).added ys = a.added (xs ++ ys) := by
  refine listed_injective ?_
  simp only [listed, toList_added, List.append_assoc, BoundedList.mk.injEq, true_and]
  refine ⟨?_, rfl⟩
  calc grown ((a.added xs).size + ys.length) (a.added xs).capacity
      = grown (max (a.size + xs.length) (a.size + xs.length + ys.length)) a.capacity := by
        rw [size_added]
        exact grown_grown ..
    _ = grown (a.size + (xs ++ ys).length) a.capacity := by
        rw [Nat.max_eq_right (Nat.le_add_right ..), List.length_append, Nat.add_assoc]

theorem roomy_added {a : Growable α} (h : a.listed.Roomy) (xs : List α) :
    (a.added xs).listed.Roomy := by
  have hpos : 0 < a.capacity := h.capacity_pos
  refine ⟨hpos.trans_le (le_grown ..), ?_⟩
  show (a.added xs).size ≤ _
  rw [size_added]
  exact needed_le_grown hpos _

/-- What is not refused after a batch was added is what was not refused with that batch before. -/
theorem not_refuses_added {a : Growable α} {xs : List α} {n : Nat}
    (h : ¬ a.Refuses (xs.length + n)) : ¬ (a.added xs).Refuses n := by
  rintro ⟨hfull, hfixed⟩
  have hle : a.capacity ≤ (a.added xs).capacity := le_grown ..
  rw [size_added] at hfull
  exact h ⟨by omega, hfixed⟩

/-! ## One by one -/

/-- Where a batch is not refused, its elements can be added one by one instead. -/
theorem pushEach_of_not_refuses {a : Growable α} {xs : List α} (h : ¬ a.Refuses xs.length)
    (hroomy : a.listed.Roomy) : a.pushEach xs = (.ok (), a.added xs) := by
  induction xs generalizing a with
  | nil => rw [pushEach, added_nil hroomy.length_le]
  | cons x xs ih =>
      have hfirst : ¬ a.Refuses [x].length := fun hrefuses =>
        h ⟨by have := hrefuses.1; simp only [List.length_cons, List.length_nil] at this ⊢; omega,
          hrefuses.2⟩
      have hrest : ¬ (a.added [x]).Refuses xs.length :=
        not_refuses_added (by rwa [List.length_singleton, Nat.add_comm])
      have hpush : a.push x = (.ok (), a.added [x]) :=
        (push_eq_extend a x).trans (extend_of_not_refuses hfirst)
      simp only [pushEach, hpush]
      rw [ih hrest (roomy_added hroomy [x]), added_added, List.singleton_append]

theorem pushEach_append {a b : Growable α} {xs : List α} (h : a.pushEach xs = (.ok (), b))
    (ys : List α) : a.pushEach (xs ++ ys) = b.pushEach ys := by
  induction xs generalizing a with
  | nil =>
      cases h
      rfl
  | cons x xs ih =>
      simp only [List.cons_append, pushEach] at h ⊢
      rcases hpush : a.push x with ⟨e | ⟨⟩, a'⟩
      · simp [hpush] at h
      · rw [hpush] at h
        exact ih h

/-- Where a batch is refused, as many of its elements as there is room for can be added one by
one, and then the array is full. -/
theorem fills_of_refuses {a : Growable α} {xs : List α} (h : a.Refuses xs.length)
    (hroomy : a.listed.Roomy) :
    a.capacity - a.size < xs.length ∧
      a.pushEach (xs.take (a.capacity - a.size)) =
        (.ok (), a.added (xs.take (a.capacity - a.size))) ∧
      (a.added (xs.take (a.capacity - a.size))).listed =
        ⟨a.toList ++ xs.take (a.capacity - a.size), a.capacity, a.mayGrow⟩ := by
  have hshort := h.1
  have hle : a.size ≤ a.capacity := hroomy.length_le
  have hmore : a.capacity - a.size < xs.length := by omega
  have hfits : a.size + (xs.take (a.capacity - a.size)).length = a.capacity := by
    rw [List.length_take, Nat.min_eq_left hmore.le]
    omega
  refine ⟨hmore, pushEach_of_not_refuses ?_ hroomy, ?_⟩
  · rintro ⟨hfull, -⟩
    omega
  · have hcapacity := grown_of_le hfits.le
    simp only [listed, toList_added]
    rw [added, hcapacity]

/-- The element after those is refused. -/
theorem pushEach_of_refuses {a : Growable α} {xs : List α} (h : a.Refuses xs.length)
    (hroomy : a.listed.Roomy) :
    a.pushEach xs = (.error (.growthRefused (a.capacity + 1) a.capacity),
      a.added (xs.take (a.capacity - a.size))) := by
  obtain ⟨hmore, hfill, hfull⟩ := fills_of_refuses h hroomy
  generalize a.added (xs.take (a.capacity - a.size)) = full at hfill hfull ⊢
  have hle : a.size ≤ a.capacity := hroomy.length_le
  have hcapacity : full.capacity = a.capacity := congrArg BoundedList.capacity hfull
  have hsize : full.size = a.capacity := by
    have hlength := congrArg (fun l => l.items.length) hfull
    simp only [List.length_append, List.length_take, Nat.min_eq_left hmore.le] at hlength
    rw [← length_toList]
    refine hlength.trans ?_
    rw [length_toList]
    omega
  have hnext : full.Refuses 1 := by
    refine ⟨?_, (congrArg BoundedList.mayGrow hfull).trans h.2⟩
    rw [hsize, hcapacity]
    exact Nat.lt_succ_self _
  have hpush : full.push xs[a.capacity - a.size] =
      (.error (.growthRefused (a.capacity + 1) a.capacity), full) := by
    rw [push_eq_extend, extend_of_refuses hnext, List.length_singleton, hsize, hcapacity]
  calc a.pushEach xs
      = a.pushEach (xs.take (a.capacity - a.size) ++ xs.drop (a.capacity - a.size)) := by
        rw [List.take_append_drop]
    _ = full.pushEach (xs[a.capacity - a.size] :: xs.drop (a.capacity - a.size + 1)) := by
        rw [pushEach_append hfill, List.drop_eq_getElem_cons hmore]
    _ = (.error (.growthRefused (a.capacity + 1) a.capacity), full) := by
        simp only [pushEach, hpush]

/-! ## Both ways beside each other -/

/-- Elements are added at once or one by one. -/
structure AddsAlike (a : Growable α) (xs : List α) : Prop where
  /-- Either both ways succeed or neither does. -/
  ok_iff : (a.extend xs).1 = .ok () ↔ (a.pushEach xs).1 = .ok ()
  /-- They leave the same elements, the same capacity and the same leave to grow. -/
  same : (a.extend xs).1 = .ok () → (a.extend xs).2 = (a.pushEach xs).2
  /-- A batch that is refused is refused as a whole, with the room that it would need. -/
  refused : ∀ e, (a.extend xs).1 = .error e →
    e = .growthRefused (a.size + xs.length) a.capacity ∧ (a.extend xs).2 = a
  /-- One by one, the elements before that fill the array up, and the next one is refused. -/
  filled : ∀ e, (a.extend xs).1 = .error e →
    a.capacity - a.size < xs.length ∧ ∃ full,
      a.pushEach (xs.take (a.capacity - a.size)) = (.ok (), full) ∧
      full.listed = ⟨a.toList ++ xs.take (a.capacity - a.size), a.capacity, a.mayGrow⟩ ∧
      a.pushEach xs = (.error (.growthRefused (a.capacity + 1) a.capacity), full)

theorem addsAlike {a : Growable α} (hroomy : a.listed.Roomy) (xs : List α) : a.AddsAlike xs := by
  by_cases h : a.Refuses xs.length
  · have hextend := extend_of_refuses h
    have heach := pushEach_of_refuses h hroomy
    constructor
    case ok_iff => simp [hextend, heach]
    case same =>
      intro hok
      rw [hextend] at hok
      cases hok
    case refused =>
      intro e he
      rw [hextend] at he ⊢
      cases he
      exact ⟨rfl, rfl⟩
    case filled =>
      intro e _
      obtain ⟨hmore, hfill, hfull⟩ := fills_of_refuses h hroomy
      exact ⟨hmore, _, hfill, hfull, heach⟩
  · have hextend := extend_of_not_refuses h
    have heach := pushEach_of_not_refuses h hroomy
    constructor
    case ok_iff => simp [hextend, heach]
    case same =>
      intro _
      rw [hextend, heach]
    case refused | filled =>
      intro e he
      rw [hextend] at he
      cases he

/-- However an array was made and whatever was done with it, adding a batch of elements to it is
adding them one by one if it is granted.  If it is refused nothing is added, with the room for all
of them in the error, while one by one as many are added as there is room for, with the room for
one more in the error. -/
theorem extend_alike_pushEach (start : Start α) {a : Growable α} (hbuild : start.build = .ok a)
    (ops : List (Op α)) (xs : List α) : (stateAfter act ops a).AddsAlike xs :=
  addsAlike (roomy_run (Start.roomy_build hbuild) ops) xs

/-- A start with room for three elements and no leave to grow. -/
def fixedTriple : Start Nat := .ofConfig (Config.ofCapacity 3).fixed

/-- Beside one element a batch of four is refused; two of its elements can be added one by one. -/
theorem extend_alike_pushEach_fourRefused :
    fixedTriple.build = .ok ⟨#[], 3, false⟩ ∧
      (stateAfter act [.push 10] ⟨#[], 3, false⟩).extend [20, 30, 40, 50] =
        (.error (.growthRefused 5 3), ⟨#[10], 3, false⟩) ∧
      (stateAfter act [.push 10] ⟨#[], 3, false⟩).pushEach [20, 30, 40, 50] =
        (.error (.growthRefused 4 3), ⟨#[10, 20, 30], 3, false⟩) := by
  have hbuild : fixedTriple.build = .ok ⟨#[], 3, false⟩ := rfl
  have hextend : (stateAfter act [.push 10] ⟨#[], 3, false⟩).extend [20, 30, 40, 50] =
      (.error (.growthRefused 5 3), ⟨#[10], 3, false⟩) := rfl
  refine ⟨hbuild, hextend, ?_⟩
  obtain ⟨-, full, -, hfull, heach⟩ :=
    (extend_alike_pushEach fixedTriple hbuild [.push 10] [20, 30, 40, 50]).filled _
      (congrArg Prod.fst hextend)
  refine heach.trans (Prod.ext rfl (listed_injective (hfull.trans ?_)))
  rfl

end ScanKit.Growable
