import ScanKit.Growable.Basic
import ScanKit.Proofs.Loop
import Mathlib.Order.Nat
import Mathlib.Tactic.Ring

/-!
# How far a capacity grows

`GrowsTo` says what a capacity grows to without a loop, and `growsTo_grown` that doubling in a loop
comes to it.  Room made step by step is the room made at once (`grown_grown`).  The loop itself runs
on machine words; `growTurn_endsWithin` says that it ends, and that what it ends with was not
wrapped around on the way.
-/

namespace ScanKit.Growable

/-! ## Without a loop -/

/-- What a capacity grows to where room for `needed` elements is asked for.  It stays if there is
room.  If not, it becomes the least of its doublings with room, unless that one passes the bound on
sizes: then it becomes what is needed. -/
structure GrowsTo (capacity needed reached : Nat) : Prop where
  stays : needed ≤ capacity → reached = capacity
  doubles : capacity < needed →
    ∃ least, IsLeast {n | needed ≤ n ∧ ∃ k, n = capacity * 2 ^ k} least ∧
      reached = if least < sizeBound then least else needed

variable {capacity needed : Nat}

theorem exists_least_doubling (h : 0 < capacity) (needed : Nat) :
    ∃ least, IsLeast {n | needed ≤ n ∧ ∃ k, n = capacity * 2 ^ k} least := by
  classical
  have henough : needed ≤ capacity * 2 ^ needed :=
    calc needed ≤ 2 ^ needed := Nat.lt_two_pow_self.le
      _ ≤ capacity * 2 ^ needed := Nat.le_mul_of_pos_left _ h
  have hsome : {n | needed ≤ n ∧ ∃ k, n = capacity * 2 ^ k}.Nonempty := ⟨_, henough, needed, rfl⟩
  exact ⟨_, hsome.isLeast_natFind⟩

/-- A capacity without room has the same doublings with room as its double. -/
theorem doublings_double (h : capacity < needed) :
    {n | needed ≤ n ∧ ∃ k, n = capacity * 2 ^ k} =
      {n | needed ≤ n ∧ ∃ k, n = 2 * capacity * 2 ^ k} := by
  ext n
  constructor
  · rintro ⟨hn, k, rfl⟩
    cases k with
    | zero => omega
    | succ k => exact ⟨hn, k, by ring⟩
  · rintro ⟨hn, k, rfl⟩
    exact ⟨hn, k + 1, by ring⟩

/-- A doubling with room is no less than the double of a capacity without. -/
theorem double_le_of_doubling {least : Nat} (h : capacity < needed)
    (hleast : IsLeast {n | needed ≤ n ∧ ∃ k, n = capacity * 2 ^ k} least) :
    2 * capacity ≤ least := by
  rw [doublings_double h] at hleast
  obtain ⟨-, k, rfl⟩ := hleast.1
  exact Nat.le_mul_of_pos_right _ (Nat.two_pow_pos k)

/-- The loop comes to what is said without it. -/
theorem growsTo_grown (h : 0 < capacity) (needed : Nat) :
    GrowsTo capacity needed (grown needed capacity) := by
  fun_induction grown needed capacity with
  | case1 capacity hshort hfits ih =>
      refine ⟨fun hle => absurd hle (Nat.not_le.2 hshort.2), fun hlt => ?_⟩
      rw [doublings_double hlt]
      rcases Nat.lt_or_ge (2 * capacity) needed with hmore | henough
      · exact (ih (by omega)).doubles hmore
      · rw [(ih (by omega)).stays henough]
        refine ⟨2 * capacity, ⟨⟨henough, 0, by ring⟩, ?_⟩, (if_pos hfits).symm⟩
        rintro n ⟨-, k, rfl⟩
        exact Nat.le_mul_of_pos_right _ (Nat.two_pow_pos k)
  | case2 capacity hshort hpast =>
      refine ⟨fun hle => absurd hle (Nat.not_le.2 hshort.2), fun hlt => ?_⟩
      obtain ⟨least, hleast⟩ := exists_least_doubling h needed
      have hle := double_le_of_doubling hlt hleast
      exact ⟨least, hleast, (if_neg (by omega)).symm⟩
  | case3 capacity henough =>
      exact ⟨fun _ => rfl, fun hlt => absurd ⟨h, hlt⟩ henough⟩

/-! ## Room step by step -/

theorem le_grown (needed capacity : Nat) : capacity ≤ grown needed capacity := by
  fun_induction grown needed capacity with
  | case1 capacity _ _ ih => exact (Nat.le_mul_of_pos_left _ Nat.two_pos).trans ih
  | case2 capacity hshort _ => exact hshort.2.le
  | case3 capacity _ => exact Nat.le_refl _

theorem needed_le_grown (h : 0 < capacity) (needed : Nat) : needed ≤ grown needed capacity := by
  fun_induction grown needed capacity with
  | case1 capacity _ _ ih => exact ih (by omega)
  | case2 capacity _ _ => exact Nat.le_refl _
  | case3 capacity henough => omega

theorem grown_lt (hcapacity : capacity < sizeBound) (hneeded : needed < sizeBound) :
    grown needed capacity < sizeBound := by
  fun_induction grown needed capacity with
  | case1 capacity _ hfits ih => exact ih hfits
  | case2 capacity _ _ => exact hneeded
  | case3 capacity _ => exact hcapacity

/-- Making room and then more room is making the larger room at once. -/
theorem grown_grown (needed more capacity : Nat) :
    grown more (grown needed capacity) = grown (max needed more) capacity := by
  fun_induction grown needed capacity with
  | case1 capacity hshort hfits ih =>
      have hmax : capacity < max needed more := lt_max_of_lt_left hshort.2
      rw [ih, grown_of_double_lt hshort.1 hmax hfits]
  | case2 capacity hshort hpast =>
      have hmax : capacity < max needed more := lt_max_of_lt_left hshort.2
      rw [grown_of_le_double hshort.1 hmax (Nat.not_lt.1 hpast)]
      -- what was needed is past half of the bound itself, so its double passes the bound
      rcases Nat.lt_or_ge needed more with hmore | hle
      · rw [grown_of_le_double (by omega) hmore (by omega), Nat.max_eq_right hmore.le]
      · rw [grown_of_le hle, Nat.max_eq_left hle]
  | case3 capacity henough =>
      rcases Nat.eq_zero_or_pos capacity with rfl | hpos
      · rw [grown_zero, grown_zero]
      · rcases Nat.lt_or_ge capacity more with hmore | hle
        · rw [Nat.max_eq_right (by omega)]
        · rw [grown_of_le hle, grown_of_le (by omega)]

/-! ## The loop -/

/-- Twice a machine word, unless that does not fit into one. -/
def checkedDouble (n : UInt64) : Option UInt64 :=
  if 2 * n.toNat < sizeBound then some (2 * n) else none

/-- One turn of the loop that looks for a capacity with room.  Where the double does not fit it goes
on with what is needed. -/
def growTurn (needed capacity : UInt64) : UInt64 ⊕ UInt64 :=
  if needed ≤ capacity then .inl capacity else .inr ((checkedDouble capacity).getD needed)

/-- The double of a machine word that is handed out is the double of its number. -/
theorem toNat_of_checkedDouble {n double : UInt64} (h : checkedDouble n = some double) :
    double.toNat = 2 * n.toNat := by
  unfold checkedDouble at h
  split at h
  · next hfits =>
      cases h
      rw [UInt64.toNat_mul]
      exact Nat.mod_eq_of_lt hfits
  · cases h

/-- The loop ends one turn after as many as it takes to double a capacity past the bound on sizes, if
not before, with the capacity that is computed in numbers without a bound. -/
theorem growTurn_endsWithin {doublings : Nat} {capacity : UInt64} (needed : UInt64)
    (h : sizeBound ≤ capacity.toNat * 2 ^ doublings) :
    ∃ reached, EndsWithin (growTurn needed) (doublings + 1) capacity reached ∧
      reached.toNat = grown needed.toNat capacity.toNat := by
  induction doublings generalizing capacity with
  | zero =>
      rw [pow_zero, Nat.mul_one] at h
      exact absurd capacity.toNat_lt_size (Nat.not_lt.2 h)
  | succ doublings ih =>
      rcases Nat.lt_or_ge capacity.toNat needed.toNat with hshort | henough
      · have hpos : 0 < capacity.toNat := Nat.pos_of_ne_zero fun hzero => by
          simp [hzero, sizeBound, UInt64.size] at h
        have hturn : growTurn needed capacity = .inr ((checkedDouble capacity).getD needed) :=
          if_neg (UInt64.not_le.2 hshort)
        cases hdouble : checkedDouble capacity with
        | some double =>
            have hvalue := toNat_of_checkedDouble hdouble
            have hfits : 2 * capacity.toNat < sizeBound := hvalue ▸ double.toNat_lt_size
            have hdoublings : sizeBound ≤ double.toNat * 2 ^ doublings := by
              rwa [hvalue, Nat.mul_comm 2, Nat.mul_assoc, ← pow_succ']
            obtain ⟨reached, hends, hreached⟩ := ih hdoublings
            rw [hdouble] at hturn
            refine ⟨reached, .more hturn hends, ?_⟩
            rw [hreached, hvalue, grown_of_double_lt hpos hshort hfits]
        | none =>
            have hpast : sizeBound ≤ 2 * capacity.toNat := by
              simpa [checkedDouble] using hdouble
            rw [hdouble] at hturn
            refine ⟨needed, .more hturn (.done (if_pos (UInt64.le_refl needed))), ?_⟩
            rw [grown_of_le_double hpos hshort hpast]
      · exact ⟨capacity, .done (if_pos henough), (grown_of_le henough).symm⟩

end ScanKit.Growable
