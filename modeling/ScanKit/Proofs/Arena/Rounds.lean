import ScanKit.Proofs.Arena.Building
import ScanKit.Proofs.Arena.Peak
import ScanKit.Proofs.Arena.Teardown

/-!
# Rounds

A round makes a chain and removes it again.  It leaves as many nodes as there were before, so that
rounds in an arena without nodes have at no time more than the longest of their chains, and take no
more slots.  A round empties no slot twice, so no slot is retired unless there are very many rounds.
-/

universe u v

namespace ScanKit.Arena

variable {α : Type u} {σ : Type v} {a b : Arena α} {ids : List NodeRef}

/-! ## Making a chain and removing it by calls -/

/-- Makes a chain of values and removes it again.  Without values there is nothing to remove. -/
def turnOver (a : Arena α) (values : List α) : Except StaleRef (Arena α) :=
  match a.chainFrom values with
  | (.ok (some root), b) => (b.freeChain root).map (·.2)
  | (.ok none, b) => .ok b
  | (.error e, _) => .error e

/-- The calls that make a chain, each value added from the first node on. -/
def chainCalls (a : Arena α) (value : α) (values : List α) : List (Call NodeRef α σ) :=
  .alloc value :: values.map (.append (a.alloc value).1)

/-- The calls that make a chain and remove it again. -/
def roundCalls (a : Arena α) : List α → List (Call NodeRef α σ)
  | [] => []
  | value :: values => chainCalls a value values ++ [.freeChain (a.alloc value).1]

/-- The calls of rounds, one after the other. -/
def roundsCalls (a : Arena α) : List (List α) → List (Call NodeRef α σ)
  | [] => []
  | values :: rounds =>
      roundCalls a values ++ roundsCalls (stateAfter act (roundCalls (σ := σ) a values) a) rounds

/-- A chain that is added to without a refusal is what the calls for it leave. -/
theorem stateAfter_appends {root : NodeRef} {values : List α}
    (h : appendEachFrom root values a = (.ok (), b)) :
    stateAfter act (values.map (.append root) : List (Call NodeRef α σ)) a = b := by
  induction values generalizing a with
  | nil =>
      cases h
      rfl
  | cons value values ih =>
      rcases happend : a.append root value with ⟨_ | made, c⟩
      · simp [appendEachFrom, happend] at h
      · have hact : (act (.append root value : Call NodeRef α σ) a).2 = c :=
          congrArg Prod.snd happend
        rw [List.map_cons, stateAfter, hact]
        exact ih (by simpa [appendEachFrom, happend] using h)

theorem Ledger.makes_chainCalls (h : Ledger a ids) (value : α) (values : List α) :
    a.chainFrom (value :: values) = (.ok (some (a.alloc value).1),
        stateAfter Arena.act (chainCalls (σ := σ) a value values) a) ∧
      ∃ nodes, nodes.length = values.length + 1 ∧
        Makes a ids (stateAfter Arena.act (chainCalls (σ := σ) a value values) a)
          (a.alloc value).1 nodes := by
  have hfirst : Makes a ids _ _ ([] ++ [((a.alloc value).1, value)]) := h.makes_alloc value
  obtain ⟨hfrom, more, rfl, hmakes⟩ := hfirst.appendEach values
  have hcalls := stateAfter_appends (σ := σ) hfrom
  refine ⟨?_, _, ?_, hcalls ▸ hmakes⟩
  · rw [chainFrom, hfrom]
    exact congrArg _ hcalls.symm
  · simp

/-- A chain that was made is removed whole. -/
theorem Makes.freeChain_eq {root : NodeRef} {nodes : List (NodeRef × α)}
    (h : Makes a ids b root nodes) (hnodes : nodes ≠ []) :
    b.freeChain root = .ok (nodes.length, b.discardAll (nodes.map (·.1))) := by
  rw [h.ledger.freeChain_eq, if_pos (contains_of_path_ne_nil h.path hnodes),
    h.ledger.walk_eq_of_path h.path]

/-- A round makes as many nodes as it has values, as a chain, and removes these. -/
theorem Ledger.round_eq (h : Ledger a ids) (value : α) (values : List α) :
    ∃ nodes, nodes.length = values.length + 1 ∧
      Makes a ids (stateAfter Arena.act (chainCalls (σ := σ) a value values) a)
        (a.alloc value).1 nodes ∧
      a.turnOver (value :: values) =
        .ok (stateAfter Arena.act (roundCalls (σ := σ) a (value :: values)) a) ∧
      stateAfter Arena.act (roundCalls (σ := σ) a (value :: values)) a =
        (stateAfter Arena.act (chainCalls (σ := σ) a value values) a).discardAll
          (nodes.map (·.1)) := by
  obtain ⟨hchain, nodes, hlength, hmakes⟩ := h.makes_chainCalls (σ := σ) value values
  have hfree := hmakes.freeChain_eq (List.ne_nil_of_length_eq_add_one hlength)
  have hround : stateAfter Arena.act (roundCalls (σ := σ) a (value :: values)) a =
      (stateAfter Arena.act (chainCalls (σ := σ) a value values) a).discardAll
        (nodes.map (·.1)) := by
    rw [roundCalls, stateAfter_append]
    show (Arena.settled _ Answer.count (Arena.freeChain _ _)).2 = _
    rw [hfree]
    rfl
  refine ⟨nodes, hlength, hmakes, ?_, hround⟩
  rw [hround, turnOver, hchain]
  show (Arena.freeChain _ _).map _ = _
  rw [hfree]
  rfl

/-- Nothing is refused in a round. -/
theorem Ledger.turnOver_eq (h : Ledger a ids) (values : List α) :
    a.turnOver values = .ok (stateAfter Arena.act (roundCalls (σ := σ) a values) a) := by
  cases values with
  | nil => rfl
  | cons value values =>
      obtain ⟨nodes, -, -, hturn, -⟩ := h.round_eq (σ := σ) value values
      exact hturn

/-- After a round there are as many nodes as before. -/
theorem Ledger.live_round (h : Ledger a ids) (values : List α) :
    (stateAfter Arena.act (roundCalls (σ := σ) a values) a).live = a.live := by
  cases values with
  | nil => rfl
  | cons value values =>
      obtain ⟨nodes, -, hmakes, -, hround⟩ := h.round_eq (σ := σ) value values
      rw [hround]
      exact h.live_eq_of_look hmakes.discardAll.1 (hmakes.look_discardAll h)

/-! ## Nodes in the middle of a round -/

theorem Ledger.live_act_le (h : Ledger a ids) (hconsistent : a.Consistent)
    (c : Call NodeRef α σ) : (Arena.act c a).2.live ≤ a.live + 1 := by
  have hchange := h.change_act c
  generalize (Arena.act c a).1.issued = issued at hchange
  generalize (Arena.act c a).2 = b at hchange ⊢
  cases hchange with
  | same => exact Nat.le_succ _
  | alloc value => exact Nat.le_of_eq (live_alloc a value)
  | addBehind hlast value =>
      rw [Arena.addBehind, live_modify]
      exact Nat.le_of_eq (live_alloc a value)
  | set r value =>
      rw [live_modify]
      exact Nat.le_succ _
  | discardAll hnodup hlive =>
      have hcount := hconsistent.live_discardAll hnodup hlive
      omega
  | clear => exact Nat.zero_le _

/-- A call makes one node at the most. -/
theorem Ledger.peakOf_live_le (h : Ledger a ids) (hconsistent : a.Consistent)
    (calls : List (Call NodeRef α σ)) :
    peakOf Arena.act live calls a ≤ a.live + calls.length := by
  induction calls generalizing a ids with
  | nil => exact Nat.le_refl _
  | cons c calls ih =>
      have hstep := h.live_act_le hconsistent c
      have hrest := ih (h.act c) (hconsistent.act c)
      rw [peakOf, List.length_cons]
      omega

/-- In a round there are at no time more nodes than before it and in its chain. -/
theorem Ledger.peakOf_round_le (h : Ledger a ids) (hconsistent : a.Consistent)
    (values : List α) :
    peakOf Arena.act live (roundCalls (σ := σ) a values) a ≤ a.live + values.length := by
  cases values with
  | nil => exact Nat.le_refl _
  | cons value values =>
      have hmade := h.peakOf_live_le hconsistent (chainCalls (σ := σ) a value values)
      have hlast := stateAfter_le_peakOf Arena.act live (chainCalls (σ := σ) a value values) a
      have hleft := h.live_round (σ := σ) (value :: values)
      have hlength : (chainCalls (σ := σ) a value values).length = (value :: values).length := by
        simp [chainCalls]
      -- The chain is made first, and the one call behind it leaves what was there before.
      rw [roundCalls, stateAfter_append, stateAfter, stateAfter] at hleft
      rw [roundCalls, peakOf_append, peakOf, peakOf, hleft]
      omega

/-! ## Generations in rounds -/

/-- No slot was emptied more often than that. -/
def EmptiedAtMost (a : Arena α) (k : Nat) : Prop :=
  ∀ (i : Nat) (s : Slot α), a.slots[i]? = some s → s.generation ≤ k

section Emptied

variable {k : Nat}

theorem WellFormed.emptiedAtMost_alloc (h : a.WellFormed) (hk : a.EmptiedAtMost k) (value : α) :
    (a.alloc value).2.EmptiedAtMost k := by
  have halloc := h.allocates value
  generalize a.alloc value = result at halloc ⊢
  intro j t ht
  cases halloc with
  | filled =>
      rw [Array.getElem?_modify] at ht
      split at ht
      · obtain ⟨u, hu, rfl⟩ := Option.map_eq_some_iff.1 ht
        exact hk j u hu
      · exact hk j t ht
  | added =>
      rw [Array.getElem?_push] at ht
      split at ht
      · cases ht
        exact Nat.zero_le k
      · exact hk j t ht

theorem emptiedAtMost_modify (hk : a.EmptiedAtMost k) (r : NodeRef) (f : Node α → Node α) :
    (a.modify r f).EmptiedAtMost k := by
  rw [modify]
  split
  · intro j t ht
    rw [Array.getElem?_modify] at ht
    split at ht
    · obtain ⟨u, hu, rfl⟩ := Option.map_eq_some_iff.1 ht
      exact hk j u hu
    · exact hk j t ht
  · exact hk

/-- Making nodes empties no slot. -/
theorem Consistent.emptiedAtMost_appends (h : a.Consistent) (hk : a.EmptiedAtMost k)
    (root : NodeRef) (values : List α) :
    (stateAfter Arena.act (values.map (.append root) : List (Call NodeRef α σ)) a).EmptiedAtMost
      k := by
  induction values generalizing a with
  | nil => exact hk
  | cons value values ih =>
      refine ih (h.act _) ?_
      show (a.append root value).2.EmptiedAtMost k
      rw [append]
      cases a.tail root with
      | error e => exact hk
      | ok last => exact emptiedAtMost_modify (h.emptiedAtMost_alloc hk value) last _

/-- Removing nodes empties the slot of each once. -/
theorem emptiedAtMost_discardAll (hk : a.EmptiedAtMost k) {rs : List NodeRef}
    (hnodup : rs.Nodup) (hlive : ∀ r ∈ rs, a.contains r = true) :
    (a.discardAll rs).EmptiedAtMost (k + 1) := by
  intro i t ht
  by_cases hi : i ∈ rs.map (·.slot)
  · obtain ⟨r, hr, rfl⟩ := List.mem_map.1 hi
    rw [getElem?_discardAll_of_mem (nodup_slots hnodup hlive) hr] at ht
    obtain ⟨s, hs, rfl⟩ := Option.map_eq_some_iff.1 ht
    exact Nat.succ_le_succ (hk _ s hs)
  · rw [getElem?_discardAll_of_notMem hi] at ht
    exact Nat.le_succ_of_le (hk i t ht)

/-- A round empties no slot twice. -/
theorem Ledger.emptiedAtMost_round (h : Ledger a ids) (hconsistent : a.Consistent)
    (hk : a.EmptiedAtMost k) (values : List α) :
    (stateAfter Arena.act (roundCalls (σ := σ) a values) a).EmptiedAtMost (k + 1) := by
  cases values with
  | nil => exact fun i s hs => Nat.le_succ_of_le (hk i s hs)
  | cons value values =>
      obtain ⟨nodes, -, hmakes, -, hround⟩ := h.round_eq (σ := σ) value values
      have hmade := (hconsistent.alloc value).emptiedAtMost_appends (σ := σ)
        (hconsistent.emptiedAtMost_alloc hk value) (a.alloc value).1 values
      rw [hround]
      exact emptiedAtMost_discardAll hmade (hmakes.ledger.nodup_of_path hmakes.path)
        fun _ => contains_of_path hmakes.path

theorem EmptiedAtMost.retired_eq_zero (hk : a.EmptiedAtMost k) (hlt : k < retiredGeneration) :
    a.retired = 0 :=
  retired_eq_zero_iff.2 fun i s hs => Nat.ne_of_lt (Nat.lt_of_le_of_lt (hk i s hs) hlt)

end Emptied

/-! ## Any number of rounds -/

/-- In rounds from an arena without nodes nothing is refused, there are at no time more nodes than in
the longest chain, and every round empties a slot at most once more. -/
theorem Ledger.rounds (h : Ledger a ids) (hconsistent : a.Consistent) (hempty : a.live = 0)
    {k m : Nat} (hk : a.EmptiedAtMost k) {rounds : List (List α)}
    (hm : ∀ values ∈ rounds, values.length ≤ m) :
    rounds.foldlM turnOver a = .ok (stateAfter Arena.act (roundsCalls (σ := σ) a rounds) a) ∧
      peakOf Arena.act live (roundsCalls (σ := σ) a rounds) a ≤ m ∧
      (stateAfter Arena.act (roundsCalls (σ := σ) a rounds) a).EmptiedAtMost
        (k + rounds.length) := by
  induction rounds generalizing a ids k with
  | nil => exact ⟨rfl, Nat.le_trans (Nat.le_of_eq hempty) (Nat.zero_le m), hk⟩
  | cons values rounds ih =>
      have hvalues := hm values List.mem_cons_self
      have hpeak := h.peakOf_round_le (σ := σ) hconsistent values
      obtain ⟨hturns, hpeaks, hemptied⟩ := ih (h.run (roundCalls (σ := σ) a values))
        (hconsistent.run _) ((h.live_round values).trans hempty)
        (h.emptiedAtMost_round hconsistent hk values) fun vs hvs => hm vs (List.mem_cons_of_mem _ hvs)
      rw [roundsCalls, stateAfter_append]
      refine ⟨?_, ?_, ?_⟩
      · rw [List.foldlM_cons, h.turnOver_eq (σ := σ) values]
        exact hturns
      · rw [peakOf_append]
        exact Nat.max_le.2 ⟨by omega, hpeaks⟩
      · rw [List.length_cons, Nat.add_comm rounds.length, ← Nat.add_assoc]
        exact hemptied

/-- In a run from the empty arena that retires no slot there are in every state as many slots as
there were nodes at the peak, and every reference that was issued is to one of these.  So rounds that
make chains of at most `m` nodes, one after the other, and remove them again issue references to `m`
slots only.  Nothing is refused in these rounds, and if there are fewer of them than it takes to
retire a slot, none is retired. -/
theorem slots_follow_peak :
    (∀ calls : List (Call NodeRef α σ), (stateAfter act calls empty).retired = 0 →
      ∀ before, before <+: calls →
        (stateAfter act before empty).slots.size = peakOf act live before empty ∧
          ∀ r ∈ issuedIn before empty, r.slot < peakOf act live before empty) ∧
      ∀ (m : Nat) (rounds : List (List α)), (∀ values ∈ rounds, values.length ≤ m) →
        rounds.foldlM turnOver empty =
            .ok (stateAfter act (roundsCalls (σ := σ) empty rounds) empty) ∧
          (rounds.length < retiredGeneration →
            (stateAfter act (roundsCalls (σ := σ) empty rounds) empty).retired = 0) ∧
          ((stateAfter act (roundsCalls (σ := σ) empty rounds) empty).retired = 0 →
            ∀ r ∈ issuedIn (roundsCalls (σ := σ) empty rounds) empty, r.slot < m) := by
  constructor
  · rintro calls hkept before ⟨after, rfl⟩
    rw [stateAfter_append] at hkept
    have hledger := Ledger.empty.run before
    exact size_eq_peakOf_live before (hledger.retired_of_run after hkept)
  · intro m rounds hm
    have hnew : (empty : Arena α).EmptiedAtMost 0 := by
      intro i s hs
      simp [empty] at hs
    obtain ⟨hturns, hpeak, hemptied⟩ :=
      Ledger.empty.rounds (σ := σ) Consistent.empty rfl hnew hm
    refine ⟨hturns, ?_, ?_⟩
    · intro hlt
      rw [Nat.zero_add] at hemptied
      exact hemptied.retired_eq_zero hlt
    · intro hkept r hr
      exact Nat.lt_of_lt_of_le ((size_eq_peakOf_live _ hkept).2 r hr) hpeak

/-- A chain that loses its second node and is removed up to the break, its slots filled again, and
filled once more after all nodes were removed. -/
def brokenCleared : List (Call NodeRef Nat Unit) :=
  [.alloc 1, .append ⟨0, 0⟩ 2, .append ⟨0, 0⟩ 3, .free ⟨1, 0⟩, .freeChain ⟨0, 0⟩, .alloc 4,
    .append ⟨0, 1⟩ 5, .clear, .alloc 6, .append ⟨2, 1⟩ 7, .alloc 8]

/-- Eight nodes are made in three slots, and rounds with chains of three, no and two nodes take
three as well. -/
theorem slots_follow_peak_brokenCleared :
    (issuedIn brokenCleared empty).length = 8 ∧
      (stateAfter act brokenCleared empty).slots.size = 3 ∧
      (∀ r ∈ issuedIn brokenCleared empty, r.slot < 3) ∧
      ∀ r ∈ issuedIn (roundsCalls (σ := Unit) empty [[1, 2, 3], [], [4, 5]]) empty, r.slot < 3 := by
  obtain ⟨hruns, hrounds⟩ := slots_follow_peak (α := Nat) (σ := Unit)
  have hpeak : peakOf act live brokenCleared empty = 3 := by decide +kernel
  have hkept : (stateAfter act brokenCleared empty).retired = 0 := by decide +kernel
  obtain ⟨hsize, hissued⟩ := hruns brokenCleared hkept brokenCleared (List.prefix_refl _)
  obtain ⟨-, hkept, hlt⟩ := hrounds 3 [[1, 2, 3], [], [4, 5]] (by decide)
  rw [hpeak] at hsize hissued
  exact ⟨by decide +kernel, hsize, hissued, hlt (hkept (by decide))⟩

end ScanKit.Arena
