import ScanKit.Proofs.Arena.History
import ScanKit.Proofs.Arena.Loop

/-!
# What the operations on one chain agree on

Adding, measuring, finding the end, handing out values, searching and removing all follow the same
nodes: those on the path from the root.  They differ in what they make of a break.  Values are
handed out and nodes removed up to it; a length, a last node or a place to add at is not to be had
behind it, and the error names the link; a search is stopped by it only if no value before it was
accepted.
-/

universe u v w

namespace ScanKit.Arena

variable {α : Type u} {σ : Type v} {a : Arena α} {ids : List NodeRef}

/-! ## Tests that are asked in turn -/

/-- The test rejects values one after the other, and is left in a state. -/
inductive Rejects (accept : σ → α → Bool × σ) : σ → List α → σ → Prop where
  | nil {s : σ} : Rejects accept s [] s
  | cons {s s' s'' : σ} {x : α} {xs : List α} (hx : accept s x = (false, s'))
      (hrest : Rejects accept s' xs s'') : Rejects accept s (x :: xs) s''

/-- The test with a count of how often it was asked. -/
def counted (accept : σ → α → Bool × σ) : Nat × σ → α → Bool × Nat × σ
  | (n, s), x => ((accept s x).1, n + 1, (accept s x).2)

theorem Rejects.counted {accept : σ → α → Bool × σ} {s s' : σ} {xs : List α}
    (h : Rejects accept s xs s') (n : Nat) :
    Rejects (counted accept) (n, s) xs (n + xs.length, s') := by
  induction h generalizing n with
  | nil => exact .nil
  | @cons s s' s'' x xs hx _ ih =>
      have hsum : n + 1 + xs.length = n + (xs.length + 1) := by omega
      have hrest := ih (n + 1)
      rw [hsum] at hrest
      exact .cons (by rw [Arena.counted, hx]) hrest

/-- Values are rejected up to one that is accepted, or all of them are. -/
theorem rejects_or_accepts (accept : σ → α → Bool × σ) (s : σ) (nodes : List (NodeRef × α)) :
    (∃ before x after s' s'', nodes = before ++ x :: after ∧
      Rejects accept s (before.map (·.2)) s' ∧ accept s' x.2 = (true, s'')) ∨
    ∃ s', Rejects accept s (nodes.map (·.2)) s' := by
  induction nodes generalizing s with
  | nil => exact .inr ⟨s, .nil⟩
  | cons y nodes ih =>
      rcases hy : accept s y.2 with ⟨_ | _, s₁⟩
      · rcases ih s₁ with ⟨before, x, after, s', s'', rfl, hbefore, hx⟩ | ⟨s', hall⟩
        · exact .inl ⟨y :: before, x, after, s', s'', rfl, .cons hy hbefore, hx⟩
        · exact .inr ⟨s', .cons hy hall⟩
      · exact .inl ⟨[], y, nodes, s, s₁, rfl, .nil, hy⟩

/-- Nodes that the test rejects are passed over. -/
theorem firstAccepted_append {accept : σ → α → Bool × σ} {s s' : σ}
    {before : List (NodeRef × α)} (h : Rejects accept s (before.map (·.2)) s')
    (rest : List (NodeRef × α)) :
    firstAccepted accept s (before ++ rest) = firstAccepted accept s' rest := by
  induction before generalizing s with
  | nil =>
      cases h
      rfl
  | cons y before ih =>
      cases h with
      | cons hy hrest => rw [List.cons_append, firstAccepted, hy, ← ih hrest]

/-! ## Answers along a path -/

/-- A search of a walk finds the first node that the test accepts, also before a break, and asks the
test about that node and those before it only.  If the test accepts none it is asked about all. -/
def FindsFirst (w : Walk α) (accept : σ → α → Bool × σ) (s : σ)
    (found : Except StaleRef (Option NodeRef) × σ) (asked : Nat) : Prop :=
  (∃ before x after s' s'', w.nodes = before ++ x :: after ∧
    Rejects accept s (before.map (·.2)) s' ∧ accept s' x.2 = (true, s'') ∧
    found = (.ok (some x.1), s'') ∧ asked = before.length + 1) ∨
  ∃ s', Rejects accept s w.values s' ∧ found = (w.whole none, s') ∧ asked = w.nodes.length

theorem findsFirst_find (a : Arena α) (r : NodeRef) (accept : σ → α → Bool × σ) (s : σ) :
    FindsFirst (a.walk r) accept s (a.find r accept s) (a.find r (counted accept) (0, s)).2.1 := by
  rw [find, find]
  rcases rejects_or_accepts accept s (a.walk r).nodes with
    ⟨before, x, after, s', s'', hnodes, hbefore, hx⟩ | ⟨s', hall⟩
  · refine .inl ⟨before, x, after, s', s'', hnodes, hbefore, hx, ?_, ?_⟩
    · rw [hnodes, firstAccepted_append hbefore, firstAccepted, hx]
    · have hcounted : counted accept (0 + before.length, s') x.2 =
          (true, 0 + before.length + 1, s'') := by rw [counted, hx]
      rw [hnodes, firstAccepted_append (hbefore.counted 0), List.length_map, firstAccepted,
        hcounted, Nat.zero_add]
  · have hnone := firstAccepted_append hall []
    have hcount := firstAccepted_append (hall.counted 0) []
    rw [List.append_nil, firstAccepted] at hnone hcount
    refine .inr ⟨s', hall, ?_, ?_⟩
    · rw [hnone]
    · rw [hcount, List.length_map, Nat.zero_add]

/-- The operations on the chain from a node come to what a walk says. -/
structure AnswersAlong (a : Arena α) (r : NodeRef) (w : Walk α) : Prop where
  values : a.values r = .ok w.values
  chainLength : a.chainLength r = w.whole w.nodes.length
  tail : ∃ x, w.nodes.getLast? = some x ∧ a.tail r = w.whole x.1
  append : ∀ value, (a.append r value).1 = w.whole (a.alloc value).1
  freeChain : ∃ b, a.freeChain r = .ok (w.nodes.length, b)
  find : ∀ {σ : Type w} (accept : σ → α → Bool × σ) (s : σ),
    FindsFirst w accept s (a.find r accept s) (a.find r (counted accept) (0, s)).2.1

theorem Ledger.answersAlong (h : Ledger a ids) {r : NodeRef} {w : Walk α}
    (hr : a.contains r = true) (hpath : Path a.look r w.nodes w.brokenAt?) :
    a.AnswersAlong r w := by
  obtain rfl : a.walk r = w := h.walk_eq_of_path hpath
  obtain ⟨n, hn⟩ := contains_iff.1 hr
  obtain ⟨x, hx⟩ : ∃ x, (a.walk r).nodes.getLast? = some x := by
    cases hlast : (a.walk r).nodes.getLast? with
    | some x => exact ⟨x, rfl⟩
    | none => simp [hpath.eq_nil_iff, look, hn] at hlast
  have htail : a.tail r = (a.walk r).whole x.1 := by
    rw [Arena.tail, hx]
    rfl
  have hfree := h.freeChain_eq r
  rw [if_pos hr] at hfree
  refine ⟨h.values_of_path hr hpath, rfl, ⟨x, hx, htail⟩, ?_, ⟨_, hfree⟩, findsFirst_find a r⟩
  intro value
  cases hbreak : (a.walk r).brokenAt? <;> simp [append, htail, Walk.whole, hbreak]

/-- In every state that a run from the empty arena reaches, the operations on the chain from a node
agree on one walk: the nodes on its path and where this breaks, if it does.  Each answers what its
own loop ends with.  From a reference that does not resolve each of them fails with an error that
names it, and a search asks nothing. -/
theorem chain_operations_agree (calls : List (Call NodeRef α σ)) (r : NodeRef) :
    ((stateAfter act calls empty).contains r = true → ∃ w : Walk α,
      Path (stateAfter act calls empty).look r w.nodes w.brokenAt? ∧
        AnswersAlong.{u, w} (stateAfter act calls empty) r w ∧
        LoopsEndWithin.{u, w} (stateAfter act calls empty) (w.nodes.length + 1) r) ∧
    ((stateAfter act calls empty).contains r = false →
      (stateAfter act calls empty).Refuses r ∧
        ∀ {σ : Type w} (accept : σ → α → Bool × σ) (s : σ),
          (stateAfter act calls empty).find r accept s = (.error ⟨r⟩, s)) := by
  have hledger := Ledger.empty.run calls
  refine ⟨fun hr => ?_, fun hr => ⟨refuses_of_contains_eq_false hr, fun accept s => ?_⟩⟩
  · obtain ⟨nodes, e, hpath⟩ := hledger.exists_path r
    exact ⟨⟨nodes, e⟩, hpath, hledger.answersAlong hr hpath,
      hledger.loopsEndWithin hpath (Nat.lt_succ_self _)⟩
  · rw [find, hledger.walk_eq_of_path (.broken (contains_eq_false_iff_look.1 hr))]
    rfl

/-- A chain of four nodes whose third node is removed. -/
def thirdRemoved : List (Call NodeRef Nat Unit) :=
  [.alloc 1, .append ⟨0, 0⟩ 2, .append ⟨0, 0⟩ 3, .append ⟨1, 0⟩ 4, .free ⟨2, 0⟩]

/-- The operations on what is left of the chain agree on a walk, and those on the removed node fail
with an error that names it. -/
theorem chain_operations_agree_thirdRemoved :
    (stateAfter act thirdRemoved empty).contains ⟨0, 0⟩ = true ∧
      (∃ w : Walk Nat, Path (stateAfter act thirdRemoved empty).look ⟨0, 0⟩ w.nodes w.brokenAt? ∧
        AnswersAlong.{0, 0} (stateAfter act thirdRemoved empty) ⟨0, 0⟩ w ∧
        LoopsEndWithin.{0, 0} (stateAfter act thirdRemoved empty) (w.nodes.length + 1) ⟨0, 0⟩) ∧
      (stateAfter act thirdRemoved empty).contains ⟨2, 0⟩ = false ∧
      (stateAfter act thirdRemoved empty).Refuses ⟨2, 0⟩ := by
  have hlive : (stateAfter act thirdRemoved empty).contains ⟨0, 0⟩ = true := by decide
  have hgone : (stateAfter act thirdRemoved empty).contains ⟨2, 0⟩ = false := by decide
  exact ⟨hlive, (chain_operations_agree.{0, 0, 0} thirdRemoved ⟨0, 0⟩).1 hlive, hgone,
    ((chain_operations_agree.{0, 0, 0} thirdRemoved ⟨2, 0⟩).2 hgone).1⟩

end ScanKit.Arena
