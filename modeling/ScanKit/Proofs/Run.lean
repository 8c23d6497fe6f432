/-!
# Runs

A run takes actions one after the other, each in the state that the one before left, whatever came
back.  A statement about `stateAfter` for every list of actions is one about every state of a run,
since the actions taken up to a state are a list of actions too.
-/

universe u v w x

namespace ScanKit

variable {γ : Type u} {δ : Type v} {τ : Type w} (act : γ → τ → δ × τ)

/-- The answers to calls made one after the other. -/
def answersOf : List γ → τ → List δ
  | [], _ => []
  | c :: cs, t => (act c t).1 :: answersOf cs (act c t).2

/-- The state after calls made one after the other. -/
def stateAfter : List γ → τ → τ
  | [], t => t
  | c :: cs, t => stateAfter cs (act c t).2

theorem stateAfter_append (cs ds : List γ) (t : τ) :
    stateAfter act (cs ++ ds) t = stateAfter act ds (stateAfter act cs t) := by
  induction cs generalizing t with
  | nil => rfl
  | cons c cs ih => exact ih (act c t).2

/-- The largest value that a number has in the states of a run, the first and the last among them. -/
def peakOf (f : τ → Nat) : List γ → τ → Nat
  | [], t => f t
  | c :: cs, t => max (f t) (peakOf f cs (act c t).2)

theorem le_peakOf (f : τ → Nat) (cs : List γ) (t : τ) : f t ≤ peakOf act f cs t := by
  cases cs with
  | nil => exact Nat.le_refl _
  | cons c cs => exact Nat.le_max_left ..

theorem stateAfter_le_peakOf (f : τ → Nat) (cs : List γ) (t : τ) :
    f (stateAfter act cs t) ≤ peakOf act f cs t := by
  induction cs generalizing t with
  | nil => exact Nat.le_refl _
  | cons c cs ih => exact Nat.le_trans (ih (act c t).2) (Nat.le_max_right ..)

theorem peakOf_append (f : τ → Nat) (cs ds : List γ) (t : τ) :
    peakOf act f (cs ++ ds) t = max (peakOf act f cs t) (peakOf act f ds (stateAfter act cs t)) := by
  induction cs generalizing t with
  | nil => exact (Nat.max_eq_right (le_peakOf act f ds t)).symm
  | cons c cs ih =>
      rw [List.cons_append, peakOf, ih, peakOf, Nat.max_assoc]
      rfl

/-- A relation of states in which every action answers the same, and which every action keeps, is
kept by every run, and the answers are the same throughout. -/
theorem run_related {σ : Type x} {act : γ → τ → δ × τ} {act' : γ → σ → δ × σ} (R : τ → σ → Prop)
    (h : ∀ c t s, R t s → (act c t).1 = (act' c s).1 ∧ R (act c t).2 (act' c s).2)
    (cs : List γ) {t : τ} {s : σ} (hR : R t s) :
    answersOf act cs t = answersOf act' cs s ∧
      R (stateAfter act cs t) (stateAfter act' cs s) := by
  induction cs generalizing t s with
  | nil => exact ⟨rfl, hR⟩
  | cons c cs ih =>
      obtain ⟨hanswer, hnext⟩ := h c t s hR
      obtain ⟨hanswers, hstate⟩ := ih hnext
      refine ⟨?_, hstate⟩
      simp only [answersOf, hanswer, hanswers]

/-- A map that carries every action along carries every run along. -/
theorem run_map {σ : Type x} {act : γ → τ → δ × τ} {act' : γ → σ → δ × σ} {f : τ → σ}
    (h : ∀ c t, act' c (f t) = ((act c t).1, f (act c t).2)) (cs : List γ) (t : τ) :
    answersOf act' cs (f t) = answersOf act cs t ∧
      stateAfter act' cs (f t) = f (stateAfter act cs t) := by
  refine run_related (fun s t => s = f t) ?_ cs rfl
  rintro c _ t rfl
  rw [h]
  exact ⟨rfl, rfl⟩

end ScanKit
