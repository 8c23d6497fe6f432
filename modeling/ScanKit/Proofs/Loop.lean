/-!
# Loops

The body of a loop takes one turn: it comes to the result or to the state of the next turn.
`EndsWithin` says of a loop that it comes to an end, after how many turns at most, and with which
result; `EndsAfter` says how many turns it takes.
-/

universe u v

namespace ScanKit

/-- The loop with this body, entered in a state, ends within so many turns with a result.  A turn
comes to the result or to the state of the next turn. -/
inductive EndsWithin {τ : Type u} {ρ : Type v} (body : τ → ρ ⊕ τ) : Nat → τ → ρ → Prop where
  | /-- The loop ends in this turn. -/
    done {turns : Nat} {t : τ} {result : ρ} (hbody : body t = .inl result) :
      EndsWithin body (turns + 1) t result
  | /-- The loop goes on. -/
    more {turns : Nat} {t t' : τ} {result : ρ} (hbody : body t = .inr t')
      (hrest : EndsWithin body turns t' result) : EndsWithin body (turns + 1) t result

/-- A loop that ends within some turns ends within more. -/
theorem EndsWithin.mono {τ : Type u} {ρ : Type v} {body : τ → ρ ⊕ τ} {m n : Nat} {t : τ}
    {result : ρ} (h : EndsWithin body m t result) (hle : m ≤ n) : EndsWithin body n t result := by
  induction h generalizing n with
  | done hbody =>
      cases n with
      | zero => exact absurd hle (Nat.not_succ_le_zero _)
      | succ n => exact .done hbody
  | more hbody _ ih =>
      cases n with
      | zero => exact absurd hle (Nat.not_succ_le_zero _)
      | succ n => exact .more hbody (ih (Nat.le_of_succ_le_succ hle))

/-- A loop comes to no more than one result. -/
theorem EndsWithin.unique {τ : Type u} {ρ : Type v} {body : τ → ρ ⊕ τ} {m n : Nat} {t : τ}
    {x y : ρ} (h : EndsWithin body m t x) (h' : EndsWithin body n t y) : x = y := by
  induction h generalizing n with
  | done hbody =>
      cases h' with
      | done hbody' => exact Sum.inl.inj (hbody.symm.trans hbody')
      | more hbody' _ => cases hbody.symm.trans hbody'
  | more hbody _ ih =>
      cases h' with
      | done hbody' => cases hbody.symm.trans hbody'
      | more hbody' hrest' =>
          cases hbody.symm.trans hbody'
          exact ih hrest'

/-- The loop with this body, entered in a state, ends in exactly this turn with a result. -/
inductive EndsAfter {τ : Type u} {ρ : Type v} (body : τ → ρ ⊕ τ) : Nat → τ → ρ → Prop where
  | /-- The loop ends in its first turn. -/
    done {t : τ} {result : ρ} (hbody : body t = .inl result) : EndsAfter body 1 t result
  | /-- The loop goes on. -/
    more {turns : Nat} {t t' : τ} {result : ρ} (hbody : body t = .inr t')
      (hrest : EndsAfter body turns t' result) : EndsAfter body (turns + 1) t result

end ScanKit
