import ScanKit.Source.Lookahead

/-!
# Reading on

What one refill of a lookahead can do, said once: `ReadsOn` has a case for each way in which it can
come out, and every fact about the loops that read on is an induction over these cases.  A refill
never finds the bytes it brings refused, since the array that keeps them may grow.
-/

universe u v

namespace ScanKit

/-! ## Arrays that may grow -/

/-- An array that may grow takes everything. -/
theorem Growable.extend_of_mayGrow {α : Type u} {a : Growable α} (h : a.mayGrow = true)
    (xs : List α) : (a.extend xs).1 = .ok () ∧ (a.extend xs).2.mayGrow = true := by
  have hroom : ∃ capacity, a.room (a.size + xs.length) = .ok capacity := by
    simp only [room, h, if_true]
    split
    · exact ⟨_, rfl⟩
    · exact ⟨_, rfl⟩
  obtain ⟨capacity, hroom⟩ := hroom
  simp only [extend, hroom]
  exact ⟨trivial, h⟩

namespace Lookahead

variable {ρ : Type u}

/-! ## Lookaheads that can keep what they read -/

/-- What the reader gives can always be kept. -/
def CanKeep (w : Lookahead ρ) : Prop := w.held.mayGrow = true

/-- A configuration with room for a byte at least gives a lookahead that holds nothing yet. -/
theorem ofConfig_eq_ok (reader : ρ) {capacity : Nat} (h : 1 ≤ capacity) :
    ofConfig reader ⟨capacity⟩ = .ok (withBuffer reader (.ofCapacity capacity)) := by
  have hne : capacity ≠ 0 := Nat.one_le_iff_ne_zero.1 h
  have hbuffer : Growable.ofConfig (Config.buffer ⟨capacity⟩) =
      .ok (Growable.ofCapacity capacity : Growable UInt8) := by
    have hvalid := (Growable.Config.validate_eq_ok_iff (Config.buffer ⟨capacity⟩)).2 hne
    rw [Growable.ofConfig, hvalid, Growable.ofCapacity, Nat.max_eq_left h]
    rfl
  simp only [ofConfig, Config.validate, if_neg hne, hbuffer]
  rfl

theorem canKeep_withBuffer (reader : ρ) (capacity : Nat) :
    (withBuffer reader (.ofCapacity capacity)).CanKeep := rfl

theorem CanKeep.dropHeld {w : Lookahead ρ} (h : w.CanKeep) (n : Nat) : (w.dropHeld n).CanKeep := h

@[simp] theorem size_held (w : Lookahead ρ) : w.held.size = w.window.length :=
  (Growable.length_toList w.held).symm

@[simp] theorem reader_dropHeld (w : Lookahead ρ) (n : Nat) :
    (w.dropHeld n).reader = w.reader := rfl

@[simp] theorem pos_dropHeld (w : Lookahead ρ) (n : Nat) : (w.dropHeld n).pos = w.pos := rfl

@[simp] theorem ended_dropHeld (w : Lookahead ρ) (n : Nat) : (w.dropHeld n).ended = w.ended := rfl

/-! ## One refill -/

variable [Reader ρ]

/-- What reading on once can come to. -/
inductive ReadsOn (w : Lookahead ρ) : Except SourceError Nat × Lookahead ρ → Prop where
  | /-- The end was met before, and the reader is left alone. -/
    atEnd (hend : w.ended = true) : ReadsOn w (.ok 0, w)
  | /-- The reader fails; what is held stays. -/
    failed {f : ReadFailure} {reader : ρ} (hend : w.ended = false)
      (hfetch : Reader.fetch w.reader Reader.chunk = (.failure f, reader)) :
      ReadsOn w (.error (.readFailed f), { w with reader })
  | /-- The reader has come to its end, which is kept in mind. -/
    metEnd {reader : ρ} (hend : w.ended = false)
      (hfetch : Reader.fetch w.reader Reader.chunk = (.bytes [], reader)) :
      ReadsOn w (.ok 0, { w with reader, ended := true })
  | /-- Bytes arrive behind those that are held. -/
    arrived {b : UInt8} {bs : List UInt8} {w' : Lookahead ρ} (hend : w.ended = false)
      (hfetch : Reader.fetch w.reader Reader.chunk = (.bytes (b :: bs), w'.reader))
      (hwindow : w'.window = w.window ++ b :: bs) (hpos : w'.pos = w.pos)
      (hended : w'.ended = false) (hkeep : w'.CanKeep) : ReadsOn w (.ok (bs.length + 1), w')

/-- Reading on comes to one of the four. -/
theorem readsOn {w : Lookahead ρ} (h : w.CanKeep) : ReadsOn w w.readOn := by
  cases hend : w.ended with
  | true =>
      rw [readOn_of_ended w hend]
      exact .atEnd hend
  | false =>
      rw [readOn, if_neg (by simp [hend])]
      rcases hfetch : Reader.fetch w.reader Reader.chunk with ⟨(_ | ⟨b, bs⟩) | f, reader⟩
      · exact .metEnd hend hfetch
      · obtain ⟨hok, hkeep⟩ := Growable.extend_of_mayGrow h (b :: bs)
        have hheld := Growable.toList_extend hok
        rcases hextend : w.held.extend (b :: bs) with ⟨e | ⟨⟩, held⟩
        · simp [hextend] at hok
        · rw [hextend] at hheld hkeep
          simp only [hextend]
          exact .arrived hend hfetch hheld rfl hend hkeep
      · exact .failed hend hfetch

/-! ## The loops around it -/

theorem hold_of_le {n tries : Nat} {w : Lookahead ρ} (h : n ≤ w.window.length) :
    hold n tries w = (.ok (), w) := by
  cases tries with
  | zero => rfl
  | succ tries => rw [hold, if_pos (by rwa [size_held])]

/-- A byte that is not held is waited for by reading on once and waiting again. -/
theorem hold_of_lt {n tries : Nat} {w : Lookahead ρ} (h : w.window.length < n) :
    hold n (tries + 1) w = match w.readOn with
      | (.error e, w') => (.error e, w')
      | (.ok 0, w') => (.ok (), w')
      | (.ok (_ + 1), w') => hold n tries w' := by
  rw [hold, if_neg (by rw [size_held]; omega)]
  rcases w.readOn with ⟨_ | _ | k, w'⟩ <;> rfl

/-- A look leaves what waiting for its byte leaves. -/
theorem look_snd (offset : Nat) (w : Lookahead ρ) :
    (w.look offset).2 = (hold (offset + 1) (offset + 1) w).2 := by
  unfold look
  rcases hold (offset + 1) (offset + 1) w with ⟨e | ⟨⟩, w'⟩
  · rfl
  · dsimp only
    cases w'.held.get? offset <;> rfl

theorem drop_of_le {n tries : Nat} {w : Lookahead ρ} (h : n ≤ w.window.length) :
    drop tries n w = (.ok n, w.dropHeld n) := by
  have hmin : min n w.held.size = n := by rw [size_held, Nat.min_eq_left h]
  cases tries with
  | zero => rw [drop, hmin]
  | succ tries =>
      rw [drop]
      simp only [hmin, if_true]

/-- A drop of more than is held drops that, reads on once and drops the others. -/
theorem drop_of_lt {n tries : Nat} {w : Lookahead ρ} (h : w.window.length < n) :
    drop (tries + 1) n w = match (w.dropHeld n).readOn with
      | (.error e, w') => (.error e, w')
      | (.ok 0, w') => (.ok w.window.length, w')
      | (.ok (_ + 1), w') =>
          ((drop tries (n - w.window.length) w').1.map (w.window.length + ·),
            (drop tries (n - w.window.length) w').2) := by
  have hmin : min n w.held.size = w.window.length := by
    rw [size_held, Nat.min_eq_right (Nat.le_of_lt h)]
  rw [drop]
  simp only [hmin, if_neg (Nat.ne_of_lt h)]
  rcases (w.dropHeld n).readOn with ⟨_ | _ | k, w'⟩
  · rfl
  · rfl
  · rcases hdrop : drop tries (n - w.window.length) w' with ⟨_ | more, w''⟩ <;>
      simp [hdrop, Except.map]

/-- A skip leaves what its drop leaves, but for the position. -/
theorem skip_snd (n : Nat) (w : Lookahead ρ) :
    ∃ pos, (w.skip n).2 = { (drop n n w).2 with pos } := by
  unfold skip
  rcases drop n n w with ⟨e | dropped, w'⟩
  · exact ⟨w'.pos, rfl⟩
  · exact ⟨w'.pos + dropped, rfl⟩

end Lookahead

end ScanKit
