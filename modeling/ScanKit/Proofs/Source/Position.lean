import ScanKit.Proofs.Reader.Recording
import ScanKit.Proofs.Source.Refill
import ScanKit.Proofs.Source.Run
import ScanKit.Reader.Memory

/-!
# Where the window of a lookahead stands

The window of a lookahead is meant to hold what its reader has delivered from the position on.  A
skip that meets a failure of the reader breaks this: it leaves the position where it was although it
has dropped bytes.  `Displaced` is the law that every run does keep; it counts the bytes that were
dropped beside the position and so says exactly when the window stands at the position.

`Moved` is what all of the loops do to a window: bytes that the reader delivers are added at its end
and some are taken off its front.  Moves compose, so each loop needs no more than its steps.
-/

universe u

namespace ScanKit.Lookahead

open Reader

variable {ρ : Type u}

/-- All that the reader has delivered so far. -/
def delivered (w : Lookahead (Recording ρ)) : List UInt8 := w.reader.delivered

/-! ## Moves of a window -/

/-- The window has gained the bytes that the reader has delivered meanwhile, and so many are taken
off its front; the position is where it was. -/
structure Moved (w : Lookahead (Recording ρ)) (bs : List UInt8) (taken : Nat)
    (w' : Lookahead (Recording ρ)) : Prop where
  delivered : w'.delivered = w.delivered ++ bs
  taken_le : taken ≤ (w.window ++ bs).length
  window : w'.window = (w.window ++ bs).drop taken
  pos : w'.pos = w.pos
  canKeep : w'.CanKeep

namespace Moved

variable {w w' w'' : Lookahead (Recording ρ)} {bs cs : List UInt8} {k l : Nat}

theorem refl (h : w.CanKeep) : Moved w [] 0 w := ⟨by simp, by simp, by simp, rfl, h⟩

/-- What is gained and what is taken off add up. -/
theorem trans (h : Moved w bs k w') (h' : Moved w' cs l w'') :
    Moved w (bs ++ cs) (k + l) w'' := by
  have htaken := h.taken_le
  have htaken' := h'.taken_le
  refine ⟨?_, ?_, ?_, h'.pos.trans h.pos, h'.canKeep⟩
  · rw [h'.delivered, h.delivered, List.append_assoc]
  · rw [h.window, List.length_append, List.length_drop] at htaken'
    rw [← List.append_assoc, List.length_append]
    omega
  · rw [h'.window, h.window, ← List.append_assoc, ← List.drop_drop,
      List.drop_append_of_le_length htaken]

/-- Dropping from what is held. -/
theorem held (h : w.CanKeep) (n : Nat) : Moved w [] (min n w.window.length) (w.dropHeld n) := by
  refine ⟨by simp [Lookahead.delivered], ?_, ?_, rfl, h.dropHeld n⟩
  · rw [List.append_nil]
    exact Nat.min_le_right n _
  · rw [window_dropHeld, List.append_nil]
    exact List.drop_eq_drop_iff.2 (by simp)

/-- A move that leaves nothing has taken all there was. -/
theorem taken_eq (h : Moved w bs k w') (hempty : w'.window = []) : k = (w.window ++ bs).length := by
  have htaken := h.taken_le
  have hdrop := h.window
  rw [hempty] at hdrop
  exact Nat.le_antisymm htaken (List.drop_eq_nil_iff.1 hdrop.symm)

end Moved

/-! ## The loops as moves -/

section Loops

variable [Reader ρ] [Lawful ρ] {w : Lookahead (Recording ρ)}

/-- A refill gains the bytes that arrive, and none if it fails. -/
theorem ReadsOn.moved {result : Except SourceError Nat × Lookahead (Recording ρ)}
    (h : w.CanKeep) (hread : ReadsOn w result) :
    ∃ bs, Moved w bs 0 result.2 ∧ ∀ e, result.1 = .error e → bs = [] := by
  have hdelivered := Recording.delivered_fetch w.reader chunk
  cases hread with
  | atEnd _ => exact ⟨[], .refl h, fun _ _ => rfl⟩
  | failed _ hfetch =>
      rw [hfetch] at hdelivered
      exact ⟨[], ⟨hdelivered, by simp, by simp [window], rfl, h⟩, fun _ _ => rfl⟩
  | metEnd _ hfetch =>
      rw [hfetch] at hdelivered
      exact ⟨[], ⟨hdelivered, by simp, by simp [window], rfl, h⟩, fun _ _ => rfl⟩
  | arrived _ hfetch hwindow hpos _ hkeep =>
      rw [hfetch] at hdelivered
      exact ⟨_, ⟨hdelivered, by simp, hwindow, hpos, hkeep⟩, by simp⟩

/-- Reading on until enough is held takes nothing off, also if it fails. -/
theorem hold_moved (n tries : Nat) (h : w.CanKeep) : ∃ bs, Moved w bs 0 (hold n tries w).2 := by
  induction tries generalizing w with
  | zero => exact ⟨[], .refl h⟩
  | succ tries ih =>
      rcases Nat.lt_or_ge w.window.length n with hlt | hle
      · obtain ⟨bs, hmoved, -⟩ := (readsOn h).moved h
        rw [hold_of_lt hlt]
        rcases hread : w.readOn with ⟨e | _ | k, w'⟩
        · exact ⟨bs, by rwa [hread] at hmoved⟩
        · exact ⟨bs, by rwa [hread] at hmoved⟩
        · rw [hread] at hmoved
          obtain ⟨cs, hmore⟩ := ih hmoved.canKeep
          exact ⟨bs ++ cs, hmoved.trans hmore⟩
      · rw [hold_of_le hle]
        exact ⟨[], .refl h⟩

theorem look_moved (offset : Nat) (h : w.CanKeep) : ∃ bs, Moved w bs 0 (w.look offset).2 := by
  rw [look_snd]
  exact hold_moved (offset + 1) (offset + 1) h

/-- A drop takes off as many bytes as it says, and leaves nothing if it fails. -/
theorem drop_moved (tries n : Nat) (h : w.CanKeep) :
    ∃ bs taken, Moved w bs taken (drop tries n w).2 ∧
      (∀ dropped, (drop tries n w).1 = .ok dropped → dropped = taken) ∧
      ∀ e, (drop tries n w).1 = .error e → (drop tries n w).2.window = [] := by
  induction tries generalizing n w with
  | zero =>
      rw [drop, size_held]
      exact ⟨[], _, .held h n, by simp, by simp⟩
  | succ tries ih =>
      have hheld := Moved.held h n
      rcases Nat.lt_or_ge w.window.length n with hlt | hle
      · rw [Nat.min_eq_right (Nat.le_of_lt hlt)] at hheld
        obtain ⟨bs, hmoved, hfailed⟩ := (readsOn (h.dropHeld n)).moved (h.dropHeld n)
        have hall := hheld.trans hmoved
        rw [drop_of_lt hlt]
        rcases hread : (w.dropHeld n).readOn with ⟨e | _ | k, w'⟩
        · rw [hread] at hall hmoved hfailed
          refine ⟨_, _, hall, by simp, ?_⟩
          intro _ _
          rw [hmoved.window, hfailed e rfl, window_dropHeld,
            List.drop_eq_nil_of_le (Nat.le_of_lt hlt)]
          rfl
        · rw [hread] at hall
          exact ⟨_, _, hall, by simp, by simp⟩
        · rw [hread] at hall
          obtain ⟨cs, taken, hmore, hok, herror⟩ := ih (n - w.window.length) hall.canKeep
          refine ⟨_, _, hall.trans hmore, ?_, ?_⟩
          · intro dropped hdropped
            cases hdrop : (drop tries (n - w.window.length) w').1 with
            | error e => simp [hdrop, Except.map] at hdropped
            | ok more =>
                have hsum : w.window.length + more = dropped := by
                  simpa [hdrop, Except.map] using hdropped
                rw [← hsum, hok more hdrop, Nat.add_zero]
          · intro e hfails
            cases hdrop : (drop tries (n - w.window.length) w').1 with
            | error e' => exact herror e' hdrop
            | ok more => simp [hdrop, Except.map] at hfails
      · rw [Nat.min_eq_left hle] at hheld
        rw [drop_of_le hle]
        exact ⟨[], _, hheld, by simp, by simp⟩

end Loops

/-! ## The position law -/

/-- The window stands so many bytes further on in what was delivered than the position does. -/
structure Displaced (w : Lookahead (Recording ρ)) (behind : Nat) : Prop where
  le_delivered : w.pos + behind ≤ w.delivered.length
  window : w.window = w.delivered.drop (w.pos + behind)
  canKeep : w.CanKeep

namespace Displaced

variable {w w' : Lookahead (Recording ρ)} {bs : List UInt8} {behind k : Nat}

/-- A new lookahead stands at its position. -/
theorem start (reader : ρ) (capacity : Nat) :
    (withBuffer (Recording.start reader) (.ofCapacity capacity)).Displaced 0 :=
  ⟨Nat.le_refl 0, rfl, rfl⟩

theorem length_window (h : w.Displaced behind) :
    w.window.length = w.delivered.length - (w.pos + behind) := by
  rw [h.window, List.length_drop]

/-- A move takes the window away from the position by what it takes off. -/
theorem move (h : w.Displaced behind) (hmoved : Moved w bs k w') : w'.Displaced (behind + k) := by
  have hle := h.le_delivered
  have htaken := hmoved.taken_le
  rw [List.length_append, h.length_window] at htaken
  refine ⟨?_, ?_, hmoved.canKeep⟩
  · rw [hmoved.delivered, hmoved.pos, List.length_append]
    omega
  · rw [hmoved.delivered, hmoved.pos, hmoved.window, ← Nat.add_assoc, ← List.drop_drop,
      List.drop_append_of_le_length hle, ← h.window]

/-- Moving the position makes up for as many bytes. -/
theorem advance (h : w.Displaced (behind + k)) :
    Displaced { w with pos := w.pos + k } behind := by
  have hsum : w.pos + k + behind = w.pos + (behind + k) := by omega
  refine ⟨?_, ?_, h.canKeep⟩
  · show w.pos + k + behind ≤ w.delivered.length
    rw [hsum]
    exact h.le_delivered
  · show w.window = w.delivered.drop (w.pos + k + behind)
    rw [hsum]
    exact h.window

/-- The window holds what was delivered from the position on only if it stands there. -/
theorem window_eq_iff (h : w.Displaced behind) :
    w.window = w.delivered.drop w.pos ↔ behind = 0 := by
  have hle := h.le_delivered
  constructor
  · intro hwindow
    have hlength := congrArg List.length hwindow
    rw [h.length_window, List.length_drop] at hlength
    omega
  · intro hzero
    rw [h.window, hzero, Nat.add_zero]

end Displaced

/-- The bytes that a failed skip has dropped: all that were held before it or came while it ran, and
are not held after it. -/
def lost (t : Source.Step (Lookahead (Recording ρ))) : Nat := match t.answer with
  | .passed (.error _) =>
      t.before.window.length + (t.after.delivered.length - t.before.delivered.length) -
        t.after.window.length
  | _ => 0

/-- The bytes that the failed skips of a run have dropped. -/
def lostAlong : List (Source.Step (Lookahead (Recording ρ))) → Nat
  | [] => 0
  | t :: ts => lost t + lostAlong ts

section Runs

open Source

variable [Reader ρ] {w : Lookahead (Recording ρ)} {behind : Nat}

/-- The step that a request makes. -/
def stepOf (q : Request) (w : Lookahead (Recording ρ)) : Step (Lookahead (Recording ρ)) :=
  ⟨w, q, (ask q w).1, (ask q w).2⟩

variable [Lawful ρ]

/-- A failed skip leaves nothing held, so it loses what was held before it and what has come since;
any other request loses nothing. -/
theorem stepOf_displaced (q : Request) (h : w.Displaced behind) :
    (ask q w).2.Displaced (behind + lost (stepOf q w)) ∧
      (lost (stepOf q w) = 0 ↔ ∀ e, (ask q w).1 = .passed (.error e) →
        w.window = [] ∧ (ask q w).2.delivered = w.delivered) := by
  cases q with
  | look offset =>
      obtain ⟨bs, hmoved⟩ := look_moved offset h.canKeep
      exact ⟨h.move hmoved, by simp [lost, stepOf, ask]⟩
  | skip n =>
      obtain ⟨bs, taken, hmoved, hok, herror⟩ := drop_moved n n h.canKeep
      rcases hdrop : drop n n w with ⟨e | dropped, w'⟩
      · have hskip : ask (.skip n) w = (.passed (.error e), w') := by
          simp [ask, Source.skip, skip, hdrop]
        rw [hdrop] at hmoved herror
        have hempty : w'.window = [] := herror e rfl
        have hlost : lost (stepOf (.skip n) w) = (w.window ++ bs).length := by
          simp [lost, stepOf, hskip, hempty, hmoved.delivered]
        rw [hlost, hskip]
        refine ⟨hmoved.taken_eq hempty ▸ h.move hmoved, ?_⟩
        rw [hmoved.delivered, List.length_eq_zero_iff, List.append_eq_nil_iff,
          List.append_right_eq_self]
        exact ⟨fun hnone _ _ => hnone, fun hnone => hnone e rfl⟩
      · have hskip : ask (.skip n) w =
            (.passed (.ok dropped), { w' with pos := w'.pos + dropped }) := by
          simp [ask, Source.skip, skip, hdrop]
        rw [hdrop] at hmoved hok
        rw [← hok dropped rfl] at hmoved
        have hlost : lost (stepOf (.skip n) w) = 0 := by simp [lost, stepOf, hskip]
        rw [hlost, hskip]
        exact ⟨(h.move hmoved).advance, by simp⟩

/-- Every run keeps the law, with the bytes that its failed skips have lost. -/
theorem after_displaced (qs : List Request) (h : w.Displaced behind) :
    (after qs w).Displaced (behind + lostAlong (steps qs w)) := by
  induction qs generalizing w behind with
  | nil => exact h
  | cons q qs ih =>
      have hrest := ih (stepOf_displaced q h).1
      rwa [Nat.add_assoc] at hrest

/-- A run loses nothing if each of its skips that fails has nothing to drop. -/
theorem lostAlong_eq_zero_iff (qs : List Request) (h : w.Displaced behind) :
    lostAlong (steps qs w) = 0 ↔ ∀ t ∈ steps qs w, ∀ e, t.answer = .passed (.error e) →
      t.before.window = [] ∧ t.after.delivered = t.before.delivered := by
  induction qs generalizing w behind with
  | nil => simp [lostAlong]
  | cons q qs ih =>
      obtain ⟨hnext, hlost⟩ := stepOf_displaced q h
      have hsum : lostAlong (steps (q :: qs) w) =
          lost (stepOf q w) + lostAlong (steps qs (ask q w).2) := rfl
      rw [hsum, Nat.add_eq_zero_iff, hlost, ih hnext, steps_cons, List.forall_mem_cons]

/-- In every run over every lawful reader the window holds what was delivered from the position on,
moved on by the bytes that failed skips have lost.  So it stands at the position exactly as long as
each skip that failed had nothing to drop: nothing was held before it and nothing came while it ran. -/
theorem window_eq_drop_pos_iff (reader : ρ) {capacity : Nat} (h : 1 ≤ capacity) :
    ∃ w, ofConfig (Recording.start reader) ⟨capacity⟩ = .ok w ∧ ∀ qs : List Request,
      (after qs w).pos + lostAlong (steps qs w) ≤ (after qs w).delivered.length ∧
      (after qs w).window =
        (after qs w).delivered.drop ((after qs w).pos + lostAlong (steps qs w)) ∧
      ((after qs w).window = (after qs w).delivered.drop (after qs w).pos ↔
        ∀ t ∈ steps qs w, ∀ e, t.answer = .passed (.error e) →
          t.before.window = [] ∧ t.after.delivered = t.before.delivered) := by
  refine ⟨_, ofConfig_eq_ok (Recording.start reader) h, ?_⟩
  intro qs
  have hstart := Displaced.start reader capacity
  have hafter := after_displaced qs hstart
  have hlost := lostAlong_eq_zero_iff qs hstart
  rw [Nat.zero_add] at hafter
  exact ⟨hafter.le_delivered, hafter.window, hafter.window_eq_iff.trans hlost⟩

/-- A reader that breaks once after two bytes and then goes on. -/
def brokenOnce : Recording ScriptedReader :=
  .start (.ofEvents [.data [97, 98], .failure (.ofKind .brokenPipe), .data [99]])

/-- A skip that has dropped both bytes when the reader breaks leaves the window behind them and the
position in front of them. -/
theorem window_ne_drop_pos_brokenOnce :
    ∃ w, ofConfig brokenOnce ⟨4⟩ = .ok w ∧
      (after [.skip 3] w).window ≠ (after [.skip 3] w).delivered.drop (after [.skip 3] w).pos :=
  ⟨_, ofConfig_eq_ok brokenOnce (by decide), by decide⟩

/-- The same failure does no harm to a skip that meets it with nothing held. -/
theorem window_eq_drop_pos_brokenOnce :
    1 ≤ 4 ∧ ∃ w, ofConfig brokenOnce ⟨4⟩ = .ok w ∧
      (after [.skip 2, .skip 1, .look 0] w).window =
        (after [.skip 2, .skip 1, .look 0] w).delivered.drop
          (after [.skip 2, .skip 1, .look 0] w).pos := by
  obtain ⟨w, hw, hlaw⟩ := window_eq_drop_pos_iff
    (ScriptedReader.ofEvents [.data [97, 98], .failure (.ofKind .brokenPipe), .data [99]])
    (show 1 ≤ 4 by decide)
  refine ⟨by decide, w, hw, (hlaw [.skip 2, .skip 1, .look 0]).2.2.2 ?_⟩
  cases (ofConfig_eq_ok brokenOnce (show 1 ≤ 4 by decide)).symm.trans hw
  intro t ht e hfails
  simp only [steps_cons, steps_nil, List.mem_cons, List.not_mem_nil, or_false] at ht
  rcases ht with rfl | rfl | rfl
  · exact nomatch hfails
  · exact ⟨by decide, by decide⟩
  · exact nomatch hfails

end Runs

end ScanKit.Lookahead
