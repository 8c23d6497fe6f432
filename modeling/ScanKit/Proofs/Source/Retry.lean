import ScanKit.Proofs.Source.Chunking
import ScanKit.Proofs.Source.Position

/-!
# Looks that are made again

A look that meets a failure of the reader takes it off the tape and keeps the bytes before it, so a
look at the same place that is made again comes to the next failure and at last to the byte.
`Tape.retried` says what each of these looks comes to, without reference to what was held or asked
for before.
-/

universe u

namespace ScanKit

/-! ## Places on a tape -/

namespace Tape

/-- The failures that stand in front of the byte at a place, or in front of the end. -/
def failuresBefore : Nat → List Mark → List ReadFailure
  | _, [] => []
  | n, .failure f :: ms => f :: failuresBefore n ms
  | 0, .byte _ :: _ => []
  | n + 1, .byte _ :: ms => failuresBefore n ms

/-- The bytes, without the failures between them. -/
def bytes : List Mark → List UInt8
  | [] => []
  | .byte b :: ms => b :: bytes ms
  | .failure _ :: ms => bytes ms

/-- What the looks at the byte at a place come to, each numbered by how many were made before it:
first the failures in front of it, one in each look, and from then on the byte, or the end if there
is none. -/
def retried (wanted n : Nat) (ms : List Mark) (call : Nat) : Except SourceError UInt8 :=
  match (failuresBefore n ms)[call]?, (bytes ms)[n]? with
  | some f, _ => .error (.readFailed f)
  | none, some b => .ok b
  | none, none => .error (.endOfInput wanted)

theorem retried_ne_buffer (wanted n : Nat) (ms : List Mark) (call : Nat) (e : Growable.Error) :
    retried wanted n ms call ≠ .error (.buffer e) := by
  unfold retried
  split <;> simp

@[simp] theorem retried_nil (wanted n call : Nat) :
    retried wanted n [] call = .error (.endOfInput wanted) := rfl

@[simp] theorem retried_failure_zero (wanted n : Nat) (f : ReadFailure) (ms : List Mark) :
    retried wanted n (.failure f :: ms) 0 = .error (.readFailed f) := rfl

@[simp] theorem retried_failure_succ (wanted n : Nat) (f : ReadFailure) (ms : List Mark)
    (call : Nat) : retried wanted n (.failure f :: ms) (call + 1) = retried wanted n ms call := rfl

@[simp] theorem retried_byte_zero (wanted : Nat) (b : UInt8) (ms : List Mark) (call : Nat) :
    retried wanted 0 (.byte b :: ms) call = .ok b := rfl

@[simp] theorem retried_byte_succ (wanted n : Nat) (b : UInt8) (ms : List Mark) (call : Nat) :
    retried wanted (n + 1) (.byte b :: ms) call = retried wanted n ms call := rfl

/-- A place behind some bytes is counted from behind them. -/
theorem retried_bytes (wanted n : Nat) (bs : List UInt8) (ms : List Mark) (call : Nat) :
    retried wanted (bs.length + n) (bs.map .byte ++ ms) call = retried wanted n ms call := by
  induction bs with
  | nil => rw [List.length_nil, Nat.zero_add, List.map_nil, List.nil_append]
  | cons b bs ih =>
      rw [List.length_cons, Nat.add_right_comm, List.map_cons, List.cons_append,
        retried_byte_succ, ih]

/-- Each look uses up one mark at most, so the looks see no more marks than there are looks and
bytes up to the place. -/
theorem retried_take (wanted : Nat) {n call k : Nat} (h : n + call < k) (ms : List Mark) :
    retried wanted n (ms.take k) call = retried wanted n ms call := by
  induction ms generalizing n call k with
  | nil => rw [List.take_nil]
  | cons m ms ih =>
      obtain ⟨k, rfl⟩ : ∃ j, k = j + 1 := ⟨k - 1, by omega⟩
      rw [List.take_succ_cons]
      cases m with
      | failure f =>
          cases call with
          | zero => rfl
          | succ call =>
              rw [retried_failure_succ, retried_failure_succ]
              exact ih (by omega)
      | byte b =>
          cases n with
          | zero => rfl
          | succ n =>
              rw [retried_byte_succ, retried_byte_succ]
              exact ih (by omega)

/-- A look comes to what the first one of several comes to, and leaves the others to those after
it. -/
theorem seek_retried (wanted n : Nat) (ms : List Mark) :
    (seek wanted n ms).1 = retried wanted n ms 0 ∧
      ∀ call, retried wanted n (seek wanted n ms).2 call = retried wanted n ms (call + 1) := by
  induction ms generalizing n with
  | nil => simp [seek]
  | cons m ms ih =>
      cases m with
      | failure f => simp [seek]
      | byte b =>
          cases n with
          | zero => exact ⟨rfl, fun _ => rfl⟩
          | succ n => exact ih n

open Source

/-- The looks at one place of a tape. -/
theorem answers_looks (offset calls : Nat) (t : Tape) :
    answers (List.replicate calls (.look offset)) t =
      (List.range calls).map fun call => .byte (retried offset offset t.marks call) := by
  induction calls generalizing t with
  | zero => rfl
  | succ calls ih =>
      obtain ⟨hfirst, hrest⟩ := seek_retried offset offset t.marks
      have hmarks : (ask (.look offset) t).2.marks = (seek offset offset t.marks).2 := rfl
      have hanswer : (ask (.look offset) t).1 = .byte (seek offset offset t.marks).1 := rfl
      rw [List.replicate_succ, answers_cons, ih, List.range_succ_eq_map, List.map_cons,
        List.map_map, hmarks, hanswer, hfirst]
      refine congrArg _ (List.map_congr_left fun call _ => ?_)
      exact congrArg _ (hrest call)

end Tape

namespace Lookahead

open Reader Source

/-! ## What is still to come -/

section Coming

variable {ρ : Type u} [Reader ρ] {w : Lookahead ρ}

/-- The first marks that come behind the window; none after the end was met. -/
def coming (n : Nat) (w : Lookahead ρ) : List Mark :=
  if w.ended then [] else firstMarks n w.reader

theorem take_coming {k n : Nat} (h : k ≤ n) (w : Lookahead ρ) :
    (w.coming n).take k = w.coming k := by
  unfold coming
  split
  · rw [List.take_nil]
  · rw [firstMarks, List.take_take, Nat.min_eq_left h, take_marksOf h]

theorem follows_limited (h : w.CanKeep) (n : Nat) : (w.limited n).Follows (w.coming n) := by
  constructor
  · exact h
  · intro hended
    exact if_pos hended
  · intro hended
    have hmore : w.ended = false := hended
    rw [coming, if_neg (by simp [hmore])]
    exact Limited.yields w.reader n

/-- Looks at one place over marks that follow the window. -/
theorem answers_looks_of_follows {ms : List Mark} (h : w.Follows ms) (offset calls : Nat) :
    answers (List.replicate calls (.look offset)) w =
      (List.range calls).map fun call =>
        .byte (Tape.retried offset offset (w.window.map .byte ++ ms) call) :=
  (run_tape _ h).1.trans (Tape.answers_looks offset calls (w.tape ms))

/-- Looks at one place over any reader, be there an end or not, come to what as many of its marks
say as they can use up. -/
theorem answers_looks (h : w.CanKeep) {offset calls n : Nat} (hn : offset + calls < n) :
    answers (List.replicate calls (.look offset)) w =
      (List.range calls).map fun call =>
        .byte (Tape.retried offset offset (w.window.map .byte ++ w.coming n) call) := by
  obtain ⟨used, hrun⟩ := run_sameWithin (List.replicate calls (.look offset)) w
  have hanswers : answers (List.replicate calls (.look offset)) (w.limited (used + n)) = _ :=
    congrArg Prod.fst (hrun n)
  have hlimited := answers_looks_of_follows (follows_limited h (used + n)) offset calls
  rw [hanswers] at hlimited
  refine hlimited.trans (List.map_congr_left fun call hcall => congrArg _ ?_)
  have hn' : offset + call < n := by
    have := List.mem_range.1 hcall
    omega
  have htake : (w.window.map Mark.byte ++ w.coming (used + n)).take n =
      (w.window.map Mark.byte ++ w.coming n).take n := by
    have hcoming : (w.coming (used + n)).take (n - w.window.length) =
        (w.coming n).take (n - w.window.length) := by
      rw [take_coming (by omega), take_coming (by omega)]
    rw [List.take_append, List.take_append, List.length_map, hcoming]
  have hleft := Tape.retried_take offset hn' (w.window.map Mark.byte ++ w.coming (used + n))
  have hright := Tape.retried_take offset hn' (w.window.map Mark.byte ++ w.coming n)
  exact hleft.symm.trans ((congrArg (Tape.retried offset offset · call) htake).trans hright)

end Coming

/-! ## Looks at an absolute place -/

section Recorded

variable {ρ : Type u} {w : Lookahead (Recording ρ)}

/-- The window holds what was delivered from the position on. -/
structure AtPosition (w : Lookahead (Recording ρ)) : Prop where
  le_delivered : w.pos ≤ w.delivered.length
  window : w.window = w.delivered.drop w.pos

/-- A place ahead of the position is counted from the window or from the first byte delivered. -/
theorem AtPosition.retried (h : w.AtPosition) (offset : Nat) (ms : List Mark) (call : Nat) :
    Tape.retried offset (w.pos + offset) (w.delivered.map .byte ++ ms) call =
      Tape.retried offset offset (w.window.map .byte ++ ms) call := by
  have hsplit : w.delivered.map Mark.byte ++ ms =
      (w.delivered.take w.pos).map .byte ++ (w.window.map .byte ++ ms) := by
    rw [h.window, ← List.append_assoc, ← List.map_append, List.take_append_drop]
  have hpassed : (w.delivered.take w.pos).length = w.pos := by
    rw [List.length_take, Nat.min_eq_left h.le_delivered]
  have hplace := Tape.retried_bytes offset offset (w.delivered.take w.pos)
    (w.window.map .byte ++ ms) call
  rwa [hpassed, ← hsplit] at hplace

variable [Reader ρ]

/-- So many looks at one place one after the other.  `ms` is the whole input from its first byte on:
what was delivered, and behind that the bytes and failures still to come. -/
structure Retries (w : Lookahead (Recording ρ)) (offset calls : Nat) (ms : List Mark) : Prop where
  /-- Each failure in front of the byte comes once, in order and as the reader gave it, then the
  byte each time, or the end if the input ends before it. -/
  answers : answers (List.replicate calls (.look offset)) w =
    (List.range calls).map fun call => .byte (Tape.retried offset (w.pos + offset) ms call)
  pos : ∀ t ∈ steps (List.replicate calls (.look offset)) w, t.after.pos = w.pos
  /-- The window gains what is delivered and loses nothing. -/
  window : ∀ t ∈ steps (List.replicate calls (.look offset)) w, ∃ bs,
    t.after.window = t.before.window ++ bs ∧ t.after.delivered = t.before.delivered ++ bs
  /-- What is delivered can always be kept. -/
  kept : ∀ t ∈ steps (List.replicate calls (.look offset)) w, ∀ e,
    t.answer ≠ .byte (.error (.buffer e))

variable [Lawful ρ]

/-- Looks leave the position and all that is held. -/
theorem steps_looks (h : w.CanKeep) (offset calls : Nat) :
    ∀ t ∈ steps (List.replicate calls (.look offset)) w, t.after.pos = w.pos ∧ ∃ bs,
      t.after.window = t.before.window ++ bs ∧ t.after.delivered = t.before.delivered ++ bs := by
  induction calls generalizing w with
  | zero => simp
  | succ calls ih =>
      obtain ⟨bs, hmoved⟩ := look_moved offset h
      have hmoved : Moved w bs 0 (ask (.look offset) w).2 := hmoved
      rw [List.replicate_succ, steps_cons, List.forall_mem_cons]
      refine ⟨⟨hmoved.pos, bs, hmoved.window, hmoved.delivered⟩, ?_⟩
      intro t ht
      obtain ⟨hpos, hgained⟩ := ih hmoved.canKeep t ht
      exact ⟨hpos.trans hmoved.pos, hgained⟩

theorem AtPosition.retries (h : w.AtPosition) (hkeep : w.CanKeep) {offset calls : Nat}
    {ms : List Mark}
    (hanswers : answers (List.replicate calls (.look offset)) w =
      (List.range calls).map fun call =>
        .byte (Tape.retried offset offset (w.window.map .byte ++ ms) call)) :
    w.Retries offset calls (w.delivered.map .byte ++ ms) where
  answers := by
    simp only [h.retried]
    exact hanswers
  pos := fun t ht => (steps_looks hkeep offset calls t ht).1
  window := fun t ht => (steps_looks hkeep offset calls t ht).2
  kept := by
    intro t ht e hanswer
    have hmem : t.answer ∈ answers (List.replicate calls (.look offset)) w :=
      List.mem_map_of_mem ht
    rw [hanswers, hanswer] at hmem
    obtain ⟨call, -, hcall⟩ := List.mem_map.1 hmem
    exact Tape.retried_ne_buffer _ _ _ _ _ (Answer.byte.inj hcall)

/-- The states of a run whose window holds what was delivered from the position on. -/
theorem atPosition_after (reader : ρ) (capacity : Nat) (qs : List Request)
    (h : (after qs (withBuffer (Recording.start reader) (.ofCapacity capacity))).window =
      (after qs (withBuffer (Recording.start reader) (.ofCapacity capacity))).delivered.drop
        (after qs (withBuffer (Recording.start reader) (.ofCapacity capacity))).pos) :
    (after qs (withBuffer (Recording.start reader) (.ofCapacity capacity))).AtPosition ∧
      (after qs (withBuffer (Recording.start reader) (.ofCapacity capacity))).CanKeep := by
  have hdisplaced := after_displaced qs (Displaced.start reader capacity)
  exact ⟨⟨Nat.le_trans (Nat.le_add_right ..) hdisplaced.le_delivered, h⟩, hdisplaced.canKeep⟩

end Recorded

/-! ## Scripts and other readers -/

/-- A reader yields under observation what it yields without. -/
theorem yields_recording {ρ : Type u} [Reader ρ] [Lawful ρ] {inner : ρ} {ms : List Mark}
    (h : Yields inner ms) (delivered : List UInt8) : Yields (Recording.mk inner delivered) ms := by
  induction h generalizing delivered with
  | @ended r r' hfetch | @bytes r r' b bs ms hfetch _ ih | @failure r r' f ms hfetch _ ih =>
      obtain ⟨hreply, hinner⟩ := Recording.fetch_inner (Recording.mk r delivered) chunk
      rcases hobserved : fetch (Recording.mk r delivered) chunk with ⟨reply, inner', delivered'⟩
      rw [hobserved, hfetch] at hreply hinner
      cases hreply
      cases hinner
      first
      | exact .ended hobserved
      | exact .bytes hobserved (ih _)
      | exact .failure hobserved (ih _)

/-- The marks that a script has left. -/
def scriptLeft (w : Lookahead (Recording ScriptedReader)) : List Mark :=
  if w.ended then []
  else w.reader.inner.pending.map .byte ++ ReadEvent.marks w.reader.inner.events

theorem follows_script {w : Lookahead (Recording ScriptedReader)} (h : w.CanKeep) :
    w.Follows (scriptLeft w) := by
  refine ⟨h, fun hended => if_pos hended, fun hended => ?_⟩
  rw [scriptLeft, if_neg (by simp [hended])]
  exact yields_recording (yields_pending (yields_script w.reader.inner.events) _ _) _

/-- From a state whose window holds what was delivered from the position on, a look at one place can
be made again until its byte comes.  The failures of the reader in front of the byte come first,
each of them in one look, in order and as the reader gave it, but no interruptions; then comes the
byte in every look, or the end of the input if it ends before.  None of these looks moves the
position or loses anything, and none finds the bytes refused.  The first part is about scripts, the
second about any lawful reader; so many looks use no more than `n` of what it still hands out. -/
theorem failed_look_retried :
    (∀ (events : List ReadEvent) {capacity : Nat}, 1 ≤ capacity →
      ∃ w, ofConfig (Recording.start (ScriptedReader.ofEvents events)) ⟨capacity⟩ = .ok w ∧
        ∀ qs : List Request,
          (after qs w).window = (after qs w).delivered.drop (after qs w).pos → ∀ offset calls,
            (after qs w).Retries offset calls
              ((after qs w).delivered.map .byte ++ scriptLeft (after qs w))) ∧
    ∀ {ρ : Type u} [Reader ρ] [Lawful ρ] (reader : ρ) {capacity : Nat}, 1 ≤ capacity →
      ∃ w, ofConfig (Recording.start reader) ⟨capacity⟩ = .ok w ∧
        ∀ qs : List Request,
          (after qs w).window = (after qs w).delivered.drop (after qs w).pos →
          ∀ offset calls n, offset + calls < n →
            (after qs w).Retries offset calls
              ((after qs w).delivered.map .byte ++ (after qs w).coming n) := by
  constructor
  · intro events capacity hcapacity
    refine ⟨_, ofConfig_eq_ok _ hcapacity, fun qs hwindow offset calls => ?_⟩
    obtain ⟨hposition, hkeep⟩ := atPosition_after _ capacity qs hwindow
    exact hposition.retries hkeep (answers_looks_of_follows (follows_script hkeep) offset calls)
  · intro ρ _ _ reader capacity hcapacity
    refine ⟨_, ofConfig_eq_ok _ hcapacity, fun qs hwindow offset calls n hn => ?_⟩
    obtain ⟨hposition, hkeep⟩ := atPosition_after reader capacity qs hwindow
    exact hposition.retries hkeep (answers_looks hkeep hn)

/-- A script that breaks twice before its last byte, with an interruption besides. -/
def brokenTwice : List ReadEvent :=
  [.data [97], .failure (.ofKind .brokenPipe), .data [98], .failure (.ofKind .interrupted),
    .failure ⟨.timedOut, "too slow"⟩, .data [99]]

/-- Each failure comes once, and then the byte behind them twice. -/
theorem failed_look_retried_brokenTwice :
    1 ≤ 1 ∧ ∃ w, ofConfig (Recording.start (ScriptedReader.ofEvents brokenTwice)) ⟨1⟩ = .ok w ∧
      (after [.skip 1] w).window = (after [.skip 1] w).delivered.drop (after [.skip 1] w).pos ∧
      answers (List.replicate 4 (.look 1)) (after [.skip 1] w) =
        [.byte (.error (.readFailed (.ofKind .brokenPipe))),
          .byte (.error (.readFailed ⟨.timedOut, "too slow"⟩)), .byte (.ok 99),
          .byte (.ok 99)] := by
  obtain ⟨w, hw, hretries⟩ := failed_look_retried.{0}.1 brokenTwice (show 1 ≤ 1 by decide)
  have hstart := Except.ok.inj ((ofConfig_eq_ok _ (by decide)).symm.trans hw)
  subst hstart
  exact ⟨by decide, _, hw, by decide, (hretries [.skip 1] (by decide) 1 4).answers⟩

end Lookahead

end ScanKit
