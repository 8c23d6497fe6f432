import ScanKit.Proofs.Source.Refill
import ScanKit.Proofs.Source.Run

/-!
# Lookaheads as tapes

A tape is what a source looks like to its caller: the bytes from the position on, one by one, with
the failures of the reader standing between them.  It knows nothing of chunks, of interruptions or
of what is held already.  A lookahead answers every request as its tape does (`ask_tape`), so what its
reader hands out in which pieces cannot be told from its answers.
-/

universe u

namespace ScanKit

/-- A byte, or a failure between two bytes. -/
inductive Mark where
  | byte (b : UInt8)
  | failure (f : ReadFailure)
deriving DecidableEq, Repr

/-- What is still to be read, the position, and whether the end was met. -/
structure Tape where
  marks : List Mark
  pos : Nat
  ended : Bool

namespace Tape

/-! ## Reading a tape -/

/-- Goes to the byte at a distance, `wanted` at first.  A failure on the way is taken off. -/
def seek (wanted : Nat) : Nat → List Mark → Except SourceError UInt8 × List Mark
  | _, [] => (.error (.endOfInput wanted), [])
  | _, .failure f :: ms => (.error (.readFailed f), ms)
  | 0, .byte b :: ms => (.ok b, .byte b :: ms)
  | n + 1, .byte b :: ms => ((seek wanted n ms).1, .byte b :: (seek wanted n ms).2)

/-- Takes up to so many bytes off and counts them.  A failure on the way is taken off with the bytes
before it. -/
def pass : Nat → List Mark → Except SourceError Nat × List Mark
  | 0, ms => (.ok 0, ms)
  | _ + 1, [] => (.ok 0, [])
  | _ + 1, .failure f :: ms => (.error (.readFailed f), ms)
  | n + 1, .byte _ :: ms => ((pass n ms).1.map (· + 1), (pass n ms).2)

def look (offset : Nat) (t : Tape) : Except SourceError UInt8 × Tape :=
  let found := seek offset offset t.marks
  (found.1, ⟨found.2, t.pos, t.ended || (Source.Request.look offset).metEnd (.byte found.1)⟩)

def skip (n : Nat) (t : Tape) : Except SourceError Nat × Tape :=
  let passed := pass n t.marks
  (passed.1, ⟨passed.2, t.pos + passed.1.toOption.getD 0,
    t.ended || (Source.Request.skip n).metEnd (.passed passed.1)⟩)

instance : Source Tape where
  look := look
  skip := skip
  pos := pos
  atEnd t := t.ended && t.marks.isEmpty
  ahead t := t.marks.length

/-- Bytes in front are found by their place. -/
theorem seek_of_lt (wanted : Nat) {n : Nat} {bs : List UInt8} (h : n < bs.length) (ms : List Mark) :
    seek wanted n (bs.map .byte ++ ms) = (.ok bs[n], bs.map .byte ++ ms) := by
  induction bs generalizing n with
  | nil => exact absurd h (Nat.not_lt_zero n)
  | cons b bs ih =>
      cases n with
      | zero => rfl
      | succ n =>
          have hrest := ih (Nat.lt_of_succ_lt_succ h)
          simp only [List.map_cons, List.cons_append, seek, hrest, List.getElem_cons_succ]

/-- Bytes in front that are not enough stay there. -/
theorem seek_of_le (wanted : Nat) {n : Nat} {bs : List UInt8} (h : bs.length ≤ n) (ms : List Mark) :
    seek wanted n (bs.map .byte ++ ms) =
      ((seek wanted (n - bs.length) ms).1, bs.map .byte ++ (seek wanted (n - bs.length) ms).2) := by
  induction bs generalizing n with
  | nil => simp
  | cons b bs ih =>
      cases n with
      | zero => simp at h
      | succ n =>
          have hrest := ih (Nat.le_of_succ_le_succ h)
          simp only [List.map_cons, List.cons_append, seek, hrest, List.length_cons,
            Nat.add_sub_add_right]

theorem pass_of_le {n : Nat} {bs : List UInt8} (h : n ≤ bs.length) (ms : List Mark) :
    pass n (bs.map .byte ++ ms) = (.ok n, (bs.drop n).map .byte ++ ms) := by
  induction bs generalizing n with
  | nil =>
      have hn : n = 0 := Nat.le_zero.1 h
      subst hn
      rfl
  | cons b bs ih =>
      cases n with
      | zero => rfl
      | succ n =>
          have hrest := ih (Nat.le_of_succ_le_succ h)
          simp only [List.map_cons, List.cons_append, pass, hrest, Except.map, List.drop_succ_cons]

/-- Bytes in front that are not enough are passed before what comes behind them. -/
theorem pass_of_lt {n : Nat} {bs : List UInt8} (h : bs.length < n) (ms : List Mark) :
    pass n (bs.map .byte ++ ms) =
      ((pass (n - bs.length) ms).1.map (bs.length + ·), (pass (n - bs.length) ms).2) := by
  induction bs generalizing n with
  | nil =>
      cases hpass : (pass n ms).1 <;>
        simp [hpass, Except.map, Prod.ext_iff]
  | cons b bs ih =>
      cases n with
      | zero => exact absurd h (Nat.not_lt_zero _)
      | succ n =>
          have hrest := ih (Nat.lt_of_succ_lt_succ h)
          simp only [List.map_cons, List.cons_append, pass, hrest, List.length_cons,
            Nat.add_sub_add_right]
          cases (pass (n - bs.length) ms).1 with
          | error e => rfl
          | ok m => simp [Except.map, Nat.add_right_comm]

end Tape

/-! ## What a reader puts on the tape -/

namespace Reader

variable {ρ : Type u} [Reader ρ]

/-- The bytes and failures that a reader hands out up to its end, interruptions left out. -/
inductive Yields : ρ → List Mark → Prop where
  | ended {r r' : ρ} (hfetch : fetch r chunk = (.bytes [], r')) : Yields r []
  | bytes {r r' : ρ} {b : UInt8} {bs : List UInt8} {ms : List Mark}
      (hfetch : fetch r chunk = (.bytes (b :: bs), r')) (hrest : Yields r' ms) :
      Yields r ((b :: bs).map .byte ++ ms)
  | failure {r r' : ρ} {f : ReadFailure} {ms : List Mark}
      (hfetch : fetch r chunk = (.failure f, r')) (hrest : Yields r' ms) :
      Yields r (.failure f :: ms)

/-- A reader that has put nothing in front of what another one yields yields the same. -/
theorem Yields.of_fetch_eq {r r' : ρ} {ms : List Mark}
    (hfetch : fetch r chunk = fetch r' chunk) (h : Yields r' ms) : Yields r ms := by
  cases h with
  | ended h => exact .ended (hfetch.trans h)
  | bytes h hrest => exact .bytes (hfetch.trans h) hrest
  | failure h hrest => exact .failure (hfetch.trans h) hrest

end Reader

/-! ## Lookaheads -/

namespace Lookahead

open Reader

variable {ρ : Type u}

/-- The tape of a lookahead before whose window `ms` is still to come. -/
def tape (w : Lookahead ρ) (ms : List Mark) : Tape :=
  ⟨w.window.map .byte ++ ms, w.pos, w.ended⟩

variable [Reader ρ] {w w' : Lookahead ρ} {ms : List Mark}

/-- What comes behind the window: what the reader yields, or nothing once it has ended. -/
structure Follows (w : Lookahead ρ) (ms : List Mark) : Prop where
  canKeep : w.CanKeep
  eq_nil : w.ended = true → ms = []
  yields : w.ended = false → Yields w.reader ms

theorem follows_withBuffer {reader : ρ} (capacity : Nat) (h : Yields reader ms) :
    (withBuffer reader (.ofCapacity capacity)).Follows ms :=
  ⟨canKeep_withBuffer reader capacity, nofun, fun _ => h⟩

theorem Follows.dropHeld (h : w.Follows ms) (n : Nat) : (w.dropHeld n).Follows ms :=
  ⟨h.canKeep.dropHeld n, h.eq_nil, h.yields⟩

/-- What reading on makes of what comes behind the window. -/
inductive Refill (w : Lookahead ρ) : List Mark → Except SourceError Nat × Lookahead ρ → Prop where
  | /-- A failure is taken off. -/
    failed {f : ReadFailure} {ms : List Mark} {w' : Lookahead ρ} (hfollows : w'.Follows ms)
      (hwindow : w'.window = w.window) (hpos : w'.pos = w.pos) (hended : w'.ended = w.ended) :
      Refill w (.failure f :: ms) (.error (.readFailed f), w')
  | /-- Nothing is left, and that is known now. -/
    metEnd {w' : Lookahead ρ} (hfollows : w'.Follows []) (hwindow : w'.window = w.window)
      (hpos : w'.pos = w.pos) (hended : w'.ended = true) : Refill w [] (.ok 0, w')
  | /-- Bytes have moved into the window. -/
    arrived {b : UInt8} {bs : List UInt8} {ms : List Mark} {w' : Lookahead ρ}
      (hfollows : w'.Follows ms) (hwindow : w'.window = w.window ++ b :: bs)
      (hpos : w'.pos = w.pos) (hended : w'.ended = w.ended) :
      Refill w ((b :: bs).map .byte ++ ms) (.ok (bs.length + 1), w')

/-- The reader hands out what comes behind the window. -/
theorem Follows.refill (h : w.Follows ms) : Refill w ms w.readOn := by
  have hread := readsOn h.canKeep
  generalize w.readOn = result at hread ⊢
  cases hread with
  | atEnd hend =>
      rw [h.eq_nil hend]
      exact .metEnd ⟨h.canKeep, fun _ => rfl, by simp [hend]⟩ rfl rfl hend
  | failed hend hfetch =>
      cases h.yields hend with
      | ended hfetch' | bytes hfetch' _ => simp [hfetch'] at hfetch
      | failure hfetch' hrest =>
          obtain ⟨⟨⟩, rfl⟩ := hfetch'.symm.trans hfetch
          exact .failed ⟨h.canKeep, by simp [hend], fun _ => hrest⟩ rfl rfl rfl
  | metEnd hend hfetch =>
      cases h.yields hend with
      | bytes hfetch' _ | failure hfetch' _ => simp [hfetch'] at hfetch
      | ended _ => exact .metEnd ⟨h.canKeep, fun _ => rfl, nofun⟩ rfl rfl rfl
  | arrived hend hfetch hwindow hpos hended hkeep =>
      cases h.yields hend with
      | ended hfetch' | failure hfetch' _ => simp [hfetch'] at hfetch
      | bytes hfetch' hrest =>
          obtain ⟨⟨⟩, hreader⟩ := Prod.ext_iff.1 (hfetch'.symm.trans hfetch)
          dsimp only at hreader
          subst hreader
          exact .arrived ⟨hkeep, by simp [hended], fun _ => hrest⟩ hwindow hpos
            (hended.trans hend.symm)

/-! ## The loops on the tape -/

/-- A look that reads on at most so often. -/
def lookWithin (tries offset : Nat) (w : Lookahead ρ) : Except SourceError UInt8 × Lookahead ρ :=
  match hold (offset + 1) tries w with
  | (.error e, w) => (.error e, w)
  | (.ok (), w) => match w.held.get? offset with
    | some b => (.ok b, w)
    | none => (.error (.endOfInput offset), w)

theorem look_eq_lookWithin (offset : Nat) (w : Lookahead ρ) :
    w.look offset = lookWithin (offset + 1) offset w := rfl

/-- A byte that is held is found. -/
theorem lookWithin_of_lt {tries offset : Nat} (h : offset < w.window.length) :
    lookWithin tries offset w = (.ok w.window[offset], w) := by
  have hget : w.held.get? offset = some w.window[offset] := by
    rw [Growable.get?_eq]
    exact List.getElem?_eq_getElem h
  simp only [lookWithin, hold_of_le (Nat.succ_le_of_lt h), hget]

theorem lookWithin_of_le {tries offset : Nat} (h : w.window.length ≤ offset) :
    lookWithin (tries + 1) offset w = match w.readOn with
      | (.error e, w') => (.error e, w')
      | (.ok 0, w') => match w'.held.get? offset with
        | some b => (.ok b, w')
        | none => (.error (.endOfInput offset), w')
      | (.ok (_ + 1), w') => lookWithin tries offset w' := by
  rw [lookWithin, hold_of_lt (Nat.lt_succ_of_le h)]
  rcases w.readOn with ⟨_ | _ | k, w'⟩ <;> rfl

/-- Each refill either settles the answer or brings the byte nearer, so as many of them as bytes
are missing are enough. -/
theorem lookWithin_tape (tries offset : Nat) (h : w.Follows ms)
    (htries : offset + 1 ≤ w.window.length + tries) :
    ∃ ms', (lookWithin tries offset w).2.Follows ms' ∧
      (w.tape ms).look offset =
        ((lookWithin tries offset w).1, (lookWithin tries offset w).2.tape ms') := by
  induction tries generalizing w ms with
  | zero =>
      have hlt : offset < w.window.length := htries
      rw [lookWithin_of_lt hlt]
      refine ⟨ms, h, ?_⟩
      simp only [Tape.look, tape, Tape.seek_of_lt offset hlt, Source.Request.metEnd, Bool.or_false]
  | succ tries ih =>
      rcases Nat.lt_or_ge offset w.window.length with hlt | hle
      · rw [lookWithin_of_lt hlt]
        refine ⟨ms, h, ?_⟩
        simp only [Tape.look, tape, Tape.seek_of_lt offset hlt, Source.Request.metEnd,
          Bool.or_false]
      · rw [lookWithin_of_le hle]
        have hrefill := h.refill
        generalize w.readOn = result at hrefill
        cases hrefill with
        | @failed f ms w' hfollows hwindow hpos hended =>
            refine ⟨ms, hfollows, ?_⟩
            simp only [Tape.look, tape, Tape.seek_of_le offset hle, Source.Request.metEnd,
              Bool.or_false, Tape.seek, hwindow, hpos, hended]
        | @metEnd w' hfollows hwindow hpos hended =>
            have hget : w'.held.get? offset = none := by
              rw [Growable.get?_eq]
              exact List.getElem?_eq_none (by rw [← window, hwindow]; exact hle)
            simp only [hget]
            refine ⟨[], hfollows, ?_⟩
            have hseek := Tape.seek_of_le offset hle []
            simp only [Tape.seek] at hseek
            simp only [Tape.look, tape, hseek, Source.Request.metEnd, Bool.or_true, hwindow, hpos,
              hended]
        | @arrived b bs ms w' hfollows hwindow hpos hended =>
            have htape : w.tape ((b :: bs).map .byte ++ ms) = w'.tape ms := by
              simp only [tape, hwindow, hpos, hended, List.map_append, List.append_assoc]
            rw [htape]
            refine ih hfollows ?_
            rw [hwindow, List.length_append, List.length_cons]
            omega

/-- What a drop leaves is what its tape leaves; the position is moved by the skip around it. -/
structure DropsLike (w : Lookahead ρ) (ms : List Mark) (n : Nat)
    (result : Except SourceError Nat × Lookahead ρ) (ms' : List Mark) : Prop where
  follows : result.2.Follows ms'
  pass : Tape.pass n (w.window.map .byte ++ ms) = (result.1, result.2.window.map .byte ++ ms')
  pos : result.2.pos = w.pos
  ended : result.2.ended = (w.ended || (Source.Request.skip n).metEnd (.passed result.1))

theorem DropsLike.held (h : w.Follows ms) {n : Nat} (hle : n ≤ w.window.length) :
    DropsLike w ms n (.ok n, w.dropHeld n) ms where
  follows := h.dropHeld n
  pass := by rw [Tape.pass_of_le hle, window_dropHeld]
  pos := rfl
  ended := by simp [Source.Request.metEnd]

theorem drop_tape (tries n : Nat) (h : w.Follows ms) (htries : n ≤ w.window.length + tries) :
    ∃ ms', DropsLike w ms n (drop tries n w) ms' := by
  induction tries generalizing n w ms with
  | zero =>
      rw [drop_of_le htries]
      exact ⟨ms, .held h htries⟩
  | succ tries ih =>
      rcases Nat.lt_or_ge w.window.length n with hlt | hle
      · have hpass := Tape.pass_of_lt hlt
        have hnone : (w.dropHeld n).window = [] := by
          rw [window_dropHeld, List.drop_eq_nil_of_le (Nat.le_of_lt hlt)]
        obtain ⟨k, hk⟩ : ∃ k, n - w.window.length = k + 1 := ⟨n - w.window.length - 1, by omega⟩
        have hrefill := (h.dropHeld n).refill
        rw [drop_of_lt hlt]
        generalize (w.dropHeld n).readOn = result at hrefill
        cases hrefill with
        | @failed f ms w' hfollows hwindow hpos hended =>
            refine ⟨ms, hfollows, ?_, hpos, ?_⟩
            · rw [hpass, hk, hwindow, hnone]
              rfl
            · simp [hended, Source.Request.metEnd]
        | @metEnd w' hfollows hwindow hpos hended =>
            refine ⟨[], hfollows, ?_, hpos, ?_⟩
            · rw [hpass, hk, hwindow, hnone]
              rfl
            · simp [hended, Source.Request.metEnd, hlt]
        | @arrived b bs ms w' hfollows hwindow hpos hended =>
            have harrived : w'.window = b :: bs := by rw [hwindow, hnone, List.nil_append]
            obtain ⟨ms', hmore⟩ := ih (n - w.window.length) hfollows
              (by rw [harrived, List.length_cons]; omega)
            have hmarks := hmore.pass
            rw [harrived] at hmarks
            refine ⟨ms', hmore.follows, ?_, hmore.pos.trans hpos, ?_⟩
            · rw [hpass, hmarks]
            · have hn : n = w.window.length + (n - w.window.length) := by omega
              have hmet := Source.Request.metEnd_skip_add w.window.length (n - w.window.length)
                (drop tries (n - w.window.length) w').1
              rw [← hn] at hmet
              rw [hmore.ended, hended, ended_dropHeld, ← hmet]
      · rw [drop_of_le hle]
        exact ⟨ms, .held h hle⟩

/-! ## Requests on the tape -/

open Source

/-- A lookahead answers a request as its tape does and is left with what its tape is left with. -/
theorem ask_tape (q : Request) (h : w.Follows ms) :
    ∃ ms', (ask q w).2.Follows ms' ∧ ask q (w.tape ms) = ((ask q w).1, (ask q w).2.tape ms') := by
  cases q with
  | look offset =>
      obtain ⟨ms', hfollows, hlook⟩ := lookWithin_tape (offset + 1) offset h (Nat.le_add_left _ _)
      rw [← look_eq_lookWithin] at hfollows hlook
      refine ⟨ms', hfollows, ?_⟩
      show (Answer.byte ((w.tape ms).look offset).1, ((w.tape ms).look offset).2) = _
      rw [hlook]
      rfl
  | skip n =>
      obtain ⟨ms', hdrops⟩ := drop_tape n n h (Nat.le_add_left _ _)
      have hskip : ask (.skip n) (w.tape ms) = (.passed (drop n n w).1,
          ⟨(drop n n w).2.window.map .byte ++ ms', w.pos + (drop n n w).1.toOption.getD 0,
            w.ended || (Request.skip n).metEnd (.passed (drop n n w).1)⟩) := by
        show (Answer.passed ((w.tape ms).skip n).1, ((w.tape ms).skip n).2) = _
        simp only [Tape.skip, tape, hdrops.pass]
      have hfollows := hdrops.follows
      rw [hskip, ← hdrops.ended, ← hdrops.pos]
      rcases hdrop : drop n n w with ⟨e | dropped, w'⟩
      · have hask : ask (.skip n) w = (.passed (.error e), w') := by
          simp [ask, Source.skip, skip, hdrop]
        rw [hdrop] at hfollows
        rw [hask]
        exact ⟨ms', hfollows, rfl⟩
      · have hask : ask (.skip n) w =
            (.passed (.ok dropped), { w' with pos := w'.pos + dropped }) := by
          simp [ask, Source.skip, skip, hdrop]
        rw [hdrop] at hfollows
        rw [hask]
        exact ⟨ms', ⟨hfollows.canKeep, hfollows.eq_nil, hfollows.yields⟩, rfl⟩

/-- Every run of a lookahead is a run of its tape. -/
theorem run_tape (qs : List Request) (h : w.Follows ms) :
    answers qs w = answers qs (w.tape ms) ∧
      ∃ ms', (after qs w).Follows ms' ∧ after qs (w.tape ms) = (after qs w).tape ms' := by
  induction qs generalizing w ms with
  | nil => exact ⟨rfl, ms, h, rfl⟩
  | cons q qs ih =>
      obtain ⟨ms', hfollows, hask⟩ := ask_tape q h
      have hrest := ih hfollows
      simp only [answers_cons, after_cons, hask, hrest.1, true_and]
      exact hrest.2

end Lookahead

end ScanKit
