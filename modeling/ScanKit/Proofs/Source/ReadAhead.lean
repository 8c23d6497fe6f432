import ScanKit.Proofs.Reader.Logged
import ScanKit.Proofs.Source.Tape

/-!
# How far a lookahead reads ahead

A lookahead asks its reader only for bytes that it does not hold and that are wanted, and each time
for no more than one chunk, so its window stays within a chunk of what was asked for.  All that a
request does to a lookahead is a sequence of refills, drops and moves of the position: what these
keep every run keeps (`Kept.run`).
-/

universe u

namespace ScanKit.Lookahead

open Reader Source

variable {ρ : Type u} [Reader ρ] {w : Lookahead ρ}

/-! ## What every run keeps -/

/-- A property that outlasts refills, drops and moves of the position. -/
structure Kept (P : Lookahead ρ → Prop) : Prop where
  readOn : ∀ w, P w → P w.readOn.2
  dropHeld : ∀ w n, P w → P (w.dropHeld n)
  move : ∀ w pos, P w → P { w with pos }

namespace Kept

variable {P : Lookahead ρ → Prop}

theorem hold (h : Kept P) (n tries : Nat) (hw : P w) : P (hold n tries w).2 := by
  induction tries generalizing w with
  | zero => exact hw
  | succ tries ih =>
      rcases Nat.lt_or_ge w.window.length n with hlt | hle
      · have hread := h.readOn w hw
        rw [hold_of_lt hlt]
        rcases hcame : w.readOn with ⟨e | _ | k, w'⟩ <;> rw [hcame] at hread
        · exact hread
        · exact hread
        · exact ih hread
      · rw [hold_of_le hle]
        exact hw

theorem look (h : Kept P) (offset : Nat) (hw : P w) : P (w.look offset).2 := by
  rw [look_snd]
  exact h.hold (offset + 1) (offset + 1) hw

theorem drop (h : Kept P) (tries n : Nat) (hw : P w) : P (drop tries n w).2 := by
  induction tries generalizing n w with
  | zero => exact h.dropHeld w n hw
  | succ tries ih =>
      rcases Nat.lt_or_ge w.window.length n with hlt | hle
      · have hread := h.readOn _ (h.dropHeld w n hw)
        rw [drop_of_lt hlt]
        rcases hcame : (w.dropHeld n).readOn with ⟨e | _ | k, w'⟩ <;> rw [hcame] at hread
        · exact hread
        · exact hread
        · exact ih _ hread
      · rw [drop_of_le hle]
        exact h.dropHeld w n hw

theorem skip (h : Kept P) (n : Nat) (hw : P w) : P (w.skip n).2 := by
  obtain ⟨pos, hskip⟩ := skip_snd n w
  rw [hskip]
  exact h.move _ pos (h.drop n n hw)

theorem run (h : Kept P) (qs : List Request) (hw : P w) : P (after qs w) := by
  induction qs generalizing w with
  | nil => exact hw
  | cons q qs ih =>
      refine ih ?_
      cases q with
      | look offset => exact h.look offset hw
      | skip n => exact h.skip n hw

end Kept

theorem kept_canKeep : Kept (CanKeep : Lookahead ρ → Prop) where
  readOn w h := by
    have hread := readsOn h
    generalize w.readOn = result at hread
    cases hread with
    | atEnd _ | failed _ _ | metEnd _ _ => exact h
    | arrived _ _ _ _ _ hkeep => exact hkeep
  dropHeld w n h := h.dropHeld n
  move w pos h := h

/-- A byte that is held is found without the reader, and nothing changes. -/
theorem look_of_lt {offset : Nat} (h : offset < w.window.length) :
    w.look offset = (.ok w.window[offset], w) :=
  (look_eq_lookWithin offset w).trans (lookWithin_of_lt h)

/-! ## After the end -/

/-- Once the end is known the reader is left alone, and the window only gets shorter. -/
theorem kept_ended (reader : ρ) (window : List UInt8) :
    Kept fun w : Lookahead ρ => w.ended = true ∧ w.reader = reader ∧ w.window <:+ window where
  readOn w h := by
    rw [readOn_of_ended w h.1]
    exact h
  dropHeld w n h := by
    refine ⟨h.1, h.2.1, ?_⟩
    rw [window_dropHeld]
    exact (List.drop_suffix n w.window).trans h.2.2
  move w pos h := h

theorem run_of_ended (h : w.ended = true) (qs : List Request) :
    (after qs w).reader = w.reader ∧ (after qs w).window <:+ w.window :=
  ((kept_ended w.reader w.window).run qs ⟨h, rfl, List.suffix_rfl⟩).2

/-- The end is known if the reader has reported it, and only then. -/
theorem kept_endKnown [Lawful ρ] : Kept fun w : Lookahead (Logged ρ) =>
    w.CanKeep ∧ (.bytes [] ∈ w.reader.replies ↔ w.ended = true) where
  readOn w h := by
    obtain ⟨hkeep, hknown⟩ := h
    have hread := readsOn hkeep
    have hlog := Logged.mem_replies_fetch w.reader chunk
    generalize w.readOn = result at hread
    cases hread with
    | atEnd _ => exact ⟨hkeep, hknown⟩
    | failed hend hfetch | metEnd hend hfetch =>
        rw [hfetch] at hlog
        refine ⟨hkeep, hlog.trans ?_⟩
        simp [hknown, hend]
    | arrived hend hfetch _ _ hended hkeep' =>
        rw [hfetch] at hlog
        refine ⟨hkeep', hlog.trans ?_⟩
        simp [hknown, hend, hended]
  dropHeld w n h := ⟨h.1.dropHeld n, h.2⟩
  move w pos h := h

/-! ## The length of the window -/

section Length

variable [Lawful ρ] [Modest ρ]

/-- A refill adds the bytes that it counts, one chunk at most. -/
theorem length_readOn (h : w.CanKeep) :
    w.readOn.2.window.length = w.window.length + w.readOn.1.toOption.getD 0 ∧
      w.readOn.1.toOption.getD 0 ≤ chunk := by
  have hread := readsOn h
  have hchunk := length_fetch_le w.reader chunk
  generalize w.readOn = result at hread
  cases hread with
  | atEnd _ | failed _ _ | metEnd _ _ => exact ⟨rfl, Nat.zero_le chunk⟩
  | arrived _ hfetch hwindow _ _ _ =>
      rw [hfetch] at hchunk
      rw [hwindow, List.length_append]
      exact ⟨rfl, hchunk⟩

/-- Waiting for bytes reads on only while there are too few. -/
theorem length_hold_lt (h : w.CanKeep) {n : Nat} (tries : Nat)
    (hlength : w.window.length < n + chunk) : (hold n tries w).2.window.length < n + chunk := by
  induction tries generalizing w with
  | zero => exact hlength
  | succ tries ih =>
      rcases Nat.lt_or_ge w.window.length n with hlt | hle
      · obtain ⟨hadded, hchunk⟩ := length_readOn h
        have hkeep := kept_canKeep.readOn w h
        have hmore : w.readOn.2.window.length < n + chunk := by omega
        rw [hold_of_lt hlt]
        rcases hcame : w.readOn with ⟨e | _ | k, w'⟩ <;> rw [hcame] at hmore hkeep
        · exact hmore
        · exact hmore
        · exact ih hkeep hmore
      · rw [hold_of_le hle]
        exact hlength

theorem length_look_le (h : w.CanKeep) {offset : Nat} (hle : w.window.length ≤ offset) :
    (w.look offset).2.window.length ≤ offset + chunk := by
  rw [look_snd]
  have hlt := length_hold_lt h (n := offset + 1) (offset + 1) (by omega)
  omega

/-- A drop that reads on has dropped all that was held, and it drops a byte at least of each chunk
that comes. -/
theorem length_drop_le (h : w.CanKeep) (tries n : Nat) :
    (drop tries n w).2.window.length ≤ max (w.window.length - n) (chunk - 1) := by
  have hheld : ∀ (w : Lookahead ρ) n, (w.dropHeld n).window.length = w.window.length - n := by
    intro w n
    rw [window_dropHeld, List.length_drop]
  induction tries generalizing n w with
  | zero =>
      rw [drop, hheld]
      exact Nat.le_max_left ..
  | succ tries ih =>
      rcases Nat.lt_or_ge w.window.length n with hlt | hle
      · obtain ⟨hadded, hchunk⟩ := length_readOn (h.dropHeld n)
        have hkeep := kept_canKeep.readOn _ (h.dropHeld n)
        rw [hheld, Nat.sub_eq_zero_of_le (Nat.le_of_lt hlt), Nat.zero_add] at hadded
        rw [drop_of_lt hlt]
        rcases hcame : (w.dropHeld n).readOn with ⟨e | _ | k, w'⟩ <;>
          rw [hcame] at hadded hchunk hkeep
        · exact Nat.le_trans (Nat.le_of_eq hadded) (Nat.zero_le _)
        · exact Nat.le_trans (Nat.le_of_eq hadded) (Nat.zero_le _)
        · have hcame : w'.window.length ≤ chunk := Nat.le_trans (Nat.le_of_eq hadded) hchunk
          have hrest := ih hkeep (n - w.window.length)
          dsimp only at hrest ⊢
          omega
      · rw [drop_of_le hle, hheld]
        exact Nat.le_max_left ..

theorem length_skip_le (h : w.CanKeep) (n : Nat) :
    (w.skip n).2.window.length ≤ max (w.window.length - n) (chunk - 1) := by
  obtain ⟨pos, hskip⟩ := skip_snd n w
  rw [hskip]
  exact length_drop_le h n n

/-- A run stays within a bound on what its requests ask for. -/
theorem length_run_le (h : w.CanKeep) {bound : Nat} (hchunk : chunk - 1 ≤ bound)
    (hlength : w.window.length ≤ bound) {qs : List Request}
    (hlooks : ∀ offset, .look offset ∈ qs → offset + chunk ≤ bound) :
    (after qs w).window.length ≤ bound := by
  induction qs generalizing w with
  | nil => exact hlength
  | cons q qs ih =>
      have hkeep : (ask q w).2.CanKeep := kept_canKeep.run [q] h
      refine ih hkeep ?_ fun offset hmem => hlooks offset (List.mem_cons_of_mem _ hmem)
      cases q with
      | look offset =>
          rcases Nat.lt_or_ge offset w.window.length with hlt | hle
          · have hsame : (ask (.look offset) w).2 = w := by
              simp only [ask, Source.look, look_of_lt hlt]
            rw [hsame]
            exact hlength
          · exact Nat.le_trans (length_look_le h hle) (hlooks offset List.mem_cons_self)
      | skip n =>
          have hle := length_skip_le h n
          have hskip : (ask (.skip n) w).2 = (w.skip n).2 := rfl
          rw [hskip]
          omega

end Length

/-! ## Runs -/

/-- What requests can do to a lookahead whose reader keeps a log. -/
structure Frugal (w : Lookahead (Logged ρ)) : Prop where
  /-- A look at a byte that is held leaves all as it was: the reader is not called. -/
  held : ∀ {offset} (h : offset < w.window.length), w.look offset = (.ok w.window[offset], w)
  /-- Any other look leaves a chunk less a byte more than was wanted at most. -/
  look : ∀ offset, w.window.length ≤ offset → (w.look offset).2.window.length ≤ offset + 128
  /-- A skip leaves what was held behind the bytes skipped, or a chunk less a byte. -/
  skip : ∀ n, (w.skip n).2.window.length ≤ max (w.window.length - n) 127
  /-- A reader that has reported its end is not called again, and the window only gets shorter. -/
  ended : .bytes [] ∈ w.reader.replies → ∀ qs,
    (after qs w).reader = w.reader ∧ (after qs w).window <:+ w.window

/-- Over every lawful reader that stays within the room it is given, and in every state of every run,
a request reads on only for bytes that are wanted and not held, whatever comes of it.  So the window
never holds more than a chunk beyond the furthest byte that was looked at, and less than a chunk if
none was. -/
theorem reads_no_further [Lawful ρ] [Modest ρ] (reader : ρ) {capacity : Nat} (h : 1 ≤ capacity) :
    ∃ w, ofConfig (Logged.start reader) ⟨capacity⟩ = .ok w ∧ ∀ qs : List Request,
      (after qs w).Frugal ∧
      (∀ furthest, (∀ offset, .look offset ∈ qs → offset ≤ furthest) →
        (after qs w).window.length ≤ furthest + 128) ∧
      ((∀ offset, .look offset ∉ qs) → (after qs w).window.length ≤ 127) := by
  refine ⟨_, ofConfig_eq_ok _ h, fun qs => ?_⟩
  have hstart : (withBuffer (Logged.start reader) (.ofCapacity capacity)).CanKeep :=
    canKeep_withBuffer _ capacity
  obtain ⟨hkeep, hknown⟩ := kept_endKnown.run qs ⟨hstart, by simp [withBuffer, Logged.start]⟩
  refine ⟨?_, ?_, ?_⟩
  · constructor
    · exact look_of_lt
    · exact fun offset hle => length_look_le hkeep hle
    · exact fun n => length_skip_le hkeep n
    · exact fun hended qs => run_of_ended (hknown.1 hended) qs
  · intro furthest hlooks
    refine length_run_le hstart (Nat.le_add_left 127 (furthest + 1)) (Nat.zero_le _) ?_
    intro offset hmem
    exact Nat.add_le_add_right (hlooks offset hmem) 128
  · intro hnone
    refine length_run_le hstart (Nat.le_refl 127) (Nat.zero_le _) ?_
    intro offset hmem
    exact absurd hmem (hnone offset)

/-- A script that breaks and then comes to its end. -/
def brokenThenEnded : List ReadEvent :=
  [.data [97, 98, 99], .failure (.ofKind .brokenPipe), .data [100]]

/-- The end is met by the third look; after it the reader is left alone and the window shrinks. -/
theorem reads_no_further_brokenThenEnded :
    1 ≤ 8 ∧ ∃ w, ofConfig (Logged.start (ScriptedReader.ofEvents brokenThenEnded)) ⟨8⟩ = .ok w ∧
      (after [.look 9, .look 9, .skip 1] w).window.length ≤ 9 + 128 ∧
      .bytes [] ∈ (after [.look 9, .look 9, .skip 1] w).reader.replies ∧
      (after [.look 0, .look 9, .skip 2] (after [.look 9, .look 9, .skip 1] w)).reader =
        (after [.look 9, .look 9, .skip 1] w).reader := by
  obtain ⟨w, hw, hruns⟩ :=
    reads_no_further (ScriptedReader.ofEvents brokenThenEnded) (show 1 ≤ 8 by decide)
  obtain ⟨hfrugal, hfurthest, -⟩ := hruns [.look 9, .look 9, .skip 1]
  have hstart := Except.ok.inj ((ofConfig_eq_ok _ (by decide)).symm.trans hw)
  subst hstart
  have hended : .bytes [] ∈ (after [.look 9, .look 9, .skip 1]
      (withBuffer (Logged.start (ScriptedReader.ofEvents brokenThenEnded))
        (.ofCapacity 8))).reader.replies := by decide
  refine ⟨by decide, _, hw, hfurthest 9 ?_, hended, (hfrugal.ended hended _).1⟩
  intro offset hmem
  simp only [List.mem_cons, Request.look.injEq, reduceCtorEq, List.not_mem_nil, or_false] at hmem
  omega

end ScanKit.Lookahead
