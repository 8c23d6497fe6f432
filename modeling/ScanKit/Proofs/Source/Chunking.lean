import ScanKit.Proofs.Reader.Marks

/-!
# Readers that cannot be told apart

Two lookaheads over readers that are alike answer every run of requests alike, be their chunks,
their interruptions and the room they started with what they may.  Each of them runs like its tape,
and the tapes are equal though the windows are not: one lookahead may have read on further than the
other.  A run asks its reader for finitely many marks, so over a reader that never ends it is a run
over the same reader with a limit.
-/

universe u v

namespace ScanKit.Lookahead

open Reader Source

/-! ## Lookaheads with one tape -/

section Tapes

variable {ρ₁ : Type u} {ρ₂ : Type v} {w₁ : Lookahead ρ₁} {w₂ : Lookahead ρ₂} {ms₁ ms₂ : List Mark}

/-- Windows onto one tape begin alike. -/
theorem window_prefix_of_tape_eq (htape : w₁.tape ms₁ = w₂.tape ms₂) :
    w₁.window <+: w₂.window ∨ w₂.window <+: w₁.window := by
  have hmarks : w₁.window.map .byte ++ ms₁ = w₂.window.map .byte ++ ms₂ :=
    congrArg Tape.marks htape
  have hinj : Function.Injective Mark.byte := fun _ _ => Mark.byte.inj
  have hfirst : w₁.window.map .byte <+: w₁.window.map Mark.byte ++ ms₁ := List.prefix_append ..
  have hsecond : w₂.window.map .byte <+: w₁.window.map Mark.byte ++ ms₁ :=
    hmarks ▸ List.prefix_append ..
  exact (List.prefix_or_prefix_of_prefix hfirst hsecond).imp
    (List.prefix_map_iff_of_injective hinj).1 (List.prefix_map_iff_of_injective hinj).1

/-- Lookaheads that have met the end of one tape hold the same, so they take themselves to be at the
end together. -/
theorem atEnd_eq_of_tape_eq [Reader ρ₁] [Reader ρ₂] (h₁ : w₁.Follows ms₁) (h₂ : w₂.Follows ms₂)
    (htape : w₁.tape ms₁ = w₂.tape ms₂) : w₁.atEnd = w₂.atEnd := by
  have hended : w₁.ended = w₂.ended := congrArg Tape.ended htape
  cases hw₁ : w₁.ended with
  | false => simp [atEnd, hw₁, ← hended]
  | true =>
      have hw₂ : w₂.ended = true := hended ▸ hw₁
      have hmarks : w₁.window.map Mark.byte ++ ms₁ = w₂.window.map .byte ++ ms₂ :=
        congrArg Tape.marks htape
      rw [h₁.eq_nil hw₁, h₂.eq_nil hw₂, List.append_nil, List.append_nil] at hmarks
      have hlength : w₁.window.length = w₂.window.length := by
        simpa using congrArg List.length hmarks
      simp only [atEnd, hw₁, hw₂, Growable.isEmpty_eq, size_held, hlength]

end Tapes

/-! ## Runs under a limit -/

variable {ρ : Type u}

/-- The same lookahead over a reader with a limit. -/
def limited (w : Lookahead ρ) (n : Nat) : Lookahead (Limited ρ) :=
  ⟨⟨w.reader, n⟩, w.held, w.pos, w.ended⟩

variable [Reader ρ]

/-- The same comes of `act` over the reader with any limit that is wide enough, which is then
narrower. -/
def SameWithin {α : Type v} (act : Lookahead ρ → α × Lookahead ρ)
    (limitedAct : Lookahead (Limited ρ) → α × Lookahead (Limited ρ)) (w : Lookahead ρ) : Prop :=
  ∃ used, ∀ n, limitedAct (w.limited (used + n)) = ((act w).1, (act w).2.limited n)

/-- A refill uses what its reply costs. -/
theorem readOn_sameWithin (w : Lookahead ρ) : SameWithin readOn readOn w := by
  cases hend : w.ended with
  | true =>
      refine ⟨0, fun n => ?_⟩
      rw [readOn_of_ended w hend, Nat.zero_add]
      exact readOn_of_ended (w.limited n) hend
  | false =>
      refine ⟨Limited.cost (fetch w.reader chunk).1, fun n => ?_⟩
      have hfetch := Limited.fetch_of_enough w.reader chunk n
      simp only [readOn, limited, hend, hfetch]
      rcases fetch w.reader chunk with ⟨(_ | ⟨b, bs⟩) | f, reader⟩
      · rfl
      · rcases hextend : w.held.extend (b :: bs) with ⟨e | ⟨⟩, held⟩ <;>
          simp [hextend]
      · rfl

theorem hold_sameWithin (wanted tries : Nat) (w : Lookahead ρ) :
    SameWithin (hold wanted tries) (hold wanted tries) w := by
  induction tries generalizing w with
  | zero => exact ⟨0, fun n => by rw [Nat.zero_add]; rfl⟩
  | succ tries ih =>
      rcases Nat.lt_or_ge w.window.length wanted with hlt | hle
      · obtain ⟨used, hread⟩ := readOn_sameWithin w
        have hlt' : ∀ n, (w.limited n).window.length < wanted := fun _ => hlt
        unfold SameWithin
        simp only [hold_of_lt hlt, hold_of_lt (hlt' _)]
        rcases hcame : w.readOn with ⟨e | _ | k, w'⟩ <;> rw [hcame] at hread
        · exact ⟨used, fun n => by rw [hread]⟩
        · exact ⟨used, fun n => by rw [hread]⟩
        · obtain ⟨more, hrest⟩ := ih w'
          refine ⟨used + more, fun n => ?_⟩
          rw [Nat.add_assoc, hread]
          exact hrest n
      · refine ⟨0, fun n => ?_⟩
        have hle' : wanted ≤ (w.limited n).window.length := hle
        rw [hold_of_le hle, Nat.zero_add, hold_of_le hle']

theorem look_sameWithin (offset : Nat) (w : Lookahead ρ) :
    SameWithin (look offset) (look offset) w := by
  obtain ⟨used, hhold⟩ := hold_sameWithin (offset + 1) (offset + 1) w
  refine ⟨used, fun n => ?_⟩
  simp only [look, hhold]
  rcases hold (offset + 1) (offset + 1) w with ⟨e | ⟨⟩, w'⟩
  · rfl
  · simp only [limited]
    rcases w'.held.get? offset with _ | b <;> rfl

theorem drop_sameWithin (tries wanted : Nat) (w : Lookahead ρ) :
    SameWithin (drop tries wanted) (drop tries wanted) w := by
  induction tries generalizing wanted w with
  | zero => exact ⟨0, fun n => by rw [Nat.zero_add]; rfl⟩
  | succ tries ih =>
      rcases Nat.lt_or_ge w.window.length wanted with hlt | hle
      · obtain ⟨used, hread⟩ := readOn_sameWithin (w.dropHeld wanted)
        have hlt' : ∀ n, (w.limited n).window.length < wanted := fun _ => hlt
        have hread' : ∀ n, ((w.limited (used + n)).dropHeld wanted).readOn = _ := hread
        unfold SameWithin
        simp only [drop_of_lt hlt, drop_of_lt (hlt' _)]
        rcases hcame : (w.dropHeld wanted).readOn with ⟨e | _ | k, w'⟩ <;> rw [hcame] at hread'
        · exact ⟨used, fun n => by rw [hread']⟩
        · exact ⟨used, fun n => by rw [hread']; rfl⟩
        · obtain ⟨more, hrest⟩ := ih (wanted - w.window.length) w'
          refine ⟨used + more, fun n => ?_⟩
          have hrest' : ∀ m, drop tries (wanted - (w.limited m).window.length)
              (w'.limited (more + n)) = _ := fun _ => hrest n
          rw [Nat.add_assoc, hread']
          simp only [hrest']
          rfl
      · refine ⟨0, fun n => ?_⟩
        have hle' : wanted ≤ (w.limited n).window.length := hle
        rw [drop_of_le hle, Nat.zero_add, drop_of_le hle']
        rfl

theorem skip_sameWithin (wanted : Nat) (w : Lookahead ρ) :
    SameWithin (skip wanted) (skip wanted) w := by
  obtain ⟨used, hdrop⟩ := drop_sameWithin wanted wanted w
  refine ⟨used, fun n => ?_⟩
  simp only [skip, hdrop]
  rcases drop wanted wanted w with ⟨e | dropped, w'⟩ <;> rfl

theorem ask_sameWithin (q : Request) (w : Lookahead ρ) : SameWithin (ask q) (ask q) w := by
  cases q with
  | look offset =>
      obtain ⟨used, hlook⟩ := look_sameWithin offset w
      refine ⟨used, fun n => ?_⟩
      show (Answer.byte (look offset (w.limited (used + n))).1,
        (look offset (w.limited (used + n))).2) = _
      rw [hlook]
      rfl
  | skip wanted =>
      obtain ⟨used, hskip⟩ := skip_sameWithin wanted w
      refine ⟨used, fun n => ?_⟩
      show (Answer.passed (skip wanted (w.limited (used + n))).1,
        (skip wanted (w.limited (used + n))).2) = _
      rw [hskip]
      rfl

/-- A run asks its reader for finitely many marks. -/
theorem run_sameWithin (qs : List Request) (w : Lookahead ρ) :
    SameWithin (fun w => (answers qs w, after qs w)) (fun w => (answers qs w, after qs w)) w := by
  induction qs generalizing w with
  | nil => exact ⟨0, fun n => by rw [Nat.zero_add]; rfl⟩
  | cons q qs ih =>
      obtain ⟨used, hask⟩ := ask_sameWithin q w
      obtain ⟨more, hrest⟩ := ih (ask q w).2
      refine ⟨used + more, fun n => ?_⟩
      have hlimited := hrest n
      simp only [Prod.mk.injEq] at hlimited
      simp only [answers_cons, after_cons, Nat.add_assoc, hask, hlimited]

/-! ## Lookaheads over readers that are alike -/

section Alike

variable {ρ₁ : Type u} {ρ₂ : Type v} [Reader ρ₁] [Reader ρ₂]

/-- Nothing in a run tells the one lookahead from the other, and their windows begin alike. -/
structure Indistinct (w₁ : Lookahead ρ₁) (w₂ : Lookahead ρ₂) (qs : List Request) : Prop where
  answers : answers qs w₁ = answers qs w₂
  pos : (after qs w₁).pos = (after qs w₂).pos
  atEnd : Source.atEnd (after qs w₁) = Source.atEnd (after qs w₂)
  window : (after qs w₁).window <+: (after qs w₂).window ∨
    (after qs w₂).window <+: (after qs w₁).window

/-- Lookaheads with one tape have one tape after every run. -/
theorem indistinct_of_tape_eq {w₁ : Lookahead ρ₁} {w₂ : Lookahead ρ₂} {ms₁ ms₂ : List Mark}
    (h₁ : w₁.Follows ms₁) (h₂ : w₂.Follows ms₂) (htape : w₁.tape ms₁ = w₂.tape ms₂)
    (qs : List Request) : Indistinct w₁ w₂ qs := by
  obtain ⟨hanswers₁, ms₁', hfollows₁, hafter₁⟩ := run_tape qs h₁
  obtain ⟨hanswers₂, ms₂', hfollows₂, hafter₂⟩ := run_tape qs h₂
  rw [htape] at hanswers₁ hafter₁
  have hleft : (after qs w₁).tape ms₁' = (after qs w₂).tape ms₂' := hafter₁.symm.trans hafter₂
  exact ⟨hanswers₁.trans hanswers₂.symm, congrArg Tape.pos hleft,
    atEnd_eq_of_tape_eq hfollows₁ hfollows₂ hleft, window_prefix_of_tape_eq hleft⟩

/-- Lookaheads that start over readers that are alike cannot be told apart. -/
theorem indistinct_of_alike {r₁ : ρ₁} {r₂ : ρ₂} (h : Alike r₁ r₂) (capacity₁ capacity₂ : Nat)
    (qs : List Request) :
    Indistinct (withBuffer r₁ (.ofCapacity capacity₁)) (withBuffer r₂ (.ofCapacity capacity₂))
      qs := by
  obtain ⟨used₁, hrun₁⟩ := run_sameWithin qs (withBuffer r₁ (.ofCapacity capacity₁))
  obtain ⟨used₂, hrun₂⟩ := run_sameWithin qs (withBuffer r₂ (.ofCapacity capacity₂))
  obtain ⟨hanswers₁, hafter₁⟩ := Prod.mk.inj (hrun₁ used₂)
  obtain ⟨hanswers₂, hafter₂⟩ := Prod.mk.inj (hrun₂ used₁)
  -- Both runs stay within the sum of what they use, and there the readers yield one tape.
  rw [Nat.add_comm used₂ used₁] at hanswers₂ hafter₂
  have hyields₁ := Limited.yields r₁ (used₁ + used₂)
  have hyields₂ := Limited.yields r₂ (used₁ + used₂)
  rw [← h] at hyields₂
  obtain ⟨hanswers, hpos, hatEnd, hwindow⟩ :
      Indistinct ((withBuffer r₁ (.ofCapacity capacity₁)).limited (used₁ + used₂))
        ((withBuffer r₂ (.ofCapacity capacity₂)).limited (used₁ + used₂)) qs :=
    indistinct_of_tape_eq (follows_withBuffer capacity₁ hyields₁)
      (follows_withBuffer capacity₂ hyields₂) rfl qs
  rw [hanswers₁, hanswers₂] at hanswers
  rw [hafter₁, hafter₂] at hpos hatEnd hwindow
  exact ⟨hanswers, hpos, hatEnd, hwindow⟩

/-- Over two lawful readers that are alike, and with any room to start with, two lookaheads cannot be
told apart by any run of requests: every answer is the same, be it a byte, a count, the end of the
input or a failure, and they have the same position and know of the end in the same states.  Scripts
are alike if they come to the same bytes and failures up to the first end. -/
theorem chunking_invisible :
    (∀ events₁ events₂ : List ReadEvent,
      Alike (ScriptedReader.ofEvents events₁) (ScriptedReader.ofEvents events₂) ↔
        ReadEvent.marks events₁ = ReadEvent.marks events₂) ∧
    ∀ {ρ₁ : Type u} {ρ₂ : Type v} [Reader ρ₁] [Reader ρ₂] [Lawful ρ₁] [Lawful ρ₂] (r₁ : ρ₁)
      (r₂ : ρ₂) (capacity₁ capacity₂ : Nat), Alike r₁ r₂ → 1 ≤ capacity₁ → 1 ≤ capacity₂ →
      ∃ w₁ w₂, ofConfig r₁ ⟨capacity₁⟩ = .ok w₁ ∧ ofConfig r₂ ⟨capacity₂⟩ = .ok w₂ ∧
        ∀ qs : List Request, Indistinct w₁ w₂ qs := by
  refine ⟨alike_script_iff, ?_⟩
  intro ρ₁ ρ₂ _ _ _ _ r₁ r₂ capacity₁ capacity₂ halike hcapacity₁ hcapacity₂
  exact ⟨_, _, ofConfig_eq_ok r₁ hcapacity₁, ofConfig_eq_ok r₂ hcapacity₂,
    fun qs => indistinct_of_alike halike capacity₁ capacity₂ qs⟩

/-- Two bytes in one piece and a failure, then an interruption and another byte. -/
def brokenAfterPiece : List ReadEvent :=
  [.data [97, 98], .failure (.ofKind .brokenPipe), .failure (.ofKind .interrupted), .data [99]]

/-- The same byte by byte, with the interruption elsewhere and bytes behind the end. -/
def brokenAfterBytes : List ReadEvent :=
  [.data [97], .failure (.ofKind .interrupted), .data [98], .failure (.ofKind .brokenPipe),
    .data [99], .data [], .data [100]]

/-- The skip that comes to the failure meets it, in whichever pieces the bytes before it came. -/
theorem chunking_invisible_brokenAfter :
    Alike (ScriptedReader.ofEvents brokenAfterPiece) (ScriptedReader.ofEvents brokenAfterBytes) ∧
    1 ≤ 1 ∧ 1 ≤ 5 ∧
    ∃ w₁ w₂, ofConfig (ScriptedReader.ofEvents brokenAfterPiece) ⟨1⟩ = .ok w₁ ∧
      ofConfig (ScriptedReader.ofEvents brokenAfterBytes) ⟨5⟩ = .ok w₂ ∧
      Indistinct w₁ w₂ [.look 0, .skip 3, .skip 2] ∧
      answers [.look 0, .skip 3, .skip 2] w₁ = [.byte (.ok 97),
        .passed (.error (.readFailed (.ofKind .brokenPipe))), .passed (.ok 1)] := by
  have halike : Alike (ScriptedReader.ofEvents brokenAfterPiece)
      (ScriptedReader.ofEvents brokenAfterBytes) :=
    (chunking_invisible.{0, 0}.1 brokenAfterPiece brokenAfterBytes).2 (by decide)
  obtain ⟨w₁, w₂, hw₁, hw₂, hruns⟩ := chunking_invisible.{0, 0}.2
    (ScriptedReader.ofEvents brokenAfterPiece) (ScriptedReader.ofEvents brokenAfterBytes) 1 5
    halike (by decide) (by decide)
  refine ⟨halike, by decide, by decide, w₁, w₂, hw₁, hw₂, hruns _, ?_⟩
  have hstart := Except.ok.inj ((ofConfig_eq_ok _ (by decide)).symm.trans hw₁)
  subst hstart
  exact (run_tape _ (follows_withBuffer 1 (yields_script brokenAfterPiece 0))).1

end Alike

end ScanKit.Lookahead
