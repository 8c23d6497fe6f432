import ScanKit.Proofs.Reader.Delivery
import ScanKit.Source.Memory

/-!
# A lookahead in the place of bytes in memory

A lookahead over a reader that delivers some data answers every run of requests as a source over the
data in memory does.  Both are compared with the tape of the data: the lookahead runs like its tape,
and so does the memory, whose state is what is left of the tape.
-/

universe u

namespace ScanKit

open Source

/-! ## Tapes of bytes -/

namespace Tape

/-- The tape of bytes in memory. -/
def ofMemory (m : MemorySource) (ended : Bool) : Tape := ⟨m.rest.map .byte, m.pos, ended⟩

/-- Bytes in memory answer as their tape does; what only the tape knows is whether its end was
met. -/
theorem ask_ofMemory (q : Request) (m : MemorySource) (ended : Bool) :
    ask q (ofMemory m ended) =
      ((ask q m).1, ofMemory (ask q m).2 (ended || q.metEnd (ask q m).1)) := by
  cases q with
  | look offset =>
      have hask : ask (.look offset) m = (.byte (m.look offset), m) := rfl
      show (Answer.byte ((ofMemory m ended).look offset).1, ((ofMemory m ended).look offset).2) = _
      rw [hask, MemorySource.look_eq]
      rcases Nat.lt_or_ge offset m.rest.length with hlt | hle
      · have hseek := seek_of_lt offset hlt []
        rw [List.append_nil] at hseek
        simp only [look, ofMemory, hseek, List.getElem?_eq_getElem hlt]
      · have hseek := seek_of_le offset hle []
        rw [List.append_nil, seek] at hseek
        simp only [look, ofMemory, hseek, List.getElem?_eq_none hle, List.append_nil]
  | skip n =>
      have hask : ask (.skip n) m = (.passed (.ok (min n m.left)), (m.skip n).2) := rfl
      show (Answer.passed ((ofMemory m ended).skip n).1, ((ofMemory m ended).skip n).2) = _
      rw [hask]
      have hpass :
          pass n (m.rest.map .byte) = (.ok (min n m.left), (m.skip n).2.rest.map .byte) := by
        rw [MemorySource.rest_skip, ← MemorySource.length_rest]
        rcases Nat.lt_or_ge m.rest.length n with hlt | hle
        · have hall := pass_of_lt hlt []
          obtain ⟨k, hk⟩ : ∃ k, n - m.rest.length = k + 1 := ⟨n - m.rest.length - 1, by omega⟩
          rw [List.append_nil, hk, pass] at hall
          rw [hall, Nat.min_eq_right (Nat.le_of_lt hlt), List.drop_eq_nil_of_le (Nat.le_of_lt hlt)]
          rfl
        · have hfront := pass_of_le hle []
          rw [List.append_nil, List.append_nil] at hfront
          rw [hfront, Nat.min_eq_left hle]
      simp only [skip, ofMemory, hpass]
      rfl

/-- Every run over bytes in memory is a run of their tape, which has met its end if an answer shows
that. -/
theorem run_ofMemory (qs : List Request) (m : MemorySource) (ended : Bool) :
    answers qs (ofMemory m ended) = answers qs m ∧
      after qs (ofMemory m ended) = ofMemory (after qs m)
        (ended || (qs.zip (answers qs m)).any fun x => x.1.metEnd x.2) := by
  induction qs generalizing m ended with
  | nil => simp
  | cons q qs ih =>
      obtain ⟨hanswers, hafter⟩ := ih (ask q m).2 (ended || q.metEnd (ask q m).1)
      refine ⟨?_, ?_⟩
      · rw [answers_cons, answers_cons, ask_ofMemory, hanswers]
      · rw [after_cons, after_cons, ask_ofMemory, hafter, answers_cons, List.zip_cons_cons,
          List.any_cons, Bool.or_assoc]

end Tape

/-! ## Lookaheads beside memory -/

namespace Lookahead

open Reader

variable {ρ : Type u} [Reader ρ] {w : Lookahead ρ} {ms : List Mark} {m : MemorySource}
  {ended : Bool}

/-- A lookahead whose tape is that of bytes in memory knows of its end only at theirs, and knows of
it there if it has met it. -/
theorem atEnd_of_tape_eq (h : w.Follows ms) (htape : w.tape ms = Tape.ofMemory m ended) :
    w.atEnd = (ended && Source.atEnd m) := by
  obtain ⟨hmarks, hended⟩ : w.window.map .byte ++ ms = m.rest.map Mark.byte ∧ w.ended = ended := by
    simpa [tape, Tape.ofMemory] using
      And.intro (congrArg Tape.marks htape) (congrArg Tape.ended htape)
  cases hwended : w.ended with
  | false => simp [atEnd, hwended, ← hended]
  | true =>
      rw [h.eq_nil hwended, List.append_nil] at hmarks
      have hlength : w.window.length = m.left := by
        rw [← MemorySource.length_rest]
        simpa using congrArg List.length hmarks
      have hempty : w.held.isEmpty = (m.left == 0) := by
        rw [Growable.isEmpty_eq, size_held, hlength]
      simp [atEnd, hwended, ← hended, hempty, Source.atEnd]

/-- Over a reader that delivers `data` in any chunks and with any interruptions, and with any room
to start with, a lookahead can be put in the place of the bytes in memory: each request of any run
is answered alike and leaves both at the same position.  The lookahead takes itself to be at the end
only where the bytes are at theirs, and does so everywhere there once an answer has shown that the
input ends.  A paced reader is such a reader at every pace. -/
theorem interchangeable_with_memory (data : List UInt8) :
    (∀ size interrupts, Delivers (PacedReader.ofData data size interrupts) data) ∧
    ∀ {ρ : Type u} [Reader ρ] [Lawful ρ] (reader : ρ) (capacity : Nat),
      Delivers reader data → 1 ≤ capacity →
      ∃ w, ofConfig reader ⟨capacity⟩ = .ok w ∧ ∀ qs : List Request,
        answers qs w = answers qs (MemorySource.ofBytes data) ∧
        (after qs w).pos = (after qs (MemorySource.ofBytes data)).pos ∧
        (Source.atEnd (after qs w) = true →
          Source.atEnd (after qs (MemorySource.ofBytes data)) = true) ∧
        ((∃ x ∈ qs.zip (answers qs w), x.1.metEnd x.2 = true) →
          Source.atEnd (after qs w) = Source.atEnd (after qs (MemorySource.ofBytes data))) := by
  refine ⟨fun size interrupts => delivers_paced (Nat.le_max_right size 1) interrupts _ data 0, ?_⟩
  intro ρ _ _ reader capacity hdelivers hcapacity
  refine ⟨_, ofConfig_eq_ok reader hcapacity, ?_⟩
  intro qs
  have hfollows := follows_withBuffer capacity hdelivers.yields
  have hstart : (withBuffer reader (.ofCapacity capacity)).tape (data.map .byte) =
      Tape.ofMemory (MemorySource.ofBytes data) false := by
    rw [tape, window_withBuffer, pos_withBuffer, Growable.toList_ofCapacity]
    rfl
  obtain ⟨hanswers, ms', hfollows', hafter⟩ := run_tape qs hfollows
  obtain ⟨hanswers', hafter'⟩ := Tape.run_ofMemory qs (MemorySource.ofBytes data) false
  rw [hstart] at hanswers hafter
  rw [hafter', Bool.false_or] at hafter
  rw [hanswers'] at hanswers
  have hatEnd := atEnd_of_tape_eq hfollows' hafter.symm
  refine ⟨hanswers, (congrArg Tape.pos hafter).symm, ?_, ?_⟩
  · show (after qs (withBuffer reader (.ofCapacity capacity))).atEnd = true → _
    rw [hatEnd, Bool.and_eq_true]
    exact And.right
  · rw [hanswers]
    intro hmet
    show (after qs (withBuffer reader (.ofCapacity capacity))).atEnd = _
    rw [hatEnd, List.any_eq_true.2 hmet, Bool.true_and]

/-- Bytes that come in two pieces with an interruption before each. -/
def interruptedTwice : List ReadEvent :=
  [.failure (.ofKind .interrupted), .data [97, 98], .failure (.ofKind .interrupted), .data [99]]

/-- A run over a reader that is interrupted: once a byte past the end was wanted, the lookahead
knows of its end as the bytes in memory do. -/
theorem interchangeable_with_memory_interruptedTwice :
    Delivers (ScriptedReader.ofEvents interruptedTwice) [97, 98, 99] ∧ 1 ≤ 1 ∧
    ∃ w, ofConfig (ScriptedReader.ofEvents interruptedTwice) ⟨1⟩ = .ok w ∧
      answers [.look 7, .skip 3] w =
        answers [.look 7, .skip 3] (MemorySource.ofBytes [97, 98, 99]) ∧
      Source.atEnd (after [.look 7, .skip 3] w) =
        Source.atEnd (after [.look 7, .skip 3] (MemorySource.ofBytes [97, 98, 99])) := by
  have hdelivers : Delivers (ScriptedReader.ofEvents interruptedTwice) [97, 98, 99] :=
    delivers_script (by decide) 0
  obtain ⟨w, hw, hruns⟩ := (interchangeable_with_memory [97, 98, 99]).2
    (ScriptedReader.ofEvents interruptedTwice) 1 hdelivers (by decide)
  obtain ⟨hanswers, -, -, hatEnd⟩ := hruns [.look 7, .skip 3]
  refine ⟨hdelivers, by decide, w, hw, hanswers, hatEnd ?_⟩
  rw [hanswers]
  exact ⟨(.look 7, .byte (.error (.endOfInput 7))), List.mem_cons_self, rfl⟩

end Lookahead

end ScanKit
