import ScanKit.Proofs.Reader.Interruptions
import ScanKit.Proofs.Source.Tape

/-!
# Readers that deliver all of their data

`Delivers r data` says, call by call and without regard to the sizes of the chunks, that a reader
hands out `data` and then comes to its end, and that every call before either brings bytes or is
interrupted.  Such a reader puts exactly its data on a tape (`Delivers.yields`): the interruptions
vanish, since a call that is interrupted is made again.
-/

universe u

namespace ScanKit.Reader

variable {ρ : Type u} [Reader ρ]

/-- The reader hands out the data and then ends, with interruptions on the way. -/
inductive Delivers : ρ → List UInt8 → Prop where
  | ended {r r' : ρ} (hread : read r chunk = (.bytes [], r')) : Delivers r []
  | bytes {r r' : ρ} {b : UInt8} {bs rest : List UInt8}
      (hread : read r chunk = (.bytes (b :: bs), r')) (hrest : Delivers r' rest) :
      Delivers r (b :: bs ++ rest)
  | interrupted {r r' : ρ} {f : ReadFailure} {data : List UInt8}
      (hread : read r chunk = (.failure f, r')) (hf : f.isInterruption = true)
      (hrest : Delivers r' data) : Delivers r data

/-- A reader that delivers data puts it on the tape, byte by byte. -/
theorem Delivers.yields [Lawful ρ] {r : ρ} {data : List UInt8} (h : Delivers r data) :
    Yields r (data.map .byte) := by
  induction h with
  | ended hread => exact .ended (fetch_of_bytes hread)
  | bytes hread _ ih =>
      rw [List.map_append]
      exact .bytes (fetch_of_bytes hread) ih
  | interrupted hread hf _ ih => exact ih.of_fetch_eq (fetch_of_interruption hread hf)

/-! ## Readers over bytes in memory -/

/-- A paced reader delivers its data at whatever pace, with interruptions or without. -/
theorem delivers_paced {size : Nat} (hsize : 1 ≤ size) (interrupts interruptNext : Bool)
    (data : List UInt8) (calls : Nat) :
    Delivers (PacedReader.mk data size interrupts interruptNext calls) data := by
  induction hlength : data.length using Nat.strongRecOn generalizing data interruptNext calls with
  | _ n ih =>
      -- The call that is not interrupted comes first, since an interruption leaves the data alone.
      have hserved : ∀ calls, Delivers (PacedReader.mk data size interrupts false calls) data := by
        intro calls
        cases data with
        | nil =>
            have hread : read (PacedReader.mk [] size interrupts false calls) chunk =
                (.bytes [], PacedReader.mk [] size interrupts interrupts (calls + 1)) := by
              simp [read, PacedReader.read]
            exact .ended hread
        | cons b bs =>
            obtain ⟨k, hk⟩ : ∃ k, min size chunk = k + 1 :=
              ⟨min size chunk - 1, by simp only [chunk]; omega⟩
            have hread : read (PacedReader.mk (b :: bs) size interrupts false calls) chunk =
                (.bytes (b :: bs.take k),
                  PacedReader.mk (bs.drop k) size interrupts interrupts (calls + 1)) := by
              simp [read, PacedReader.read, hk]
            have hrest := ih (bs.drop k).length
              (by rw [← hlength, List.length_drop, List.length_cons]; omega)
              interrupts (bs.drop k) (calls + 1) rfl
            have hall := Delivers.bytes hread hrest
            rwa [List.cons_append, List.take_append_drop] at hall
      cases interruptNext with
      | false => exact hserved calls
      | true =>
          have hread : read (PacedReader.mk data size interrupts true calls) chunk =
              (.failure (.ofKind .interrupted),
                PacedReader.mk data size interrupts false (calls + 1)) := rfl
          exact .interrupted hread (by decide) (hserved (calls + 1))

/-- What an event of a script has to be if the script is to deliver its bytes: bytes, or an
interruption. -/
def benign : ReadEvent → Prop
  | .data bs => bs ≠ []
  | .failure f => f.isInterruption = true

instance : DecidablePred benign
  | .data bs => inferInstanceAs (Decidable (bs ≠ []))
  | .failure f => inferInstanceAs (Decidable (f.isInterruption = true))

/-- Pending bytes are delivered over as many calls as they take. -/
theorem delivers_pending {events : List ReadEvent}
    (h : ∀ calls, Delivers (ScriptedReader.mk [] events calls) (events.flatMap ReadEvent.bytes))
    (pending : List UInt8) (calls : Nat) :
    Delivers (ScriptedReader.mk pending events calls)
      (pending ++ events.flatMap ReadEvent.bytes) := by
  induction hlength : pending.length using Nat.strongRecOn generalizing pending calls with
  | _ n ih =>
      cases pending with
      | nil => exact h calls
      | cons b bs =>
          have hread : read (ScriptedReader.mk (b :: bs) events calls) chunk =
              (.bytes (b :: bs.take 127), ScriptedReader.mk (bs.drop 127) events (calls + 1)) := rfl
          have hrest := ih (bs.drop 127).length
            (by rw [← hlength, List.length_drop, List.length_cons]; omega)
            (bs.drop 127) (calls + 1) rfl
          have hall := Delivers.bytes hread hrest
          rwa [List.cons_append, ← List.append_assoc, List.take_append_drop] at hall

/-- A script of bytes and interruptions delivers its bytes. -/
theorem delivers_script {events : List ReadEvent} (h : ∀ e ∈ events, benign e) (calls : Nat) :
    Delivers (ScriptedReader.mk [] events calls) (events.flatMap ReadEvent.bytes) := by
  induction events generalizing calls with
  | nil => exact .ended rfl
  | cons e events ih =>
      obtain ⟨he, hevents⟩ := List.forall_mem_cons.1 h
      cases e with
      | data bs =>
          cases bs with
          | nil => exact absurd rfl he
          | cons b bs =>
              have hread : read (ScriptedReader.mk [] (.data (b :: bs) :: events) calls) chunk =
                  (.bytes (b :: bs.take 127),
                    ScriptedReader.mk (bs.drop 127) events (calls + 1)) := rfl
              have hrest := delivers_pending (ih hevents) (bs.drop 127) (calls + 1)
              have hall := Delivers.bytes hread hrest
              rwa [List.cons_append, ← List.append_assoc, List.take_append_drop] at hall
      | failure f =>
          have hread : read (ScriptedReader.mk [] (.failure f :: events) calls) chunk =
              (.failure f, ScriptedReader.mk [] events (calls + 1)) := rfl
          exact .interrupted hread he (ih hevents (calls + 1))

end ScanKit.Reader
