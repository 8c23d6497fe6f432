import ScanKit.Reader.Failure

/-! # Readers

A reader hands out bytes call by call, as many as it likes up to the room it is given. An answer
without bytes is the end of its input. A call that is interrupted is made again; over a lawful
reader this comes to an end.
-/

universe u

namespace ScanKit

inductive Reply where
  | bytes (bs : List UInt8)
  | failure (f : ReadFailure)
deriving DecidableEq, Repr

class Reader (ρ : Type u) where
  /-- One call, with room for so many bytes. -/
  read : ρ → Nat → Reply × ρ
  /-- A bound on the bytes that are still to come. -/
  left : ρ → Nat
  /-- A bound on the interruptions that come before anything else. -/
  interruptions : ρ → Nat

namespace Reader

variable {ρ : Type u} [Reader ρ]

/-- A reader whose bound on interruptions is one: each that comes uses up a part of it. -/
class Lawful (ρ : Type u) [Reader ρ] : Prop where
  interruptions_lt : ∀ {r r' : ρ} {room : Nat} {f : ReadFailure},
    read r room = (.failure f, r') → f.isInterruption = true → interruptions r' < interruptions r

/-- A call that is made again, up to so many times, when it is interrupted. -/
def retry (room : Nat) : Nat → ρ → Reply × ρ
  | 0, r => read r room
  | tries + 1, r => match read r room with
    | (.bytes bs, r) => (.bytes bs, r)
    | (.failure f, r) => if f.isInterruption then retry room tries r else (.failure f, r)

/-- A call that is made again until it is not interrupted. A lawful reader is asked no more often
than its bound says. One that is not may go on interrupting, and would be waited for without an end;
here its last interruption is the answer. -/
def fetch (r : ρ) (room : Nat) : Reply × ρ := retry room (interruptions r) r

/-- The bytes of so many calls, up to the end or a failure. -/
def collect (room : Nat) : Nat → ρ → List UInt8 × Option ReadFailure
  | 0, _ => ([], none)
  | calls + 1, r => match fetch r room with
    | (.failure f, _) => ([], some f)
    | (.bytes [], _) => ([], none)
    | (.bytes bs, r) =>
        let more := collect room calls r
        (bs ++ more.1, more.2)

/-- The room that a caller gives who wants all there is. -/
def chunk : Nat := 128

/-- All that a reader still gives, and the failure that ends it. -/
def remainder (r : ρ) : List UInt8 × Option ReadFailure := collect chunk (left r + 1) r

end Reader

end ScanKit
