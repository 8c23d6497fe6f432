import ScanKit.Growable.Basic
import ScanKit.Reader.Basic
import ScanKit.Source.Basic

/-! # Reading ahead

A lookahead holds bytes that its reader has given and that were not passed yet. It reads on only
when a byte is needed that it does not hold, and asks no more once the reader has come to its end.
A failure of the reader is handed on and not kept: the next call reads on. Each loop is given as many
turns as it can take, since every turn that goes on brings a byte at least.
-/

universe u

namespace ScanKit

structure Lookahead (ρ : Type u) where
  reader : ρ
  held : Growable UInt8
  pos : Nat
  /-- The reader has come to its end. -/
  ended : Bool

namespace Lookahead

/-- How the bytes read ahead are kept at first. -/
structure Config where
  capacity : Nat
deriving DecidableEq, Repr

namespace Config

def standard : Config := ⟨128⟩

instance : Inhabited Config := ⟨standard⟩

def validate (c : Config) : Except ConfigError Unit :=
  if c.capacity = 0 then .error (.zeroCapacity "stream initial_capacity") else .ok ()

/-- The array that the bytes read ahead are kept in. -/
def buffer (c : Config) : Growable.Config := .ofCapacity c.capacity

def outline (c : Config) : Outline :=
  .record "StreamConfig" [.named "initial_capacity" (.number c.capacity)]

end Config

variable {ρ : Type u}

def withBuffer (reader : ρ) (buffer : Growable UInt8) : Lookahead ρ :=
  ⟨reader, buffer, 0, false⟩

def ofReader (reader : ρ) : Lookahead ρ :=
  withBuffer reader (.ofCapacity Config.standard.capacity)

def ofConfig (reader : ρ) (c : Config) : Except ConfigError (Lookahead ρ) := match c.validate with
  | .error e => .error e
  | .ok () => (Growable.ofConfig c.buffer).map (withBuffer reader)

def atEnd (w : Lookahead ρ) : Bool := w.ended && w.held.isEmpty

def window (w : Lookahead ρ) : List UInt8 := w.held.toList

/-- Drops up to `n` of the bytes held. -/
def dropHeld (w : Lookahead ρ) (n : Nat) : Lookahead ρ := { w with held := (w.held.dropFront n).2 }

@[simp] theorem window_withBuffer (reader : ρ) (buffer : Growable UInt8) :
    (withBuffer reader buffer).window = buffer.toList := rfl

@[simp] theorem pos_withBuffer (reader : ρ) (buffer : Growable UInt8) :
    (withBuffer reader buffer).pos = 0 := rfl

@[simp] theorem window_dropHeld (w : Lookahead ρ) (n : Nat) :
    (w.dropHeld n).window = w.window.drop n := Growable.toList_dropFront w.held n

variable [Reader ρ]

/-- Reads on once and returns how many bytes came. -/
def readOn (w : Lookahead ρ) : Except SourceError Nat × Lookahead ρ :=
  if w.ended then (.ok 0, w)
  else match Reader.fetch w.reader Reader.chunk with
    | (.failure f, reader) => (.error (.readFailed f), { w with reader })
    | (.bytes [], reader) => (.ok 0, { w with reader, ended := true })
    | (.bytes bs, reader) => match w.held.extend bs with
      | (.ok (), held) => (.ok bs.length, { w with reader, held })
      | (.error e, held) => (.error (.buffer e), { w with reader, held })

/-- Reads on until `n` bytes are held, up to so many times; it stops at the end and at a failure. -/
def hold (n : Nat) : Nat → Lookahead ρ → Except SourceError Unit × Lookahead ρ
  | 0, w => (.ok (), w)
  | tries + 1, w =>
      if n ≤ w.held.size then (.ok (), w)
      else match w.readOn with
        | (.error e, w) => (.error e, w)
        | (.ok 0, w) => (.ok (), w)
        | (.ok _, w) => hold n tries w

/-- The byte at a distance ahead of the position. Each time the reader is asked it gives a byte at
least, so it is asked at most once for every byte up to the one wanted. -/
def look (offset : Nat) (w : Lookahead ρ) : Except SourceError UInt8 × Lookahead ρ :=
  match hold (offset + 1) (offset + 1) w with
  | (.error e, w) => (.error e, w)
  | (.ok (), w) => match w.held.get? offset with
    | some b => (.ok b, w)
    | none => (.error (.endOfInput offset), w)

/-- Drops up to `n` bytes from the front, reading on up to so many times, and counts them. A failure
keeps what was dropped before it dropped. -/
def drop : Nat → Nat → Lookahead ρ → Except SourceError Nat × Lookahead ρ
  | 0, n, w => (.ok (min n w.held.size), w.dropHeld n)
  | tries + 1, n, w =>
      let dropped := min n w.held.size
      let w := w.dropHeld n
      if dropped = n then (.ok dropped, w)
      else match w.readOn with
        | (.error e, w) => (.error e, w)
        | (.ok 0, w) => (.ok dropped, w)
        | (.ok _, w) => match drop tries (n - dropped) w with
          | (.error e, w) => (.error e, w)
          | (.ok more, w) => (.ok (dropped + more), w)

/-- Moves the position forward by up to `n` bytes. The reader is asked at most once for each of
them. The position stays where it is if the reader fails on the way. -/
def skip (n : Nat) (w : Lookahead ρ) : Except SourceError Nat × Lookahead ρ :=
  match drop n n w with
  | (.error e, w) => (.error e, w)
  | (.ok dropped, w) => (.ok dropped, { w with pos := w.pos + dropped })

theorem readOn_of_ended (w : Lookahead ρ) (h : w.ended = true) : w.readOn = (.ok 0, w) := by
  simp [readOn, h]

instance : Source (Lookahead ρ) where
  look := look
  skip := skip
  pos := pos
  atEnd := atEnd
  ahead w := w.held.size + Reader.left w.reader

end Lookahead

end ScanKit
