import ScanKit.Reader.Basic

/-! # Readers over bytes in memory -/

namespace ScanKit

/-- Hands out as many bytes as there is room for. -/
structure PlainReader where
  data : List UInt8

namespace PlainReader

def read (r : PlainReader) (room : Nat) : Reply × PlainReader :=
  (.bytes (r.data.take room), ⟨r.data.drop room⟩)

instance : Reader PlainReader := ⟨read, fun r => r.data.length, fun _ => 0⟩

end PlainReader

/-- Hands out a limited number of bytes in each call, and may interrupt every other call, the first
one included. -/
structure PacedReader where
  data : List UInt8
  chunk : Nat
  interrupts : Bool
  interruptNext : Bool
  calls : Nat

namespace PacedReader

/-- A call hands out at least one byte if there is one. -/
def ofData (data : List UInt8) (chunk : Nat) (interrupts : Bool) : PacedReader :=
  ⟨data, max chunk 1, interrupts, interrupts, 0⟩

def read (r : PacedReader) (room : Nat) : Reply × PacedReader :=
  let r := { r with calls := r.calls + 1 }
  if r.interruptNext then
    (.failure (.ofKind .interrupted), { r with interruptNext := false })
  else
    let n := min r.chunk room
    (.bytes (r.data.take n), { r with data := r.data.drop n, interruptNext := r.interrupts })

instance : Reader PacedReader :=
  ⟨read, fun r => r.data.length, fun r => if r.interruptNext then 1 else 0⟩

end PacedReader

/-- Hands out bytes and then fails in every call. If its failure is an interruption it interrupts
for ever, and it is not lawful. -/
structure FaultyReader where
  data : List UInt8
  kind : FailureKind

namespace FaultyReader

def failure (r : FaultyReader) : ReadFailure := ⟨r.kind, "injected read failure"⟩

def read (r : FaultyReader) (room : Nat) : Reply × FaultyReader :=
  if r.data.isEmpty then (.failure r.failure, r)
  else (.bytes (r.data.take room), { r with data := r.data.drop room })

instance : Reader FaultyReader := ⟨read, fun r => r.data.length, fun _ => 0⟩

end FaultyReader

/-- One thing that a scripted reader does. -/
inductive ReadEvent where
  | data (bs : List UInt8)
  | failure (f : ReadFailure)
deriving DecidableEq, Repr

namespace ReadEvent

/-- The bytes that an event brings. -/
def bytes : ReadEvent → List UInt8
  | data bs => bs
  | failure _ => []

def isInterruption : ReadEvent → Bool
  | data _ => false
  | failure f => f.isInterruption

end ReadEvent

/-- Plays events in order. The bytes of an event may take several calls; no call goes beyond one
event. -/
structure ScriptedReader where
  pending : List UInt8
  events : List ReadEvent
  calls : Nat

namespace ScriptedReader

def ofEvents (events : List ReadEvent) : ScriptedReader := ⟨[], events, 0⟩

/-- Hands out pending bytes. -/
def serve (bs : List UInt8) (events : List ReadEvent) (calls room : Nat) :
    Reply × ScriptedReader :=
  (.bytes (bs.take room), ⟨bs.drop room, events, calls⟩)

def read (r : ScriptedReader) (room : Nat) : Reply × ScriptedReader :=
  match r with
  | ⟨b :: bs, events, calls⟩ => serve (b :: bs) events (calls + 1) room
  | ⟨[], .data bs :: events, calls⟩ => serve bs events (calls + 1) room
  | ⟨[], .failure f :: events, calls⟩ => (.failure f, ⟨[], events, calls + 1⟩)
  | ⟨[], [], calls⟩ => (.bytes [], ⟨[], [], calls + 1⟩)

/-- The bytes that are still to come. -/
def remaining (r : ScriptedReader) : List UInt8 := r.pending ++ r.events.flatMap ReadEvent.bytes

/-- The interruptions that come next; pending bytes come before any. -/
def interruptions (r : ScriptedReader) : Nat :=
  if r.pending.isEmpty then (r.events.takeWhile ReadEvent.isInterruption).length else 0

instance : Reader ScriptedReader := ⟨read, fun r => r.remaining.length, interruptions⟩

end ScriptedReader

end ScanKit
