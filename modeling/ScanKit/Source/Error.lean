import ScanKit.Growable.Error
import ScanKit.Reader.Failure

/-! # Why a source gives no byte -/

namespace ScanKit

inductive SourceError where
  /-- The input ends before this many bytes past the position. -/
  | endOfInput (offset : Nat)
  /-- The reader behind the source failed. -/
  | readFailed (f : ReadFailure)
  /-- The bytes read ahead could not be kept. -/
  | buffer (e : Growable.Error)
deriving DecidableEq, Repr

namespace SourceError

def message : SourceError → String
  | endOfInput offset => "end of input before offset " ++ toString offset
  | readFailed f => "read failed (" ++ f.kind.text ++ "): " ++ f.message
  | buffer e => "lookahead buffer: " ++ e.message

def outline : SourceError → Outline
  | endOfInput offset => .record "EndOfInput" [.named "offset" (.number offset)]
  | readFailed f =>
      .record "Io" [.named "kind" (.leaf f.kind.name), .named "message" (.text f.message)]
  | buffer e => .wrapper "Buffer" [e.outline]

/-- The error behind this one. -/
def cause? : SourceError → Option Growable.Error
  | buffer e => some e
  | endOfInput _ | readFailed _ => none

end SourceError

end ScanKit
