import ScanKit.Byte.Escaped
import ScanKit.Text.Outline

/-! # What can be wrong with scanned input -/

namespace ScanKit

inductive SyntaxError where
  /-- Another byte stands where one was expected. -/
  | unexpected (pos : Nat) (expected found : UInt8)
  /-- The input ends where a byte was expected. -/
  | unexpectedEnd (pos : Nat) (expected : UInt8)
  /-- The caller rejects the input for a reason of its own. -/
  | rejected (pos : Nat) (reason : String)
deriving DecidableEq, Repr

namespace SyntaxError

def pos : SyntaxError → Nat
  | unexpected pos _ _ | unexpectedEnd pos _ | rejected pos _ => pos

/-- A byte between single quotes, in printable ASCII. -/
def shown (b : UInt8) : String := "'" ++ String.ofList (Byte.escaped b) ++ "'"

def detail : SyntaxError → String
  | unexpected _ expected found => "expected " ++ shown expected ++ ", found " ++ shown found
  | unexpectedEnd _ expected => "expected " ++ shown expected ++ ", found end of input"
  | rejected _ reason => reason

def message (e : SyntaxError) : String :=
  "syntax error at " ++ toString e.pos ++ ": " ++ e.detail

def outline : SyntaxError → Outline
  | unexpected pos expected found =>
      .record "Unexpected" [.named "pos" (.number pos), .named "expected" (.number expected.toNat),
        .named "found" (.number found.toNat)]
  | unexpectedEnd pos expected =>
      .record "UnexpectedEnd"
        [.named "pos" (.number pos), .named "expected" (.number expected.toNat)]
  | rejected pos reason =>
      .record "Syntax" [.named "pos" (.number pos), .named "reason" (.text reason)]

end SyntaxError

end ScanKit
