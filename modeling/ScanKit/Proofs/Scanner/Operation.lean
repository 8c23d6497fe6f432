import ScanKit.Proofs.Run
import ScanKit.Scanner.Basic

/-!
# Operations of a scanner

What can be asked of a scanner, as data.  A run of a scanner is a run of its operations, so a
statement about every list of operations is one about everything that can be done with it.
-/

universe u

namespace ScanKit.Scanner

/-- An operation that moves over spaces before it looks at a byte. -/
inductive Trimming where
  | peek
  | next
  | accept (b : UInt8)
  | expect (b : UInt8)
deriving DecidableEq, Repr

/-- Something that is asked of a scanner.  A run of bytes is taken with a test in some state. -/
inductive Op (σ : Type u) where
  | trimming (t : Trimming)
  | trim
  | peek
  | acceptHere (b : UInt8)
  | takeRun (accept : σ → UInt8 → Bool × σ) (s : σ)
  | fail (e : SyntaxError)

/-- What comes back. -/
inductive Answer where
  | byte (b : UInt8)
  | flag (b : Bool)
  | result (r : Except SyntaxError Unit)
  | count (n : Nat)
  | run (bs : List UInt8)
  | done

def Trimming.act : Trimming → Scanner → Answer × Scanner
  | peek, c => (.byte c.peekTrimmed.1, c.peekTrimmed.2)
  | next, c => (.byte c.next.1, c.next.2)
  | accept b, c => (.flag (c.accept b).1, (c.accept b).2)
  | expect b, c => (.result (c.expect b).1, (c.expect b).2)

variable {σ : Type u}

/-- Does one thing with a scanner. -/
def act : Op σ → Scanner → Answer × Scanner
  | .trimming t, c => t.act c
  | .trim, c => (.count c.trim.1.length, c.trim.2)
  | .peek, c => (.byte c.peek, c)
  | .acceptHere b, c => (.flag (c.acceptHere b).1, (c.acceptHere b).2)
  | .takeRun accept s, c => (.run (c.takeRun accept s).1, (c.takeRun accept s).2.2)
  | .fail e, c => (.done, c.fail e)

end ScanKit.Scanner
