import ScanKit.Source.Basic

/-!
# Runs of a source

A run makes requests of a source one after the other, each of the state in which the one before left
it, whatever the answer was.  `steps` keeps every request of a run with its answer and the states
around it, so that a statement about a run can speak about each call; `after` is the state in which
the run leaves the source.  A statement about `after` for every list of requests is one about every
state of a run, since the requests made up to a state are a list of requests too.
-/

universe u

namespace ScanKit.Source

/-- What can be asked of a source. -/
inductive Request where
  | look (offset : Nat)
  | skip (n : Nat)
deriving DecidableEq, Repr

/-- What a source answers: a byte or how many bytes it passed, or why not. -/
inductive Answer where
  | byte (b : Except SourceError UInt8)
  | passed (n : Except SourceError Nat)

/-- The answer shows that the input ends: a byte past it was wanted, or fewer bytes were passed than
were asked for. -/
def Request.metEnd : Request → Answer → Bool
  | .look _, .byte (.error (.endOfInput _)) => true
  | .skip n, .passed (.ok m) => decide (m < n)
  | _, _ => false

/-- Bytes passed before a skip make no difference to whether it met the end. -/
theorem Request.metEnd_skip_add (k n : Nat) (passed : Except SourceError Nat) :
    (skip (k + n)).metEnd (.passed (passed.map (k + ·))) = (skip n).metEnd (.passed passed) := by
  cases passed with
  | error e => rfl
  | ok m => simp [metEnd, Except.map]

variable {σ : Type u} [Source σ]

/-- The answer to a request and the state after it. -/
def ask : Request → σ → Answer × σ
  | .look offset, s => (.byte (look offset s).1, (look offset s).2)
  | .skip n, s => (.passed (skip n s).1, (skip n s).2)

/-- One request of a run. -/
structure Step (σ : Type u) where
  before : σ
  request : Request
  answer : Answer
  after : σ

/-- The requests of a run with what came of them. -/
def steps : List Request → σ → List (Step σ)
  | [], _ => []
  | q :: qs, s => ⟨s, q, (ask q s).1, (ask q s).2⟩ :: steps qs (ask q s).2

/-- The state that a run ends in. -/
def after : List Request → σ → σ
  | [], s => s
  | q :: qs, s => after qs (ask q s).2

/-- The answers of a run. -/
def answers (qs : List Request) (s : σ) : List Answer := (steps qs s).map (·.answer)

@[simp] theorem steps_nil (s : σ) : steps [] s = [] := rfl

@[simp] theorem steps_cons (q : Request) (qs : List Request) (s : σ) :
    steps (q :: qs) s = ⟨s, q, (ask q s).1, (ask q s).2⟩ :: steps qs (ask q s).2 := rfl

@[simp] theorem after_nil (s : σ) : after [] s = s := rfl

@[simp] theorem after_cons (q : Request) (qs : List Request) (s : σ) :
    after (q :: qs) s = after qs (ask q s).2 := rfl

@[simp] theorem answers_nil (s : σ) : answers [] s = [] := rfl

@[simp] theorem answers_cons (q : Request) (qs : List Request) (s : σ) :
    answers (q :: qs) s = (ask q s).1 :: answers qs (ask q s).2 := rfl

end ScanKit.Source
