import ScanKit.Byte.Class
import ScanKit.Scanner.Error

/-! # Scanners

A scanner moves through a string of bytes from its start to its end. It keeps the first error it is
given, and an error stops it for good: it neither moves nor takes another error after that. The
bytes on both sides of it stand for the whole string and the position in it.
-/

universe u

namespace ScanKit

structure Scanner where
  /-- The bytes behind the scanner, the nearest first. -/
  passed : List UInt8
  /-- The bytes before the scanner. -/
  rest : List UInt8
  error? : Option SyntaxError

namespace Scanner

def ofBytes (bs : List UInt8) : Scanner := ⟨[], bs, none⟩

def source (c : Scanner) : List UInt8 := c.passed.reverse ++ c.rest

def pos (c : Scanner) : Nat := c.passed.length

def length (c : Scanner) : Nat := c.passed.length + c.rest.length

def isEmpty (c : Scanner) : Bool := c.source.isEmpty

def atEnd (c : Scanner) : Bool := c.rest.isEmpty

def halted (c : Scanner) : Bool := c.error?.isSome || c.atEnd

/-- What stands for a byte where there is none. -/
def sentinel : UInt8 := 0

def peek (c : Scanner) : UInt8 := c.rest.headD sentinel

/-- Moves over a run of bytes up to what is left after it. -/
def past (c : Scanner) (run rest : List UInt8) : Scanner :=
  { c with passed := run.reverse ++ c.passed, rest }

/-- Moves over the spaces before the scanner and returns them. -/
def trim (c : Scanner) : List UInt8 × Scanner :=
  if c.error?.isSome then ([], c)
  else
    let spaces := c.rest.takeWhile Byte.isSpace
    (spaces, c.past spaces (c.rest.dropWhile Byte.isSpace))

def trimmed (c : Scanner) : Scanner := c.trim.2

def peekTrimmed (c : Scanner) : UInt8 × Scanner := (c.trimmed.peek, c.trimmed)

/-- Moves over spaces and takes the byte after them, if there is one. -/
def next? (c : Scanner) : Option UInt8 × Scanner :=
  if c.halted then (none, c)
  else match c.trimmed.rest with
    | [] => (none, c.trimmed)
    | b :: rest => (some b, c.trimmed.past [b] rest)

def next (c : Scanner) : UInt8 × Scanner := (c.next?.1.getD sentinel, c.next?.2)

/-- Takes a byte if it is the very next one. -/
def acceptHere (c : Scanner) (b : UInt8) : Bool × Scanner :=
  if c.error?.isSome then (false, c)
  else match c.rest with
    | [] => (false, c)
    | found :: rest => if found = b then (true, c.past [b] rest) else (false, c)

/-- Moves over spaces and takes a byte if it is the next one. -/
def accept (c : Scanner) (b : UInt8) : Bool × Scanner := c.trimmed.acceptHere b

/-- Records an error unless there is one. -/
def fail (c : Scanner) (e : SyntaxError) : Scanner :=
  if c.error?.isSome then c else { c with error? := some e }

/-- The error where a byte is expected and does not come. -/
def mismatch (c : Scanner) (expected : UInt8) : SyntaxError := match c.rest with
  | [] => .unexpectedEnd c.pos expected
  | found :: _ => .unexpected c.pos expected found

/-- Moves over spaces and takes a byte; another byte or the end is recorded as an error. -/
def expect (c : Scanner) (b : UInt8) : Except SyntaxError Unit × Scanner := match c.error? with
  | some e => (.error e, c)
  | none => match c.accept b with
    | (true, c) => (.ok (), c)
    | (false, c) => (.error (c.mismatch b), c.fail (c.mismatch b))

variable {σ : Type u}

/-- The longest run at the start of some bytes that a test accepts, and what is left. The test keeps
a state and is asked once for each byte up to the first it refuses. -/
def split (accept : σ → UInt8 → Bool × σ) : σ → List UInt8 → List UInt8 × List UInt8 × σ
  | s, [] => ([], [], s)
  | s, b :: bs => match accept s b with
    | (true, s) =>
        let later := split accept s bs
        (b :: later.1, later.2)
    | (false, s) => ([], b :: bs, s)

/-- Takes the longest run of bytes that a test accepts. -/
def takeRun (c : Scanner) (accept : σ → UInt8 → Bool × σ) (s : σ) : List UInt8 × σ × Scanner :=
  if c.error?.isSome then ([], s, c)
  else
    let found := split accept s c.rest
    (found.1, found.2.2, c.past found.1 found.2.1)

/-- Takes the longest run of bytes of a class. -/
def takeClass (c : Scanner) (p : UInt8 → Bool) : List UInt8 × Scanner :=
  let taken := c.takeRun (fun s b => (p b, s)) ()
  (taken.1, taken.2.2)

/-- The bytes of the source from `start` up to `stop`. A bound past the end counts as the end, and a
start past the stop as the stop. -/
def slice (c : Scanner) (start stop : Nat) : List UInt8 :=
  c.source.extract (min start (min stop c.length)) (min stop c.length)

theorem halted_of_error (c : Scanner) {e : SyntaxError} (h : c.error? = some e) :
    c.halted = true := by
  rw [halted, h]
  rfl

theorem halted_eq_false_iff {c : Scanner} :
    c.halted = false ↔ c.error? = none ∧ ∃ b rest, c.rest = b :: rest := by
  obtain ⟨passed, rest, error?⟩ := c
  cases error? <;> cases rest <;> simp [halted, atEnd]

theorem trim_of_halted {c : Scanner} (h : c.halted = true) : c.trim = ([], c) := by
  obtain ⟨passed, rest, error?⟩ := c
  cases error? with
  | some e => rfl
  | none =>
      cases rest with
      | nil => rfl
      | cons b rest => cases h

@[simp] theorem error?_trimmed (c : Scanner) : c.trimmed.error? = c.error? := by
  unfold trimmed trim
  split <;> rfl

@[simp] theorem error?_acceptHere (c : Scanner) (b : UInt8) :
    (c.acceptHere b).2.error? = c.error? := by
  unfold acceptHere
  split
  · rfl
  · split
    · rfl
    · split <;> rfl

@[simp] theorem error?_accept (c : Scanner) (b : UInt8) : (c.accept b).2.error? = c.error? :=
  (error?_acceptHere c.trimmed b).trans (error?_trimmed c)

theorem rest_trimmed {c : Scanner} (h : c.error? = none) :
    c.trimmed.rest = c.rest.dropWhile Byte.isSpace := by
  simp [trimmed, trim, past, h]

/-! Every operation leaves the source as it is. -/

theorem source_past (c : Scanner) (run rest : List UInt8) (h : c.rest = run ++ rest) :
    (c.past run rest).source = c.source := by
  simp [past, source, h]

@[simp] theorem source_ofBytes (bs : List UInt8) : (ofBytes bs).source = bs := rfl

@[simp] theorem length_source (c : Scanner) : c.source.length = c.length := by
  simp [source, length]

@[simp] theorem source_trimmed (c : Scanner) : c.trimmed.source = c.source := by
  unfold trimmed trim
  split
  · rfl
  · exact source_past _ _ _ (List.takeWhile_append_dropWhile).symm

@[simp] theorem source_fail (c : Scanner) (e : SyntaxError) : (c.fail e).source = c.source := by
  unfold fail
  split <;> rfl

@[simp] theorem source_next? (c : Scanner) : c.next?.2.source = c.source := by
  unfold next?
  split
  · rfl
  · split
    · exact source_trimmed c
    · next h => exact (source_past _ _ _ h).trans (source_trimmed c)

@[simp] theorem source_acceptHere (c : Scanner) (b : UInt8) :
    (c.acceptHere b).2.source = c.source := by
  unfold acceptHere
  split
  · rfl
  · split
    · rfl
    · next h =>
        split
        · next hb => exact source_past _ _ _ (hb ▸ h)
        · rfl

@[simp] theorem source_accept (c : Scanner) (b : UInt8) : (c.accept b).2.source = c.source :=
  (source_acceptHere c.trimmed b).trans (source_trimmed c)

theorem split_append (accept : σ → UInt8 → Bool × σ) (s : σ) (bs : List UInt8) :
    (split accept s bs).1 ++ (split accept s bs).2.1 = bs := by
  induction bs generalizing s with
  | nil => rfl
  | cons b bs ih =>
      rw [split]
      split
      · next s' _ => exact congrArg (b :: ·) (ih s')
      · rfl

@[simp] theorem source_takeRun (c : Scanner) (accept : σ → UInt8 → Bool × σ) (s : σ) :
    (c.takeRun accept s).2.2.source = c.source := by
  unfold takeRun
  split
  · rfl
  · exact source_past _ _ _ (split_append accept s c.rest).symm

end Scanner

end ScanKit
