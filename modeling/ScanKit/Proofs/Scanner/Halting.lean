import ScanKit.Proofs.Scanner.Operation

/-!
# Halted scanners

A scanner is halted by an error or by the end of its bytes.  `Op.idle` is what each operation
answers then, and `Op.raised` the error that it would record.  An operation on a halted scanner does
no more than that (`act_of_halted`), so a halted scanner stays where it is and keeps its first error.
-/

universe u

namespace ScanKit.Scanner

variable {σ : Type u}

/-- What an operation answers on a halted scanner.  Where there is no byte to answer, 0 stands for
it. -/
def Op.idle (c : Scanner) : Op σ → Answer
  | trimming .peek | peek => .byte (c.rest.headD 0)
  | trimming .next => .byte 0
  | trimming (.accept _) | acceptHere _ => .flag false
  | trimming (.expect b) => .result (.error (c.error?.getD (.unexpectedEnd c.pos b)))
  | trim => .count 0
  | takeRun _ _ => .run []
  | fail _ => .done

/-- The error that an operation records at the end, at a position, if there was none before. -/
def Op.raised (pos : Nat) : Op σ → Option SyntaxError
  | trimming (.expect b) => some (.unexpectedEnd pos b)
  | fail e => some e
  | trimming .peek | trimming .next | trimming (.accept _) | trim | peek | acceptHere _
  | takeRun _ _ => none

/-- An operation on a halted scanner records an error where there is none, and does nothing else. -/
theorem act_of_halted {c : Scanner} (h : c.halted = true) (op : Op σ) :
    act op c = (op.idle c, { c with error? := c.error?.or (op.raised c.pos) }) := by
  obtain ⟨passed, rest, error?⟩ := c
  cases error? with
  | some e => rcases op with (_ | _ | _ | _) | _ | _ | _ | _ | _ <;> rfl
  | none =>
      cases rest with
      | nil => rcases op with (_ | _ | _ | _) | _ | _ | _ | _ | _ <;> rfl
      | cons b rest => cases h

/-- A halted scanner is halted with another error in place of none, too. -/
theorem halted_or {c : Scanner} (h : c.halted = true) (e? : Option SyntaxError) :
    { c with error? := c.error?.or e? : Scanner }.halted = true := by
  obtain ⟨passed, rest, error?⟩ := c
  cases error? with
  | some e => rfl
  | none =>
      have hend : rest.isEmpty = true := h
      cases e? with
      | some e => rfl
      | none => exact hend

/-- A run of a halted scanner records the first error that there is to record. -/
theorem run_of_halted {c : Scanner} (h : c.halted = true) (ops : List (Op σ)) :
    stateAfter act ops c = { c with error? := c.error?.or (ops.findSome? (Op.raised c.pos)) } := by
  induction ops generalizing c with
  | nil =>
      cases c
      simp [stateAfter]
  | cons op ops ih =>
      rw [stateAfter, act_of_halted h op, ih (halted_or h _), List.findSome?_cons]
      cases hraised : op.raised c.pos <;> cases c.error? <;> rfl

/-- Halting is final.  A halted scanner is halted after whatever else is done with it, and every
operation then answers as on a halted scanner.  After an error the whole scanner stays as it is, so
the error is the one that is answered from then on.  At the end without an error nothing changes but
that the first error to record is recorded. -/
theorem halting_is_final (c : Scanner) (ops : List (Op σ)) :
    (c.halted = true → (stateAfter act ops c).halted = true ∧
      ∀ op : Op σ, (act op (stateAfter act ops c)).1 = op.idle (stateAfter act ops c)) ∧
    (∀ e, c.error? = some e → stateAfter act ops c = c ∧
      ∀ b, ((stateAfter act ops c).expect b).1 = .error e) ∧
    (c.error? = none → c.atEnd = true →
      stateAfter act ops c = { c with error? := ops.findSome? (Op.raised c.pos) }) := by
  refine ⟨?_, ?_, ?_⟩
  · intro h
    have hlater : (stateAfter act ops c).halted = true := by
      rw [run_of_halted h]
      exact halted_or h _
    refine ⟨hlater, ?_⟩
    intro op
    rw [act_of_halted hlater]
  · intro e he
    have hsame : stateAfter act ops c = c := by
      rw [run_of_halted (c.halted_of_error he), he, Option.some_or, ← he]
    refine ⟨hsame, ?_⟩
    intro b
    rw [hsame, expect, he]
  · intro hnone hend
    have h : c.halted = true := by
      rw [halted, hend, Bool.or_true]
    rw [run_of_halted h, hnone, Option.none_or]

/-- A scanner that was given `a c` and found the `c` where a `b` was expected. -/
def mismatched : Scanner :=
  stateAfter act ([.trimming .next, .trimming (.expect 0x62)] : List (Op Unit))
    (ofBytes [0x61, 0x20, 0x63])

/-- A scanner that took what there was to take from an `a` and a space. -/
def exhausted : Scanner :=
  stateAfter act ([.trimming .next, .trim] : List (Op Unit)) (ofBytes [0x61, 0x20])

/-- Operations two of which have an error to record. -/
def lateErrors : List (Op Unit) :=
  [.acceptHere 0, .trimming (.expect 0x63), .fail (.rejected 0 "late"), .trimming .next]

/-- After the mismatch nothing changes, and at the end the first of the errors is recorded. -/
theorem halting_is_final_lateErrors :
    mismatched.error? = some (.unexpected 2 0x62 0x63) ∧
      stateAfter act lateErrors mismatched = mismatched ∧
      exhausted.error? = none ∧ exhausted.atEnd = true ∧
      stateAfter act lateErrors exhausted =
        { exhausted with error? := some (.unexpectedEnd 2 0x63) } ∧
      exhausted.halted = true ∧ (stateAfter act lateErrors exhausted).halted = true := by
  have herror : mismatched.error? = some (.unexpected 2 0x62 0x63) := rfl
  have hnone : exhausted.error? = none := rfl
  have hend : exhausted.atEnd = true := rfl
  have hhalted : exhausted.halted = true := rfl
  obtain ⟨-, hafter, -⟩ := halting_is_final mismatched lateErrors
  obtain ⟨hstays, -, hfirst⟩ := halting_is_final exhausted lateErrors
  exact ⟨herror, (hafter _ herror).1, hnone, hend, hfirst hnone hend, hhalted, (hstays hhalted).1⟩

end ScanKit.Scanner
