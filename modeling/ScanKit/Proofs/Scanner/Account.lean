import ScanKit.Proofs.Scanner.Operation
import Mathlib.Data.List.TakeWhile

/-!
# The bytes that a scanner passes

Each operation moves over the spaces that it skips and then over the bytes that it takes, which are
those it answers with (`movedOver_act`).  A run therefore passes the bytes of the source one after
the other, and each of them once.
-/

universe u

namespace ScanKit.Scanner

variable {σ : Type u}

/-! ## Moving over bytes -/

/-- The scanner is the other one after it moved over a run of bytes.  Errors are left open. -/
structure MovedOver (c : Scanner) (run : List UInt8) (c' : Scanner) : Prop where
  rest_eq : c.rest = run ++ c'.rest
  passed_eq : c'.passed = run.reverse ++ c.passed

namespace MovedOver

theorem refl (c : Scanner) : c.MovedOver [] c := ⟨rfl, rfl⟩

theorem trans {c c' c'' : Scanner} {run run' : List UInt8} (h : c.MovedOver run c')
    (h' : c'.MovedOver run' c'') : c.MovedOver (run ++ run') c'' where
  rest_eq := by rw [h.rest_eq, h'.rest_eq, List.append_assoc]
  passed_eq := by rw [h'.passed_eq, h.passed_eq, List.reverse_append, List.append_assoc]

theorem past {c : Scanner} {run rest : List UInt8} (h : c.rest = run ++ rest) :
    c.MovedOver run (c.past run rest) := ⟨h, rfl⟩

theorem fail {c c' : Scanner} {run : List UInt8} (h : c.MovedOver run c') (e : SyntaxError) :
    c.MovedOver run (c'.fail e) := by
  unfold Scanner.fail
  split
  · exact h
  · exact ⟨h.rest_eq, h.passed_eq⟩

theorem pos_eq {c c' : Scanner} {run : List UInt8} (h : c.MovedOver run c') :
    c'.pos = c.pos + run.length := by
  rw [pos, h.passed_eq, List.length_append, List.length_reverse, Nat.add_comm, pos]

theorem source_eq {c c' : Scanner} {run : List UInt8} (h : c.MovedOver run c') :
    c'.source = c.source := by
  simp [source, h.rest_eq, h.passed_eq]

end MovedOver

theorem movedOver_trimmed (c : Scanner) : c.MovedOver c.trim.1 c.trimmed := by
  unfold trimmed trim
  split
  · exact .refl c
  · exact .past List.takeWhile_append_dropWhile.symm

theorem movedOver_next? (c : Scanner) :
    c.MovedOver (c.trim.1 ++ c.next?.1.toList) c.next?.2 := by
  unfold next?
  split
  · next h =>
      rw [trim_of_halted h]
      exact .refl c
  · refine c.movedOver_trimmed.trans ?_
    split
    · exact .refl _
    · next hrest => exact .past hrest

theorem movedOver_acceptHere (c : Scanner) (b : UInt8) :
    c.MovedOver (if (c.acceptHere b).1 then [b] else []) (c.acceptHere b).2 := by
  unfold acceptHere
  split
  · exact .refl c
  · split
    · exact .refl c
    · next hrest =>
        split
        · next hb => exact .past (hb ▸ hrest)
        · exact .refl c

theorem movedOver_accept (c : Scanner) (b : UInt8) :
    c.MovedOver (c.trim.1 ++ if (c.accept b).1 then [b] else []) (c.accept b).2 :=
  c.movedOver_trimmed.trans (c.trimmed.movedOver_acceptHere b)

theorem movedOver_expect (c : Scanner) (b : UInt8) :
    c.MovedOver (c.trim.1 ++ if (c.expect b).1.isOk then [b] else []) (c.expect b).2 := by
  unfold expect
  split
  · next e he =>
      rw [trim_of_halted (c.halted_of_error he)]
      exact .refl c
  · have hmoved := c.movedOver_accept b
    rcases haccept : c.accept b with ⟨_ | _, c'⟩
    · rw [haccept] at hmoved
      exact hmoved.fail _
    · rw [haccept] at hmoved
      exact hmoved

theorem movedOver_takeRun (c : Scanner) (accept : σ → UInt8 → Bool × σ) (s : σ) :
    c.MovedOver (c.takeRun accept s).1 (c.takeRun accept s).2.2 := by
  unfold takeRun
  split
  · exact .refl c
  · exact .past (split_append accept s c.rest).symm

/-! ## What an operation contributes -/

/-- The spaces that an operation moves over before it looks at a byte. -/
def Op.skipped (c : Scanner) : Op σ → List UInt8
  | trimming _ | trim => c.trim.1
  | peek | acceptHere _ | takeRun _ _ | fail _ => []

/-- The bytes that an operation takes, as far as its answer shows.  A byte was taken with `next` if
the scanner is past the spaces after it. -/
def Op.taken (c : Scanner) : Op σ → List UInt8
  | trimming .next => if c.trimmed.pos < c.next.2.pos then [c.next.1] else []
  | trimming (.accept b) => if (c.accept b).1 then [b] else []
  | trimming (.expect b) => if (c.expect b).1.isOk then [b] else []
  | acceptHere b => if (c.acceptHere b).1 then [b] else []
  | takeRun accept s => (c.takeRun accept s).1
  | trimming .peek | trim | peek | fail _ => []

/-- The bytes that the operations of a run skip and take, in order. -/
def contributed : List (Op σ) → Scanner → List UInt8
  | [], _ => []
  | op :: ops, c => op.skipped c ++ op.taken c ++ contributed ops (act op c).2

theorem taken_next (c : Scanner) :
    (Op.trimming .next : Op σ).taken c = c.next?.1.toList := by
  have hpos := c.movedOver_next?.pos_eq
  rw [List.length_append, ← Nat.add_assoc, ← c.movedOver_trimmed.pos_eq] at hpos
  unfold Op.taken next
  rw [hpos]
  cases c.next?.1 <;> simp

theorem movedOver_act (op : Op σ) (c : Scanner) :
    c.MovedOver (op.skipped c ++ op.taken c) (act op c).2 := by
  cases op with
  | trimming t =>
      cases t with
      | peek => exact c.movedOver_trimmed.trans (.refl _)
      | next =>
          rw [taken_next]
          exact c.movedOver_next?
      | accept b => exact c.movedOver_accept b
      | expect b => exact c.movedOver_expect b
  | trim => exact c.movedOver_trimmed.trans (.refl _)
  | peek => exact .refl c
  | acceptHere b => exact c.movedOver_acceptHere b
  | takeRun accept s => exact c.movedOver_takeRun accept s
  | fail e => exact (MovedOver.refl c).fail e

theorem movedOver_run (ops : List (Op σ)) (c : Scanner) :
    c.MovedOver (contributed ops c) (stateAfter act ops c) := by
  induction ops generalizing c with
  | nil => exact .refl c
  | cons op ops ih => exact (movedOver_act op c).trans (ih (act op c).2)

theorem isSpace_of_mem_skipped {c : Scanner} {op : Op σ} {b : UInt8} (h : b ∈ op.skipped c) :
    Byte.isSpace b = true := by
  have hspaces : ∀ b ∈ c.trim.1, Byte.isSpace b = true := by
    unfold trim
    split
    · exact nofun
    · exact fun b hb => List.mem_takeWhile_imp hb
  cases op with
  | trimming t | trim => exact hspaces b h
  | peek | acceptHere b | takeRun accept s | fail e => cases h

/-! ## The longest run -/

/-- The test accepts bytes one after the other, and is left in a state. -/
inductive Accepts (accept : σ → UInt8 → Bool × σ) : σ → List UInt8 → σ → Prop where
  | nil {s : σ} : Accepts accept s [] s
  | cons {s s' s'' : σ} {b : UInt8} {bs : List UInt8} (hb : accept s b = (true, s'))
      (hrest : Accepts accept s' bs s'') : Accepts accept s (b :: bs) s''

/-- A run is the longest at the start of some bytes that a test accepts.  What is left is nothing, or
begins with a byte that the test was asked about and refused. -/
def TakesLongest (accept : σ → UInt8 → Bool × σ) (s : σ) (bs run rest : List UInt8) (s' : σ) :
    Prop :=
  run ++ rest = bs ∧ ∃ last, Accepts accept s run last ∧
    (rest = [] ∧ s' = last ∨ ∃ b later, rest = b :: later ∧ accept last b = (false, s'))

/-- The test with the bytes that it was asked about, in order. -/
def recorded (accept : σ → UInt8 → Bool × σ) : List UInt8 × σ → UInt8 → Bool × List UInt8 × σ
  | (asked, s), b => ((accept s b).1, asked ++ [b], (accept s b).2)

theorem takesLongest_split (accept : σ → UInt8 → Bool × σ) (s : σ) (bs : List UInt8) :
    TakesLongest accept s bs (split accept s bs).1 (split accept s bs).2.1
      (split accept s bs).2.2 := by
  refine ⟨split_append accept s bs, ?_⟩
  induction bs generalizing s with
  | nil => exact ⟨s, .nil, .inl ⟨rfl, rfl⟩⟩
  | cons b bs ih =>
      rw [split]
      rcases hb : accept s b with ⟨_ | _, s'⟩
      · exact ⟨s, .nil, .inr ⟨b, bs, rfl, hb⟩⟩
      · obtain ⟨last, haccepts, hleft⟩ := ih s'
        exact ⟨last, .cons hb haccepts, hleft⟩

/-- The test is asked about the bytes of the run and then about the one after it. -/
theorem split_recorded (accept : σ → UInt8 → Bool × σ) (asked : List UInt8) (s : σ)
    (bs : List UInt8) :
    (split (recorded accept) (asked, s) bs).2.2.1 =
      asked ++ (split accept s bs).1 ++ (split accept s bs).2.1.take 1 := by
  induction bs generalizing asked s with
  | nil => simp [split]
  | cons b bs ih =>
      rw [split, split, recorded]
      rcases hb : accept s b with ⟨_ | _, s'⟩
      · simp
      · simp [ih]

/-! ## Runs -/

theorem isSpace_of_mem_head?_trimmed {c : Scanner} (h : c.error? = none) {b : UInt8}
    (hb : b ∈ c.trimmed.rest.head?) : Byte.isSpace b = false := by
  have hstop := List.head?_dropWhile_not Byte.isSpace c.rest
  rw [← rest_trimmed h, Option.mem_def.1 hb] at hstop
  exact hstop

/-- A run accounts for each byte of the source once.  The bytes that its operations skipped and took
come first, in order, and then those that are left; the position is the number of the former.  No
operation moves back, and what it skips is spaces.  Without an error, spaces are skipped up to
another byte or the end, and a run of bytes is taken that is the longest its test accepts, where the
test is asked about these bytes and the next one, each of them once. -/
theorem accounts_for_source (bs : List UInt8) (ops : List (Op σ)) {c : Scanner}
    (hrun : stateAfter act ops (ofBytes bs) = c) :
    contributed ops (ofBytes bs) ++ c.rest = bs ∧
      c.pos = (contributed ops (ofBytes bs)).length ∧ c.pos ≤ c.length ∧ c.length = bs.length ∧
      (∀ op : Op σ, c.pos ≤ (act op c).2.pos ∧ ∀ b ∈ op.skipped c, Byte.isSpace b = true) ∧
      (c.error? = none → (∀ b ∈ c.trimmed.rest.head?, Byte.isSpace b = false) ∧
        ∀ (accept : σ → UInt8 → Bool × σ) (s : σ),
          TakesLongest accept s c.rest (c.takeRun accept s).1 (c.takeRun accept s).2.2.rest
              (c.takeRun accept s).2.1 ∧
            (c.takeRun (recorded accept) ([], s)).2.1.1 =
              (c.takeRun accept s).1 ++ (c.takeRun accept s).2.2.rest.take 1) := by
  have hmoved := movedOver_run ops (ofBytes bs)
  rw [hrun] at hmoved
  have hsource : c.source = bs := hmoved.source_eq
  refine ⟨hmoved.rest_eq.symm, ?_, Nat.le_add_right .., ?_, ?_, ?_⟩
  · rw [hmoved.pos_eq]
    exact Nat.zero_add _
  · rw [← length_source, hsource]
  · intro op
    refine ⟨?_, fun b hb => isSpace_of_mem_skipped hb⟩
    rw [(movedOver_act op c).pos_eq]
    exact Nat.le_add_right ..
  · intro h
    refine ⟨fun b hb => isSpace_of_mem_head?_trimmed h hb, ?_⟩
    intro accept s
    have htakes : ∀ {τ : Type u} (test : τ → UInt8 → Bool × τ) (t : τ), c.takeRun test t =
        ((split test t c.rest).1, (split test t c.rest).2.2,
          c.past (split test t c.rest).1 (split test t c.rest).2.1) := by
      intro τ test t
      simp [takeRun, h]
    rw [htakes, htakes]
    exact ⟨takesLongest_split accept s c.rest, split_recorded accept [] s c.rest⟩

/-- Accepts as many bytes as its state says, whichever they are. -/
def firstFew : Nat → UInt8 → Bool × Nat
  | 0, _ => (false, 0)
  | n + 1, _ => (true, n)

/-- Operations that skip spaces, take bytes with a test that counts, and find another byte than
expected behind a space. -/
def bracketMissing : List (Op Nat) :=
  [.trimming .next, .trim, .takeRun firstFew 2, .acceptHere 0x3B, .trimming (.expect 0x29),
    .trimming .next]

/-- The operations account for all bytes up to the one that no bracket was found at. -/
theorem accounts_for_source_bracketMissing :
    stateAfter act bracketMissing (ofBytes [0x61, 0x20, 0x31, 0x32, 0x3B, 0x20, 0x62]) =
        ⟨[0x20, 0x3B, 0x32, 0x31, 0x20, 0x61], [0x62], some (.unexpected 6 0x29 0x62)⟩ ∧
      contributed bracketMissing (ofBytes [0x61, 0x20, 0x31, 0x32, 0x3B, 0x20, 0x62]) ++ [0x62] =
        [0x61, 0x20, 0x31, 0x32, 0x3B, 0x20, 0x62] := by
  have hrun : stateAfter act bracketMissing
      (ofBytes [0x61, 0x20, 0x31, 0x32, 0x3B, 0x20, 0x62]) =
        ⟨[0x20, 0x3B, 0x32, 0x31, 0x20, 0x61], [0x62], some (.unexpected 6 0x29 0x62)⟩ := rfl
  exact ⟨hrun, (accounts_for_source _ bracketMissing hrun).1⟩

end ScanKit.Scanner
