import ScanKit.Proofs.Scanner.Account
import ScanKit.Proofs.Scanner.Halting

/-!
# Scanners as queues

The operations that move over spaces first see a queue: the bytes of the source that are no spaces,
each with its position.  `Queue.act` says what they do to it, and a scanner that only they are asked
of does the same (`Shows.act`).  Spaces show in nothing but the positions that errors name.
-/

namespace ScanKit.Scanner

/-! ## The queue -/

/-- The bytes that are no spaces, with their positions counted from a start. -/
def nonSpaces (bs : List UInt8) (start : Nat) : List (UInt8 × Nat) :=
  (bs.zipIdx start).filter fun x => !Byte.isSpace x.1

/-- The bytes to be seen, the length of the source, and the error if there was one. -/
structure Queue where
  items : List (UInt8 × Nat)
  length : Nat
  error? : Option SyntaxError

namespace Queue

def ofBytes (bs : List UInt8) : Queue := ⟨nonSpaces bs 0, bs.length, none⟩

/-- The first byte, or 0 where there is none. -/
def front (q : Queue) : UInt8 := match q.items with
  | [] => 0
  | (b, _) :: _ => b

/-- Answers with an error and records it. -/
def refuse (q : Queue) (e : SyntaxError) : Answer × Queue :=
  (.result (.error e), { q with error? := some e })

/-- What an operation does to a queue.  Only without an error is a byte taken. -/
def act (t : Trimming) (q : Queue) : Answer × Queue := match t, q.error?, q.items with
  | .peek, _, _ => (.byte q.front, q)
  | .next, none, (b, _) :: items => (.byte b, { q with items })
  | .next, _, _ => (.byte 0, q)
  | .accept b, none, (found, _) :: items =>
      if found = b then (.flag true, { q with items }) else (.flag false, q)
  | .accept _, _, _ => (.flag false, q)
  | .expect _, some e, _ => (.result (.error e), q)
  | .expect b, none, [] => q.refuse (.unexpectedEnd q.length b)
  | .expect b, none, (found, pos) :: items =>
      if found = b then (.result (.ok ()), { q with items })
      else q.refuse (.unexpected pos b found)

end Queue

theorem nonSpaces_cons {b : UInt8} (h : Byte.isSpace b = false) (bs : List UInt8) (start : Nat) :
    nonSpaces (b :: bs) start = (b, start) :: nonSpaces bs (start + 1) := by
  simp [nonSpaces, List.zipIdx_cons, h]

/-- Spaces at the front are not seen. -/
theorem nonSpaces_dropWhile (bs : List UInt8) (start : Nat) :
    nonSpaces (bs.dropWhile Byte.isSpace) (start + (bs.takeWhile Byte.isSpace).length) =
      nonSpaces bs start := by
  induction bs generalizing start with
  | nil => rfl
  | cons b bs ih =>
      cases hb : Byte.isSpace b with
      | false => simp [hb]
      | true =>
          have hskip : nonSpaces (b :: bs) start = nonSpaces bs (start + 1) := by
            simp [nonSpaces, List.zipIdx_cons, hb]
          rw [hskip, ← ih, List.dropWhile_cons_of_pos hb, List.takeWhile_cons_of_pos hb,
            List.length_cons, Nat.add_right_comm, Nat.add_assoc]

/-! ## What a scanner shows -/

/-- The queue that a scanner is to operations that move over spaces first. -/
def queue (c : Scanner) : Queue := ⟨nonSpaces c.rest c.pos, c.length, c.error?⟩

/-- The scanner is not before a space. -/
def AtByte (c : Scanner) : Prop := ∀ b ∈ c.rest.head?, Byte.isSpace b = false

theorem front_queue {c : Scanner} (h : c.AtByte) : c.queue.front = c.peek := by
  unfold queue Queue.front peek
  cases hrest : c.rest with
  | nil => rfl
  | cons b rest =>
      have hb : Byte.isSpace b = false := h b (by rw [hrest]; rfl)
      rw [nonSpaces_cons hb]
      rfl

theorem length_eq_of_source_eq {c c' : Scanner} (h : c.source = c'.source) :
    c.length = c'.length := by
  rw [← length_source, h, length_source]

/-- Moving over spaces changes nothing in the queue. -/
theorem queue_trimmed (c : Scanner) : c.trimmed.queue = c.queue := by
  cases herror : c.error? with
  | some e => rw [trimmed, trim_of_halted (c.halted_of_error herror)]
  | none =>
      have hlength := length_eq_of_source_eq c.source_trimmed
      have hpos := c.movedOver_trimmed.pos_eq
      have hspaces : c.trim.1 = c.rest.takeWhile Byte.isSpace := by simp [trim, herror]
      rw [queue, hlength, hpos, hspaces, rest_trimmed herror, nonSpaces_dropWhile, error?_trimmed,
        queue]

/-! ## Before a byte -/

theorem trimmed_of_atByte {c : Scanner} (h : c.AtByte) : c.trimmed = c := by
  obtain ⟨passed, rest, error?⟩ := c
  cases error? with
  | some e => rfl
  | none =>
      cases rest with
      | nil => rfl
      | cons b rest =>
          have hb : Byte.isSpace b = false := h b rfl
          simp [trimmed, trim, past, hb]

section AtFirst

variable {c : Scanner} {b : UInt8} {rest : List UInt8}

theorem atByte_of_cons (hrest : c.rest = b :: rest) (hb : Byte.isSpace b = false) : c.AtByte := by
  intro found hfound
  rw [hrest] at hfound
  cases hfound
  exact hb

/-- The byte before a scanner is the first of its queue. -/
theorem queue_of_cons (herror : c.error? = none) (hrest : c.rest = b :: rest)
    (hb : Byte.isSpace b = false) :
    c.queue = ⟨(b, c.pos) :: nonSpaces rest (c.pos + 1), c.length, none⟩ := by
  rw [queue, herror, hrest, nonSpaces_cons hb]

theorem queue_past (herror : c.error? = none) (hrest : c.rest = b :: rest) :
    (c.past [b] rest).queue = ⟨nonSpaces rest (c.pos + 1), c.length, none⟩ := by
  rw [← length_eq_of_source_eq (c.source_past [b] rest hrest), ← herror]
  rfl

theorem next_of_cons (herror : c.error? = none) (hrest : c.rest = b :: rest)
    (hb : Byte.isSpace b = false) : c.next = (b, c.past [b] rest) := by
  have hmore : c.halted = false := halted_eq_false_iff.2 ⟨herror, b, rest, hrest⟩
  simp [next, next?, hmore, trimmed_of_atByte (atByte_of_cons hrest hb), hrest]

theorem accept_of_cons (herror : c.error? = none) (hrest : c.rest = b :: rest)
    (hb : Byte.isSpace b = false) (x : UInt8) :
    c.accept x = if b = x then (true, c.past [x] rest) else (false, c) := by
  rw [accept, trimmed_of_atByte (atByte_of_cons hrest hb)]
  simp [acceptHere, herror, hrest]

theorem expect_of_eq (herror : c.error? = none) (hrest : c.rest = b :: rest)
    (hb : Byte.isSpace b = false) : c.expect b = (.ok (), c.past [b] rest) := by
  simp [expect, herror, accept_of_cons herror hrest hb]

theorem expect_of_ne (herror : c.error? = none) (hrest : c.rest = b :: rest)
    (hb : Byte.isSpace b = false) {x : UInt8} (hne : b ≠ x) :
    c.expect x =
      (.error (.unexpected c.pos x b), { c with error? := some (.unexpected c.pos x b) }) := by
  simp [expect, herror, accept_of_cons herror hrest hb, hne, mismatch, hrest, fail]

end AtFirst

/-! ## One operation -/

theorem atByte_trimmed {c : Scanner} (h : c.error? = none) : c.trimmed.AtByte :=
  fun _ hb => isSpace_of_mem_head?_trimmed h hb

/-- An operation makes no difference between a scanner before spaces and one behind them. -/
theorem act_trimmed (t : Trimming) (c : Scanner) : t.act c.trimmed = t.act c := by
  cases hhalted : c.halted with
  | true => rw [trimmed, trim_of_halted hhalted]
  | false =>
      obtain ⟨herror, -⟩ := halted_eq_false_iff.1 hhalted
      have hagain : c.trimmed.trimmed = c.trimmed := trimmed_of_atByte (atByte_trimmed herror)
      cases t with
      | peek => simp only [Trimming.act, peekTrimmed, hagain]
      | accept b => simp only [Trimming.act, accept, hagain]
      | expect b => simp only [Trimming.act, expect, error?_trimmed, herror, accept, hagain]
      | next =>
          have hnext : c.trimmed.next? = c.next? := by
            cases hrest : c.trimmed.rest with
            | nil =>
                have hend : c.trimmed.halted = true := by simp [halted, atEnd, hrest]
                simp [next?, hend, hhalted, hrest]
            | cons b rest =>
                have hmore : c.trimmed.halted = false := by simp [halted, atEnd, hrest, herror]
                simp [next?, hmore, hhalted, hagain]
          simp only [Trimming.act, next, hnext]

/-- On a halted scanner the operations do nothing to the queue but record an error at the end. -/
theorem act_queue_of_halted (t : Trimming) {c : Scanner} (hhalted : c.halted = true)
    (h : c.AtByte) : Queue.act t c.queue = ((t.act c).1, (t.act c).2.queue) := by
  obtain ⟨passed, rest, error?⟩ := c
  cases error? with
  | some e =>
      cases t with
      | peek => exact Prod.ext (congrArg Answer.byte (front_queue h)) rfl
      | next | accept b | expect b => rfl
  | none =>
      cases rest with
      | nil => cases t <;> rfl
      | cons b rest => cases hhalted

/-- Before a byte that is no space the operations do to the queue what they do to the scanner.  Where
one of them finds another byte than expected, the scanner stays before that byte. -/
theorem act_queue_of_cons (t : Trimming) {c : Scanner} (herror : c.error? = none) {b : UInt8}
    {rest : List UInt8} (hrest : c.rest = b :: rest) (hb : Byte.isSpace b = false) :
    Queue.act t c.queue = ((t.act c).1, (t.act c).2.queue) ∧
      ((t.act c).2.error? ≠ none → (t.act c).2.AtByte) := by
  have hat := atByte_of_cons hrest hb
  have hqueue := queue_of_cons herror hrest hb
  have hpast := queue_past herror hrest
  have hnone : ∀ {p : Prop}, (c.past [b] rest).error? ≠ none → p := fun h => absurd herror h
  cases t with
  | peek =>
      rw [Trimming.act, peekTrimmed, trimmed_of_atByte hat, ← front_queue hat]
      exact ⟨rfl, fun _ => hat⟩
  | next =>
      rw [Trimming.act, next_of_cons herror hrest hb, hqueue, hpast]
      exact ⟨rfl, hnone⟩
  | accept x =>
      rw [Trimming.act, accept_of_cons herror hrest hb]
      rcases eq_or_ne b x with rfl | hne
      · rw [if_pos rfl, hqueue, hpast]
        exact ⟨if_pos rfl, hnone⟩
      · rw [if_neg hne, hqueue]
        exact ⟨if_neg hne, fun _ => hat⟩
  | expect x =>
      rcases eq_or_ne b x with rfl | hne
      · rw [Trimming.act, expect_of_eq herror hrest hb, hqueue, hpast]
        exact ⟨if_pos rfl, hnone⟩
      · have hrefused : { c with error? := some (.unexpected c.pos x b) : Scanner }.queue =
            { c.queue with error? := some (.unexpected c.pos x b) } := rfl
        rw [Trimming.act, expect_of_ne herror hrest hb hne, hrefused, hqueue]
        exact ⟨if_neg hne, fun _ => hat⟩

/-! ## Runs -/

/-- The scanner shows a queue, and if it has an error it is not before a space. -/
structure Shows (c : Scanner) (q : Queue) : Prop where
  queue_eq : c.queue = q
  atByte : c.error? ≠ none → c.AtByte

theorem shows_ofBytes (bs : List UInt8) : (ofBytes bs).Shows (.ofBytes bs) where
  queue_eq := by simp [queue, Queue.ofBytes, ofBytes, pos, length]
  atByte h := absurd rfl h

/-- An operation does to a scanner what it does to the queue that the scanner shows. -/
theorem Shows.act {c : Scanner} {q : Queue} (h : c.Shows q) (t : Trimming) :
    (t.act c).1 = (Queue.act t q).1 ∧ (t.act c).2.Shows (Queue.act t q).2 := by
  obtain ⟨rfl, hat⟩ := h
  -- without an error the spaces before the scanner may be skipped first
  obtain ⟨d, hact, hqueue, hd⟩ : ∃ d, t.act d = t.act c ∧ d.queue = c.queue ∧ d.AtByte := by
    cases herror : c.error? with
    | some e => exact ⟨c, rfl, rfl, hat (by simp [herror])⟩
    | none => exact ⟨c.trimmed, act_trimmed t c, c.queue_trimmed, atByte_trimmed herror⟩
  rw [← hact, ← hqueue]
  cases hhalted : d.halted with
  | true =>
      have hstep := act_queue_of_halted t hhalted hd
      have hidle : t.act d = _ := act_of_halted hhalted (.trimming t : Op Unit)
      rw [hstep]
      refine ⟨rfl, rfl, fun _ => ?_⟩
      rw [hidle]
      exact hd
  | false =>
      obtain ⟨herror, b, rest, hrest⟩ := halted_eq_false_iff.1 hhalted
      obtain ⟨hstep, hlater⟩ := act_queue_of_cons t herror hrest (hd b (by rw [hrest]; rfl))
      rw [hstep]
      exact ⟨rfl, rfl, hlater⟩

end ScanKit.Scanner

/-! ## Sources that differ in spaces -/

namespace ScanKit

/-- The error at another position. -/
def SyntaxError.placedAt (pos : Nat) : SyntaxError → SyntaxError
  | unexpected _ expected found => unexpected pos expected found
  | unexpectedEnd _ expected => unexpectedEnd pos expected
  | rejected _ reason => rejected pos reason

namespace Scanner

/-- The answer with its error, if it is one, at another position. -/
def Answer.placedAt (pos : Nat) : Answer → Answer
  | result (.error e) => result (.error (e.placedAt pos))
  | answer => answer

namespace Queue

/-- The queue with one position for everything in it. -/
def placedAt (pos : Nat) (q : Queue) : Queue :=
  ⟨q.items.map fun x => (x.1, pos), pos, q.error?.map (·.placedAt pos)⟩

/-- Positions show in errors alone. -/
theorem act_placedAt (pos : Nat) (t : Trimming) (q : Queue) :
    Queue.act t (q.placedAt pos) =
      ((Queue.act t q).1.placedAt pos, (Queue.act t q).2.placedAt pos) := by
  obtain ⟨items, length, error?⟩ := q
  cases error? with
  | some e =>
      cases t with
      | peek => cases items <;> rfl
      | next | accept x | expect x => rfl
  | none =>
      cases items with
      | nil => cases t <;> rfl
      | cons item items =>
          cases t with
          | peek | next => rfl
          | accept x | expect x =>
              by_cases hx : item.1 = x <;>
                simp [Queue.act, placedAt, refuse, hx, Answer.placedAt, SyntaxError.placedAt]

theorem answersOf_placedAt (pos : Nat) (ts : List Trimming) (q : Queue) :
    answersOf Queue.act ts (q.placedAt pos) =
      (answersOf Queue.act ts q).map (·.placedAt pos) := by
  induction ts generalizing q with
  | nil => rfl
  | cons t ts ih => simp only [answersOf, act_placedAt, ih, List.map_cons]

theorem map_fst_nonSpaces (bs : List UInt8) (start : Nat) :
    (nonSpaces bs start).map Prod.fst = bs.filter fun b => !Byte.isSpace b := by
  calc (nonSpaces bs start).map Prod.fst
      = ((bs.zipIdx start).map Prod.fst).filter fun b => !Byte.isSpace b := by
          rw [List.filter_map]
          rfl
    _ = bs.filter fun b => !Byte.isSpace b := by rw [List.zipIdx_map_fst]

theorem placedAt_ofBytes {bs bs' : List UInt8}
    (h : bs.filter (fun b => !Byte.isSpace b) = bs'.filter (fun b => !Byte.isSpace b))
    (pos : Nat) : (ofBytes bs).placedAt pos = (ofBytes bs').placedAt pos := by
  have hitems : ∀ bs, (nonSpaces bs 0).map (fun x => (x.1, pos)) =
      (bs.filter fun b => !Byte.isSpace b).map fun b => (b, pos) := by
    intro bs
    rw [← map_fst_nonSpaces bs 0, List.map_map]
    rfl
  simp only [placedAt, ofBytes, hitems, h]

end Queue

/-- Operations that move over spaces first see a source as the queue of its bytes that are no spaces,
with their positions: a run of them answers what it answers on the queue, and leaves the scanner with
what it leaves of the queue.  So for two sources with the same such bytes the answers of a run differ
at most in the positions that its errors name. -/
theorem trimming_sees_queue (bs : List UInt8) (ts : List Trimming) :
    answersOf Trimming.act ts (ofBytes bs) = answersOf Queue.act ts (.ofBytes bs) ∧
      (stateAfter Trimming.act ts (ofBytes bs)).queue = stateAfter Queue.act ts (.ofBytes bs) ∧
      ∀ (bs' : List UInt8) (pos : Nat),
        bs.filter (fun b => !Byte.isSpace b) = bs'.filter (fun b => !Byte.isSpace b) →
          (answersOf Trimming.act ts (ofBytes bs)).map (·.placedAt pos) =
            (answersOf Trimming.act ts (ofBytes bs')).map (·.placedAt pos) := by
  have hrun : ∀ bs, answersOf Trimming.act ts (ofBytes bs) = answersOf Queue.act ts (.ofBytes bs) ∧
      (stateAfter Trimming.act ts (ofBytes bs)).Shows (stateAfter Queue.act ts (.ofBytes bs)) :=
    fun bs => run_related Shows (fun t _ _ h => h.act t) ts (shows_ofBytes bs)
  refine ⟨(hrun bs).1, (hrun bs).2.queue_eq, ?_⟩
  intro bs' pos h
  rw [(hrun bs).1, (hrun bs').1, ← Queue.answersOf_placedAt, ← Queue.answersOf_placedAt,
    Queue.placedAt_ofBytes h]

/-- A search for two letters and a closing bracket among spaces and a zero byte. -/
def zeroRefused : List Trimming :=
  [.next, .accept 0x62, .peek, .accept 0, .expect 0x29, .next, .peek]

/-- The zero byte is taken like any other.  The `b` that stands where the bracket is expected is
named in the error with its position, and the same bytes among other spaces are answered alike. -/
theorem trimming_sees_queue_zeroRefused :
    answersOf Trimming.act zeroRefused (ofBytes [0x20, 0x61, 0x00, 0x0A, 0x62, 0x20]) =
        [.byte 0x61, .flag false, .byte 0, .flag true,
          .result (.error (.unexpected 4 0x29 0x62)), .byte 0, .byte 0x62] ∧
      (answersOf Trimming.act zeroRefused (ofBytes [0x20, 0x61, 0x00, 0x0A, 0x62, 0x20])).map
          (·.placedAt 0) =
        (answersOf Trimming.act zeroRefused (ofBytes [0x61, 0x00, 0x62])).map (·.placedAt 0) := by
  have hbytes : ([0x20, 0x61, 0x00, 0x0A, 0x62, 0x20] : List UInt8).filter
        (fun b => !Byte.isSpace b) =
      ([0x61, 0x00, 0x62] : List UInt8).filter fun b => !Byte.isSpace b := by decide
  obtain ⟨hanswers, -, halike⟩ :=
    trimming_sees_queue [0x20, 0x61, 0x00, 0x0A, 0x62, 0x20] zeroRefused
  exact ⟨hanswers.trans rfl, halike _ 0 hbytes⟩

end Scanner

end ScanKit
