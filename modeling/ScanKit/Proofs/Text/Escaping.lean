import ScanKit.Scanner.Basic
import ScanKit.Proofs.ByteString.Order

/-!
# Texts with escaped bytes

A byte that is written in printable ASCII can be read back, whatever stands behind it
(`readEscaped_append`).  So no written form starts another, and what is put together from written
bytes, quotes and decimal numbers comes apart again in one way only.
-/

namespace ScanKit

namespace Byte

/-! ## The forms of a byte -/

/-- The forms in which a byte is written. -/
inductive Form : UInt8 → List Char → Prop where
  | tab : Form 0x09 ['\\', 't']
  | lineFeed : Form 0x0A ['\\', 'n']
  | carriageReturn : Form 0x0D ['\\', 'r']
  | doubleQuote : Form 0x22 ['\\', '"']
  | singleQuote : Form 0x27 ['\\', '\'']
  | backslash : Form 0x5C ['\\', '\\']
  | /-- A printable byte is a character of its own. -/
    printable {b : UInt8} {c : Char} (hchar : c.toNat = b.toNat) (hlow : 0x20 ≤ b) (hhigh : b ≤ 0x7E)
      (hdouble : b ≠ 0x22) (hsingle : b ≠ 0x27) (hbackslash : b ≠ 0x5C) : Form b [c]
  | /-- All others are given by their value. -/
    numeric (b : UInt8) :
      Form b ['\\', 'x', Nat.digitChar (b.toNat / 16), Nat.digitChar (b.toNat % 16)]

theorem toNat_ofNat_toNat (b : UInt8) : (Char.ofNat b.toNat).toNat = b.toNat := by
  have hvalid : b.toNat.isValidChar := .inl (Nat.lt_trans b.toNat_lt (by decide))
  rw [Char.ofNat, dif_pos hvalid]
  rfl

theorem form_escaped (b : UInt8) : Form b (escaped b) := by
  unfold escaped
  split
  · next h => exact h ▸ .tab
  split
  · next h => exact h ▸ .lineFeed
  split
  · next h => exact h ▸ .carriageReturn
  split
  · next h =>
      rw [Bool.or_eq_true, Bool.or_eq_true, decide_eq_true_eq, decide_eq_true_eq,
        decide_eq_true_eq] at h
      rcases h with (rfl | rfl) | rfl
      · exact .doubleQuote
      · exact .singleQuote
      · exact .backslash
  · next hquote =>
      split
      · next h =>
          rw [Bool.and_eq_true, decide_eq_true_eq, decide_eq_true_eq] at h
          simp only [Bool.or_eq_true, decide_eq_true_eq, not_or] at hquote
          exact .printable (toNat_ofNat_toNat b) h.1 h.2 hquote.1.1 hquote.1.2 hquote.2
      · exact .numeric b

/-! ## Reading written bytes back -/

/-- The value of a digit to base sixteen. -/
def hexValue (c : Char) : Nat := if c.isDigit then c.toNat - 0x30 else c.toNat - 0x57

/-- The byte that is written behind a backslash, and what stands behind it. -/
def readEscape : List Char → Option (UInt8 × List Char)
  | 't' :: rest => some (0x09, rest)
  | 'n' :: rest => some (0x0A, rest)
  | 'r' :: rest => some (0x0D, rest)
  | 'x' :: high :: low :: rest => some (UInt8.ofNat (hexValue high * 16 + hexValue low), rest)
  | c :: rest => some (c.toUInt8, rest)
  | [] => none

/-- The byte that is written first, and what stands behind it. -/
def readEscaped : List Char → Option (UInt8 × List Char)
  | c :: rest => if c = '\\' then readEscape rest else some (c.toUInt8, rest)
  | [] => none

theorem hexValue_digitChar : ∀ n < 16, hexValue (Nat.digitChar n) = n := by decide

/-- A byte is read back, and what stands behind it is left as it is. -/
theorem readEscaped_append (b : UInt8) (rest : List Char) :
    readEscaped (escaped b ++ rest) = some (b, rest) := by
  have hform := form_escaped b
  generalize escaped b = cs at hform
  cases hform with
  | tab | lineFeed | carriageReturn | doubleQuote | singleQuote | backslash => rfl
  | @printable _ c hchar _ _ _ _ hbackslash =>
      have hplain : c ≠ '\\' := by
        rintro rfl
        exact hbackslash (UInt8.toNat_inj.1 hchar.symm)
      have hbyte : c.toUInt8 = b := UInt8.toNat_inj.1 <| by
        show c.toNat % 256 = b.toNat
        rw [hchar, Nat.mod_eq_of_lt b.toNat_lt]
      rw [List.singleton_append, readEscaped, if_neg hplain, hbyte]
  | numeric =>
      have hhigh : b.toNat / 16 < 16 := Nat.div_lt_of_lt_mul b.toNat_lt
      have hlow : b.toNat % 16 < 16 := Nat.mod_lt _ (by decide)
      show some (UInt8.ofNat (hexValue (Nat.digitChar (b.toNat / 16)) * 16 +
        hexValue (Nat.digitChar (b.toNat % 16))), rest) = some (b, rest)
      rw [hexValue_digitChar _ hhigh, hexValue_digitChar _ hlow, Nat.div_add_mod', UInt8.ofNat_toNat]

/-- No written form starts another one. -/
theorem escaped_append_inj {b c : UInt8} {s t : List Char} (h : escaped b ++ s = escaped c ++ t) :
    b = c ∧ s = t := by
  have hread := readEscaped_append b s
  rw [h, readEscaped_append] at hread
  cases hread
  exact ⟨rfl, rfl⟩

/-- A quote is no written form, since it has a backslash before it there. -/
theorem quote_ne_escaped_append (b : UInt8) (s t : List Char) : '"' :: s ≠ escaped b ++ t := by
  intro h
  have hread := readEscaped_append b t
  rw [← h] at hread
  -- Only the byte of the quote itself would be read there, and its form starts with a backslash.
  cases hread
  cases h

/-- A string of written bytes ends at the first quote that is not written. -/
theorem escapedAll_append_inj {as bs : List UInt8} {s t : List Char}
    (h : escapedAll as ++ '"' :: s = escapedAll bs ++ '"' :: t) : as = bs ∧ s = t := by
  induction as generalizing bs with
  | nil =>
      cases bs with
      | nil => exact ⟨rfl, List.tail_eq_of_cons_eq h⟩
      | cons b bs =>
          rw [escapedAll_cons, List.append_assoc] at h
          exact absurd h (quote_ne_escaped_append b s _)
  | cons a as ih =>
      cases bs with
      | nil =>
          rw [escapedAll_cons, List.append_assoc] at h
          exact absurd h.symm (quote_ne_escaped_append a t _)
      | cons b bs =>
          rw [escapedAll_cons, escapedAll_cons, List.append_assoc, List.append_assoc] at h
          obtain ⟨rfl, hrest⟩ := escaped_append_inj h
          obtain ⟨rfl, rfl⟩ := ih hrest
          exact ⟨rfl, rfl⟩

/-! ## Printable characters -/

/-- The characters of ASCII that are no controls. -/
def Printable (c : Char) : Prop := 0x20 ≤ c.toNat ∧ c.toNat ≤ 0x7E

instance : DecidablePred Printable := fun _ => inferInstanceAs (Decidable (_ ∧ _))

theorem printable_digitChar : ∀ n < 16, Printable (Nat.digitChar n) := by decide

theorem printable_of_mem_escaped {b : UInt8} {c : Char} (hc : c ∈ escaped b) : Printable c := by
  have hform := form_escaped b
  generalize escaped b = cs at hform hc
  cases hform with
  | tab | lineFeed | carriageReturn | doubleQuote | singleQuote | backslash =>
      simp only [List.mem_cons, List.not_mem_nil, or_false] at hc
      rcases hc with rfl | rfl <;> decide
  | printable hchar hlow hhigh =>
      obtain rfl := List.mem_singleton.1 hc
      rw [Printable, hchar]
      exact ⟨hlow, hhigh⟩
  | numeric =>
      have hhigh : b.toNat / 16 < 16 := Nat.div_lt_of_lt_mul b.toNat_lt
      have hlow : b.toNat % 16 < 16 := Nat.mod_lt _ (by decide)
      simp only [List.mem_cons, List.not_mem_nil, or_false] at hc
      rcases hc with rfl | rfl | rfl | rfl
      · decide
      · decide
      · exact printable_digitChar _ hhigh
      · exact printable_digitChar _ hlow

end Byte

namespace SyntaxError

open Byte (escaped escaped_append_inj)

/-! ## Errors at a byte that was expected -/

/-- The errors where a byte was expected and another one, or the end, was found. -/
inductive Mismatch : SyntaxError → Prop where
  | unexpected (pos : Nat) (expected found : UInt8) : Mismatch (unexpected pos expected found)
  | unexpectedEnd (pos : Nat) (expected : UInt8) : Mismatch (unexpectedEnd pos expected)

/-- A decimal number ends where a character comes that is no digit. -/
theorem toString_append_inj {m n : Nat} {s t : String}
    (h : toString m ++ (": " ++ s) = toString n ++ (": " ++ t)) : m = n ∧ s = t := by
  have htext : ∀ (k : Nat) (u : String),
      (toString k ++ (": " ++ u)).toList = Nat.toDigits 10 k ++ ':' :: ' ' :: u.toList := by
    intro k u
    rw [Nat.toString_eq_repr, String.toList_append, String.toList_append, Nat.toList_repr]
    rfl
  have htake : ∀ (k : Nat) (cs : List Char),
      (Nat.toDigits 10 k ++ ':' :: cs).takeWhile Char.isDigit = Nat.toDigits 10 k := by
    intro k cs
    have hdigits : ∀ c ∈ Nat.toDigits 10 k, c.isDigit = true :=
      fun c => Nat.isDigit_of_mem_toDigits (by decide) (by decide)
    rw [List.takeWhile_append_of_pos hdigits, List.takeWhile_cons_of_neg (by decide),
      List.append_nil]
  have hlist := congrArg String.toList h
  rw [htext, htext] at hlist
  -- The colon is no digit, so the number is all digits at the front.
  have hdigits : Nat.toDigits 10 m = Nat.toDigits 10 n := by
    rw [← htake m (' ' :: s.toList), hlist, htake]
  obtain rfl : m = n := by
    rw [← Nat.ofDigitChars_ten_toDigits (n := m), hdigits, Nat.ofDigitChars_ten_toDigits]
  exact ⟨rfl, (String.append_right_inj _).1 ((String.append_right_inj _).1 h)⟩

/-- The position and the rest of a message can be told apart. -/
theorem message_inj {e f : SyntaxError} (h : e.message = f.message) :
    e.pos = f.pos ∧ e.detail = f.detail := by
  have hassoc : ∀ number detail : String, "syntax error at " ++ number ++ ": " ++ detail =
      "syntax error at " ++ (number ++ (": " ++ detail)) := by
    intro number detail
    rw [String.append_assoc, String.append_assoc]
  have hparts : toString e.pos ++ (": " ++ e.detail) = toString f.pos ++ (": " ++ f.detail) :=
    (String.append_right_inj _).1 (((hassoc _ _).symm.trans h).trans (hassoc _ _))
  exact toString_append_inj hparts

theorem toList_shown_append (b : UInt8) (s : String) :
    (shown b ++ s).toList = '\'' :: (escaped b ++ '\'' :: s.toList) := by
  simp [shown]

/-- A byte between quotes starts no other. -/
theorem shown_append_inj {b c : UInt8} {s t : String} (h : shown b ++ s = shown c ++ t) :
    b = c ∧ s = t := by
  have hlist := congrArg String.toList h
  rw [toList_shown_append, toList_shown_append] at hlist
  obtain ⟨rfl, hrest⟩ := escaped_append_inj (List.tail_eq_of_cons_eq hlist)
  exact ⟨rfl, String.toList_injective (List.tail_eq_of_cons_eq hrest)⟩

/-- The end of the input is not taken for a byte. -/
theorem shown_ne_end (b : UInt8) : shown b ≠ "end of input" := by
  intro h
  have hlist := congrArg String.toList h
  rw [← String.append_empty (s := shown b), toList_shown_append] at hlist
  cases List.head_eq_of_cons_eq hlist

theorem detail_unexpected (pos : Nat) (expected found : UInt8) :
    (unexpected pos expected found).detail =
      "expected " ++ (shown expected ++ (", found " ++ shown found)) := by
  simp [detail, String.append_assoc]

theorem detail_unexpectedEnd (pos : Nat) (expected : UInt8) :
    (unexpectedEnd pos expected).detail =
      "expected " ++ (shown expected ++ (", found " ++ "end of input")) := by
  have hend : ", found " ++ "end of input" = ", found end of input" := by decide +kernel
  rw [hend]
  simp [detail, String.append_assoc]

/-- At one position, different mismatches have different messages. -/
theorem Mismatch.eq_of_detail {e f : SyntaxError} (he : e.Mismatch) (hf : f.Mismatch)
    (hpos : e.pos = f.pos) (h : e.detail = f.detail) : e = f := by
  have hsplit : ∀ {b c : UInt8} {s t : String},
      "expected " ++ (shown b ++ (", found " ++ s)) = "expected " ++ (shown c ++ (", found " ++ t)) →
        b = c ∧ s = t := by
    intro b c s t h
    obtain ⟨hbyte, hrest⟩ := shown_append_inj ((String.append_right_inj _).1 h)
    exact ⟨hbyte, (String.append_right_inj _).1 hrest⟩
  cases he with
  | unexpected p b found =>
      cases hf with
      | unexpected q c found' =>
          rw [detail_unexpected, detail_unexpected] at h
          obtain ⟨rfl, hfound⟩ := hsplit h
          have hsame : found = found' := (shown_append_inj (congrArg (· ++ "") hfound)).1
          cases hpos
          rw [hsame]
      | unexpectedEnd q c =>
          rw [detail_unexpected, detail_unexpectedEnd] at h
          exact absurd (hsplit h).2 (shown_ne_end found)
  | unexpectedEnd p b =>
      cases hf with
      | unexpected q c found =>
          rw [detail_unexpectedEnd, detail_unexpected] at h
          exact absurd (hsplit h).2.symm (shown_ne_end found)
      | unexpectedEnd q c =>
          rw [detail_unexpectedEnd, detail_unexpectedEnd] at h
          obtain ⟨rfl, -⟩ := hsplit h
          cases hpos
          rfl

end SyntaxError

/-! ## Unambiguous texts -/

theorem Scanner.mismatch_mismatch (c : Scanner) (b : UInt8) : (c.mismatch b).Mismatch := by
  unfold mismatch
  split
  · exact .unexpectedEnd _ _
  · exact .unexpected _ _ _

/-- The error that is recorded where a byte is expected. -/
theorem Scanner.mismatch_of_expect {c : Scanner} {b : UInt8} {e : SyntaxError}
    (hc : c.error? = none) (he : (c.expect b).2.error? = some e) : e.Mismatch := by
  have hnone := (c.error?_accept b).trans hc
  rw [expect, hc] at he
  rcases haccept : c.accept b with ⟨_ | _, d⟩
  · have hd : d.error? = none := by rwa [haccept] at hnone
    obtain rfl : d.mismatch b = e := by simpa [haccept, fail, hd] using he
    exact d.mismatch_mismatch b
  · rw [haccept] at he hnone
    cases hnone.symm.trans he

theorem ByteString.toList_debug (a : ByteString) :
    a.debug.toList = ['b', '"'] ++ (Byte.escapedAll a.bytes ++ ['"']) := by
  simp [debug]

theorem ByteString.printable_of_mem_debug {a : ByteString} {c : Char} (hc : c ∈ a.debug.toList) :
    Byte.Printable c := by
  simp only [a.toList_debug, List.mem_append, List.mem_cons, List.not_mem_nil, or_false] at hc
  rcases hc with (rfl | rfl) | hc | rfl
  · decide
  · decide
  · obtain ⟨b, -, hc⟩ := List.mem_flatMap.1 hc
    exact Byte.printable_of_mem_escaped hc
  · decide

/-- Two byte strings have the same description exactly if they are equal, and a description is of
printable characters only.  Two errors at a byte that was expected have the same message exactly if
they are equal, and what a scanner records where it expects a byte is such an error. -/
theorem escaped_texts_unambiguous :
    (∀ a b : ByteString, a.debug = b.debug ↔ (a == b) = true) ∧
      (∀ a : ByteString, ∀ c ∈ a.debug.toList, Byte.Printable c) ∧
      (∀ e f : SyntaxError, e.Mismatch → f.Mismatch → (e.message = f.message ↔ e = f)) ∧
      ∀ (c : Scanner) (b : UInt8) (e : SyntaxError), c.error? = none →
        (c.expect b).2.error? = some e → e.Mismatch := by
  refine ⟨?_, fun _ _ => ByteString.printable_of_mem_debug, ?_,
    fun _ _ _ => Scanner.mismatch_of_expect⟩
  · intro a b
    rw [ByteString.beq_iff_bytes_eq]
    constructor
    · intro h
      have hlist := congrArg String.toList h
      rw [a.toList_debug, b.toList_debug] at hlist
      exact (Byte.escapedAll_append_inj (List.append_cancel_left hlist)).1
    · intro h
      rw [ByteString.debug, h, ByteString.debug]
  · intro e f he hf
    constructor
    · intro h
      obtain ⟨hpos, hdetail⟩ := SyntaxError.message_inj h
      exact he.eq_of_detail hf hpos hdetail
    · exact congrArg SyntaxError.message

/-- A line feed is not taken for a backslash and a letter, nor a quote that was found for the quotes
around it, nor its digits for those of the position.  Where a scanner expects one parenthesis and
finds the other, the error is one of those told apart. -/
theorem escaped_texts_unambiguous_quotes :
    (ByteString.own [0x0A]).debug ≠ (ByteString.borrowed [0x5C, 0x6E]).debug ∧
      (SyntaxError.unexpected 1 0x27 0x27).message ≠ (SyntaxError.unexpectedEnd 1 0x27).message ∧
      (SyntaxError.unexpected 12 0x33 0x34).message ≠ (SyntaxError.unexpected 1 0x32 0x34).message ∧
      ((Scanner.ofBytes [0x20, 0x29]).expect 0x28).2.error? = some (.unexpected 1 0x28 0x29) ∧
      (SyntaxError.unexpected 1 0x28 0x29).Mismatch := by
  obtain ⟨hdebug, -, hmessage, hrecorded⟩ := escaped_texts_unambiguous
  have herror : ((Scanner.ofBytes [0x20, 0x29]).expect 0x28).2.error? =
      some (.unexpected 1 0x28 0x29) := rfl
  refine ⟨?_, ?_, ?_, herror, hrecorded _ _ _ rfl herror⟩
  · exact mt (hdebug _ _).1 (by decide)
  · exact mt (hmessage _ _ (.unexpected ..) (.unexpectedEnd ..)).1 (by decide)
  · exact mt (hmessage _ _ (.unexpected ..) (.unexpected ..)).1 (by decide)

/-! The errors that a caller gives a reason for are not told apart from the others. -/

example : (SyntaxError.rejected 1 "expected '(', found end of input").message =
    (SyntaxError.unexpectedEnd 1 0x28).message := by
  decide +kernel

end ScanKit
