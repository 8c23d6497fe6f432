import ScanKit.Text.Utf8
import Mathlib.Tactic.Ring

/-!
# Pieces and encodings

The piece at the front of some bytes against `String.utf8EncodeChar`, the encoding of a character.
The first two bytes of an encoding of two bytes or more say how many follow them, and their bits lie
in a range of its own for each number of bytes that follow (`Opens`): the ranges leave out what
would be longer than needed, a surrogate or above the last character.  The bytes that follow carry
six bits each and any value is allowed in them.
-/

namespace ScanKit.Utf8

open String (utf8EncodeChar)

/-! ## Continuation bytes -/

/-- The continuation bytes that carry the lowest bits of a value, six in each. -/
def sextets : Nat → Nat → List UInt8
  | 0, _ => []
  | due + 1, n => UInt8.ofNat (0x80 + n / 64 ^ due % 64) :: sextets due n

theorem length_sextets (due n : Nat) : (sextets due n).length = due := by
  induction due with
  | zero => rfl
  | succ due ih => rw [sextets, List.length_cons, ih]

/-- Higher bits make no difference. -/
theorem sextets_add (due high low : Nat) :
    sextets due (high * 64 ^ due + low) = sextets due low := by
  induction due generalizing high with
  | zero => rfl
  | succ due ih =>
      have hsplit : high * 64 ^ (due + 1) + low = high * 64 * 64 ^ due + low := by ring
      have hdigit : (high * 64 * 64 ^ due + low) / 64 ^ due % 64 = low / 64 ^ due % 64 := by
        rw [Nat.add_comm, Nat.add_mul_div_right _ _ (Nat.pow_pos (by decide)),
          Nat.add_mul_mod_self_right]
      rw [sextets, sextets, hsplit, hdigit, ih]

theorem isContinuation_iff (b : UInt8) :
    isContinuation b = true ↔ 0x80 ≤ b.toNat ∧ b.toNat ≤ 0xBF := by
  simp [isContinuation, UInt8.le_iff_toNat_le]

/-- A byte in the range of continuation bytes is that of its payload. -/
theorem eq_ofNat_payload {b : UInt8} (h : 0x80 ≤ b.toNat ∧ b.toNat ≤ 0xBF) :
    b = UInt8.ofNat (0x80 + payload b) := by
  rw [← UInt8.toNat_inj, UInt8.toNat_ofNat', payload]
  omega

theorem payload_lt (b : UInt8) : payload b < 64 := Nat.mod_lt _ (by decide)

theorem toNat_sextet {k : Nat} (h : k < 64) : (UInt8.ofNat (0x80 + k)).toNat = 0x80 + k := by
  rw [UInt8.toNat_ofNat']
  omega

theorem payload_sextet {k : Nat} (h : k < 64) : payload (UInt8.ofNat (0x80 + k)) = k := by
  rw [payload, toNat_sextet h]
  omega

theorem isContinuation_sextet {k : Nat} (h : k < 64) :
    isContinuation (UInt8.ofNat (0x80 + k)) = true := by
  rw [isContinuation_iff, toNat_sextet h]
  omega

/-- The bits below the higher ones fall out of a quotient. -/
theorem add_low_div {due low : Nat} (high : Nat) (h : low < 64 ^ due) :
    (high * 64 ^ due + low) / 64 ^ due = high := by
  rw [Nat.add_comm, Nat.add_mul_div_right _ _ (Nat.pow_pos (by decide)), Nat.div_eq_of_lt h,
    Nat.zero_add]

/-- The bits of a continuation byte stand in front of those that the ones after it bring. -/
theorem payload_sextets {b : UInt8} {due low : Nat} (hb : isContinuation b = true)
    (h : low < 64 ^ due) :
    payload b * 64 ^ due + low < 64 ^ (due + 1) ∧
      sextets (due + 1) (payload b * 64 ^ due + low) = b :: sextets due low := by
  have hpayload := payload_lt b
  refine ⟨?_, ?_⟩
  · calc payload b * 64 ^ due + low < payload b * 64 ^ due + 64 ^ due := Nat.add_lt_add_left h _
      _ = (payload b + 1) * 64 ^ due := by ring
      _ ≤ 64 * 64 ^ due := Nat.mul_le_mul_right _ hpayload
      _ = 64 ^ (due + 1) := by ring
  · rw [sextets, add_low_div _ h, Nat.mod_eq_of_lt hpayload, sextets_add,
      ← eq_ofNat_payload ((isContinuation_iff b).1 hb)]

/-- The continuation bytes of a value are read back behind its higher bits. -/
theorem continued_sextets (n width due : Nat) (s : List UInt8) :
    continued (n / 64 ^ due) width due (sextets due n ++ s) = (.char (Char.ofNat n), s) := by
  induction due generalizing width with
  | zero => simp [continued, sextets]
  | succ due ih =>
      have hlt : n / 64 ^ due % 64 < 64 := Nat.mod_lt _ (by decide)
      have hbits : n / 64 ^ (due + 1) * 64 + n / 64 ^ due % 64 = n / 64 ^ due := by
        rw [Nat.pow_succ, ← Nat.div_div_eq_div_mul]
        omega
      rw [sextets, List.cons_append, continued, if_pos (isContinuation_sextet hlt),
        payload_sextet hlt, hbits, ih]

/-- A byte of another kind in the place of a continuation byte ends the reading. -/
theorem continued_stopped {n due : Nat} {front missing : List UInt8} {b : UInt8}
    (value width : Nat) (s : List UInt8) (hmissing : missing ≠ [])
    (hfront : front ++ missing = sextets due n) (hb : ¬ isContinuation b = true) :
    continued value width due (front ++ b :: s) = (.malformed (width + front.length), b :: s) := by
  induction due generalizing value width front with
  | zero => exact absurd (List.append_eq_nil_iff.1 hfront).2 hmissing
  | succ due ih =>
      cases front with
      | nil => rw [List.nil_append, continued, if_neg hb, List.length_nil, Nat.add_zero]
      | cons a front =>
          obtain ⟨rfl, hrest⟩ := List.cons.inj hfront
          have hlt : n / 64 ^ due % 64 < 64 := Nat.mod_lt _ (by decide)
          rw [List.cons_append, continued, if_pos (isContinuation_sextet hlt), ih _ _ hrest,
            List.length_cons, Nat.add_assoc, Nat.add_comm 1]

/-- What reading the continuation bytes that are due can come to. -/
inductive Continues (value width due : Nat) (s : List UInt8) : Piece × List UInt8 → Prop where
  | /-- All of them are there. -/
    char {low : Nat} {rest : List UInt8} (hlow : low < 64 ^ due)
      (hs : s = sextets due low ++ rest) :
      Continues value width due s (.char (Char.ofNat (value * 64 ^ due + low)), rest)
  | /-- The input ends before the last of them. -/
    unfinished {low : Nat} {missing : List UInt8} (hlow : low < 64 ^ due) (hmissing : missing ≠ [])
      (hs : s ++ missing = sextets due low) :
      Continues value width due s (.unfinished (width + s.length), [])
  | /-- Another byte stands in the place of one of them. -/
    malformed {low : Nat} {front missing rest : List UInt8} {b : UInt8} (hlow : low < 64 ^ due)
      (hmissing : missing ≠ []) (hfront : front ++ missing = sextets due low)
      (hb : ¬ isContinuation b = true) (hs : s = front ++ b :: rest) :
      Continues value width due s (.malformed (width + front.length), b :: rest)

theorem continues (value width due : Nat) (s : List UInt8) :
    Continues value width due s (continued value width due s) := by
  induction due generalizing value width s with
  | zero =>
      have hchar : Continues value width 0 s (.char (Char.ofNat (value * 64 ^ 0 + 0)), s) :=
        .char (by decide) rfl
      simpa [continued] using hchar
  | succ due ih =>
      cases s with
      | nil =>
          have hnone : ([] : List UInt8) ++ sextets (due + 1) 0 = sextets (due + 1) 0 := rfl
          exact .unfinished (Nat.pow_pos (by decide)) (List.cons_ne_nil _ _) hnone
      | cons b s =>
          have hrest := ih (value * 64 + payload b) (width + 1) s
          rw [continued]
          by_cases hb : isContinuation b = true
          · rw [if_pos hb]
            generalize continued (value * 64 + payload b) (width + 1) due s = result at hrest
            cases hrest with
            | @char low rest hlow hs =>
                obtain ⟨hlt, hall⟩ := payload_sextets hb hlow
                have hvalue : (value * 64 + payload b) * 64 ^ due + low =
                    value * 64 ^ (due + 1) + (payload b * 64 ^ due + low) := by ring
                rw [hvalue]
                exact .char hlt (by rw [hall, hs, List.cons_append])
            | @unfinished low missing hlow hmissing hs =>
                obtain ⟨hlt, hall⟩ := payload_sextets hb hlow
                have hwidth : width + 1 + s.length = width + (b :: s).length := by
                  rw [List.length_cons]
                  omega
                rw [hwidth]
                exact .unfinished hlt hmissing (by rw [hall, List.cons_append, hs])
            | @malformed low front missing rest stop hlow hmissing hfront hstop hs =>
                obtain ⟨hlt, hall⟩ := payload_sextets hb hlow
                have hwidth : width + 1 + front.length = width + (b :: front).length := by
                  rw [List.length_cons]
                  omega
                rw [hwidth]
                exact .malformed hlt hmissing (by rw [hall, List.cons_append, hfront]) hstop
                  (by rw [hs, List.cons_append])
          · rw [if_neg hb]
            have hnone : ([] : List UInt8) ++ sextets (due + 1) 0 = sextets (due + 1) 0 := rfl
            exact .malformed (Nat.pow_pos (by decide)) (List.cons_ne_nil _ _) hnone hb rfl

/-! ## First and second bytes -/

/-- The bits that the first two bytes of an encoding can carry, by how many bytes follow them.
Fewer bits fit into a shorter encoding; what is left out in the middle are the surrogates. -/
inductive Opens : Nat → Nat → Prop where
  | two {v : Nat} (hlow : 0x80 ≤ v) (hhigh : v < 0x800) : Opens 0 v
  | three {v : Nat} (hlow : 0x20 ≤ v) (hhigh : v < 0x400) (hgap : v < 0x360 ∨ 0x380 ≤ v) :
      Opens 1 v
  | four {v : Nat} (hlow : 0x10 ≤ v) (hhigh : v < 0x110) : Opens 2 v

/-- The first byte without its bits, by how many bytes follow the second. -/
def marker : Nat → Nat
  | 0 => 0xC0
  | 1 => 0xE0
  | _ => 0xF0

/-- A lead announces second bytes with which encodings open. -/
theorem Lead.opens {a b : UInt8} {lead : Lead} (h : Lead.ofByte? a = some lead)
    (hlow : lead.low ≤ b) (hhigh : b ≤ lead.high) :
    Opens lead.further (lead.bits * 64 + payload b) ∧
      a.toNat = marker lead.further + lead.bits ∧ 0x80 ≤ b.toNat ∧ b.toNat ≤ 0xBF := by
  unfold Lead.ofByte? at h
  simp only [UInt8.lt_iff_toNat_lt, UInt8.le_iff_toNat_le, ← UInt8.toNat_inj, UInt8.reduceToNat]
    at h
  rw [UInt8.le_iff_toNat_le] at hlow hhigh
  -- one goal for each kind of lead, and two for the bytes that are none
  repeat' split at h
  all_goals first
    | obtain rfl := Option.some.inj h
      simp only [UInt8.reduceToNat] at hlow hhigh
      simp only [marker, payload]
      refine ⟨?_, by omega⟩
      constructor <;> omega
    | exact nomatch h

theorem Opens.further_le {further v : Nat} (h : Opens further v) : further ≤ 2 := by
  cases h with
  | two => exact Nat.zero_le 2
  | three => exact Nat.le_succ 1
  | four => exact Nat.le_refl 2

/-- The bits of a first byte fit beside its marker. -/
theorem toNat_first {further v : Nat} (h : Opens further v) :
    (UInt8.ofNat (marker further + v / 64)).toNat = marker further + v / 64 := by
  rw [UInt8.toNat_ofNat']
  cases h with
  | two | three | four =>
      simp only [marker]
      omega

/-- Every range of second bytes that a lead announces has a byte in it. -/
theorem Lead.low_le_high {a : UInt8} {lead : Lead} (h : Lead.ofByte? a = some lead) :
    lead.low ≤ lead.high := by
  unfold Lead.ofByte? at h
  repeat' split at h
  all_goals first
    | obtain rfl := Option.some.inj h
      simp
    | exact nomatch h

/-- Encodings open with a lead and a second byte that it announces. -/
theorem exists_lead {a b : UInt8} {further v : Nat} (h : Opens further v)
    (ha : a.toNat = marker further + v / 64) (hb : b.toNat = 0x80 + v % 64) :
    ∃ lead, Lead.ofByte? a = some lead ∧
      lead.further = further ∧ lead.bits = v / 64 ∧ lead.low ≤ b ∧ b ≤ lead.high := by
  unfold Lead.ofByte?
  simp only [UInt8.lt_iff_toNat_lt, UInt8.le_iff_toNat_le, ← UInt8.toNat_inj, UInt8.reduceToNat]
  -- the number of bytes that follow settles which leads are left to tell apart
  cases h with simp only [marker] at ha
  | two =>
      rw [if_neg (by omega), if_pos (by omega)]
      refine ⟨_, rfl, rfl, ?_, ?_, ?_⟩ <;> simp only [UInt8.reduceToNat] <;> omega
  | three =>
      rw [if_neg (by omega), if_neg (by omega)]
      repeat' split
      all_goals first
        | omega
        | refine ⟨_, rfl, rfl, ?_, ?_, ?_⟩ <;> simp only [UInt8.reduceToNat] <;> omega
  | four =>
      rw [if_neg (by omega), if_neg (by omega), if_neg (by omega), if_neg (by omega),
        if_neg (by omega)]
      repeat' split
      all_goals first
        | omega
        | refine ⟨_, rfl, rfl, ?_, ?_, ?_⟩ <;> simp only [UInt8.reduceToNat] <;> omega

/-! ## Encodings -/

/-- The encoding of a character with an opening: first byte, second byte, and the bytes that
follow. -/
theorem utf8EncodeChar_of_opens {c : Char} {further : Nat}
    (h : Opens further (c.toNat / 64 ^ further)) :
    utf8EncodeChar c = UInt8.ofNat (marker further + c.toNat / 64 ^ further / 64) ::
      UInt8.ofNat (0x80 + c.toNat / 64 ^ further % 64) :: sextets further c.toNat := by
  have hval : c.val.toNat = c.toNat := rfl
  simp only [utf8EncodeChar, hval]
  cases h with
  | two hlow hhigh =>
      simp only [pow_zero, Nat.div_one] at hlow hhigh
      rw [if_neg (by omega), if_pos (by omega)]
      simp only [marker, sextets, pow_zero, Nat.div_one, List.cons.injEq, and_true]
      constructor <;> exact congrArg UInt8.ofNat (by omega)
  | three hlow hhigh hgap =>
      simp only [pow_one] at hlow hhigh hgap
      rw [if_neg (by omega), if_neg (by omega), if_pos (by omega)]
      simp only [marker, sextets, pow_zero, pow_one, Nat.div_one, List.cons.injEq, and_true]
      refine ⟨?_, ?_, ?_⟩ <;> exact congrArg UInt8.ofNat (by omega)
  | four hlow hhigh =>
      simp only [Nat.reducePow] at hlow hhigh
      rw [if_neg (by omega), if_neg (by omega), if_neg (by omega)]
      simp only [marker, sextets, Nat.reducePow, pow_zero, pow_one, Nat.div_one,
        List.cons.injEq, and_true]
      refine ⟨?_, ?_, ?_, ?_⟩ <;> exact congrArg UInt8.ofNat (by omega)

/-- An opening with any further bits belongs to a character. -/
theorem toNat_ofNat_of_opens {further v low : Nat} (h : Opens further v)
    (hlow : low < 64 ^ further) :
    (Char.ofNat (v * 64 ^ further + low)).toNat = v * 64 ^ further + low := by
  have hvalid : (v * 64 ^ further + low).isValidChar := by
    cases h with
    | two | three | four =>
        simp only [Nat.isValidChar, Nat.reducePow] at hlow ⊢
        omega
  rw [Char.ofNat, dif_pos hvalid]
  rfl

/-- A character past the first 128 has an opening for its higher bits. -/
theorem exists_opens {c : Char} (h : 0x80 ≤ c.toNat) :
    ∃ further, Opens further (c.toNat / 64 ^ further) := by
  have hvalid : c.toNat.isValidChar := c.valid
  simp only [Nat.isValidChar] at hvalid
  rcases Nat.lt_or_ge c.toNat 0x800 with h | h
  · exact ⟨0, .two (by omega) (by omega)⟩
  · rcases Nat.lt_or_ge c.toNat 0x10000 with h' | h'
    · exact ⟨1, .three (by omega) (by omega) (by omega)⟩
    · exact ⟨2, .four (by omega) (by omega)⟩

/-- A lead, a second byte that it announces and any bits in the bytes that follow are an
encoding. -/
theorem Lead.utf8EncodeChar_eq {a b : UInt8} {lead : Lead} {low : Nat}
    (h : Lead.ofByte? a = some lead) (hlow : lead.low ≤ b) (hhigh : b ≤ lead.high)
    (hbits : low < 64 ^ lead.further) :
    utf8EncodeChar
        (Char.ofNat ((lead.bits * 64 + payload b) * 64 ^ lead.further + low)) =
      a :: b :: sextets lead.further low := by
  obtain ⟨hopens, ha, hb⟩ := Lead.opens h hlow hhigh
  have hpayload := payload_lt b
  have hn := toNat_ofNat_of_opens hopens hbits
  have hv := add_low_div (lead.bits * 64 + payload b) hbits
  have hfirst : (lead.bits * 64 + payload b) / 64 = lead.bits := by omega
  have hsecond : (lead.bits * 64 + payload b) % 64 = payload b := by omega
  rw [utf8EncodeChar_of_opens (by rwa [hn, hv]), hn, hv, hfirst, hsecond, sextets_add, ← ha,
    ← eq_ofNat_payload hb, UInt8.ofNat_toNat]

theorem utf8EncodeChar_of_lt {c : Char} (h : c.toNat < 0x80) :
    utf8EncodeChar c = [UInt8.ofNat c.toNat] := by
  have hle : c.val.toNat ≤ 127 := Nat.le_of_lt_succ h
  simp only [utf8EncodeChar, if_pos hle]
  rfl

/-! ## The piece at the front -/

theorem piece_of_lead {a b : UInt8} {lead : Lead} (s : List UInt8) (ha : ¬ a < 0x80)
    (hlead : Lead.ofByte? a = some lead) (hlow : lead.low ≤ b) (hhigh : b ≤ lead.high) :
    piece a (b :: s) = continued (lead.bits * 64 + payload b) 2 lead.further s := by
  have hannounced : (lead.low ≤ b && b ≤ lead.high) = true := by
    rw [Bool.and_eq_true, decide_eq_true_eq, decide_eq_true_eq]
    exact ⟨hlow, hhigh⟩
  rw [piece, if_neg ha, hlead]
  dsimp only
  rw [if_pos hannounced]

theorem piece_of_unannounced {a b : UInt8} {lead : Lead} (s : List UInt8) (ha : ¬ a < 0x80)
    (hlead : Lead.ofByte? a = some lead) (hb : ¬ (lead.low ≤ b ∧ b ≤ lead.high)) :
    piece a (b :: s) = (.malformed 1, b :: s) := by
  have hunannounced : ¬ (lead.low ≤ b && b ≤ lead.high) = true := by
    rw [Bool.and_eq_true, decide_eq_true_eq, decide_eq_true_eq]
    exact hb
  rw [piece, if_neg ha, hlead]
  dsimp only
  rw [if_neg hunannounced]

theorem piece_of_no_lead {a : UInt8} (s : List UInt8) (ha : ¬ a < 0x80)
    (hlead : Lead.ofByte? a = none) : piece a s = (.malformed 1, s) := by
  rw [piece, if_neg ha, hlead]

/-- The encoding of a character is read as that character, whatever follows it. -/
theorem piece_eq_char {a : UInt8} {s rest : List UInt8} {c : Char}
    (h : a :: s = utf8EncodeChar c ++ rest) : piece a s = (.char c, rest) := by
  rcases Nat.lt_or_ge c.toNat 0x80 with hlt | hge
  · rw [utf8EncodeChar_of_lt hlt] at h
    obtain ⟨rfl, rfl⟩ := List.cons.inj h
    have htoNat : (UInt8.ofNat c.toNat).toNat = c.toNat := by
      rw [UInt8.toNat_ofNat']
      omega
    have hfirst : UInt8.ofNat c.toNat < 0x80 := by
      rw [UInt8.lt_iff_toNat_lt, htoNat]
      exact hlt
    rw [piece, if_pos hfirst, htoNat, Char.ofNat_toNat]
  · obtain ⟨further, hopens⟩ := exists_opens hge
    rw [utf8EncodeChar_of_opens hopens, List.cons_append, List.cons_append] at h
    obtain ⟨ha, rfl⟩ := List.cons.inj h
    have hmod : c.toNat / 64 ^ further % 64 < 64 := Nat.mod_lt _ (by decide)
    have hfirst : a.toNat = marker further + c.toNat / 64 ^ further / 64 :=
      ha ▸ toNat_first hopens
    obtain ⟨lead, hlead, hfurther, hbits, hlow, hhigh⟩ :=
      exists_lead hopens hfirst (toNat_sextet hmod)
    have hlarge : ¬ a < 0x80 := by
      have hmarker : 0x80 ≤ marker further := by
        rcases further with _ | _ | further <;> simp [marker]
      rw [UInt8.lt_iff_toNat_lt, hfirst, Nat.not_lt]
      exact Nat.le_trans hmarker (Nat.le_add_right ..)
    have hvalue : lead.bits * 64 + c.toNat / 64 ^ further % 64 = c.toNat / 64 ^ further := by
      rw [hbits]
      omega
    rw [piece_of_lead _ hlarge hlead hlow hhigh, payload_sextet hmod, hvalue, hfurther,
      continued_sextets, Char.ofNat_toNat]

/-- Malformed bytes at the front are as many as an encoding can start with, but at least one. -/
structure Malformed (bs : List UInt8) (width : Nat) : Prop where
  pos : 1 ≤ width
  le_three : width ≤ 3
  le_length : width ≤ bs.length
  starts : 1 < width → ∃ c, bs.take width <+: utf8EncodeChar c
  most : ∀ c, ¬ bs.take (width + 1) <+: utf8EncodeChar c

/-- The encoding of a character without its last bytes. -/
structure Unfinished (bs : List UInt8) : Prop where
  ne_nil : bs ≠ []
  le_three : bs.length ≤ 3
  completed : ∃ c missing, missing ≠ [] ∧ bs ++ missing = utf8EncodeChar c

/-- What the piece at the front of some bytes can be. -/
inductive Reads (bs : List UInt8) : Piece × List UInt8 → Prop where
  | char {c : Char} {rest : List UInt8} (hbs : bs = utf8EncodeChar c ++ rest) :
      Reads bs (.char c, rest)
  | malformed {width : Nat} (h : Malformed bs width) :
      Reads bs (.malformed width, bs.drop width)
  | unfinished (h : Unfinished bs) : Reads bs (.unfinished bs.length, [])

theorem Reads.of_append (bad rest : List UInt8) (hpos : 1 ≤ bad.length) (hle : bad.length ≤ 3)
    (hstarts : 1 < bad.length → ∃ c, bad <+: utf8EncodeChar c)
    (hmost : ∀ c, ¬ bad ++ rest.take 1 <+: utf8EncodeChar c) :
    Reads (bad ++ rest) (.malformed bad.length, rest) := by
  have hmalformed : Malformed (bad ++ rest) bad.length := by
    refine ⟨hpos, hle, ?_, ?_, ?_⟩
    · rw [List.length_append]
      exact Nat.le_add_right ..
    · rwa [List.take_left]
    · rwa [List.take_length_add_append]
  have hreads := Reads.malformed hmalformed
  rwa [List.drop_left] at hreads

theorem Reads.of_unfinished {bs missing : List UInt8} {c : Char} (hne : bs ≠ [])
    (hmissing : missing ≠ []) (hbs : bs ++ missing = utf8EncodeChar c) :
    Reads bs (.unfinished bs.length, []) := by
  have hlength := congrArg List.length hbs
  have hpos := List.length_pos_iff.2 hmissing
  have hfour := Char.utf8Size_le_four c
  rw [List.length_append, String.length_utf8EncodeChar] at hlength
  exact .unfinished ⟨hne, by omega, c, missing, hmissing, hbs⟩

/-- No encoding starts with bytes that are malformed whatever follows them. -/
theorem not_prefix_of_malformed (a : UInt8) (s : List UInt8)
    (h : ∀ t, ∃ width, (piece a (s ++ t)).1 = .malformed width) (c : Char) :
    ¬ a :: s <+: utf8EncodeChar c := by
  rintro ⟨t, ht⟩
  obtain ⟨width, hwidth⟩ := h t
  have hchar : piece a (s ++ t) = (.char c, []) :=
    piece_eq_char (ht.trans (List.append_nil _).symm)
  rw [hchar] at hwidth
  exact nomatch hwidth

theorem Reads.single {a : UInt8} {s : List UInt8}
    (h : ∀ t, piece a (s.take 1 ++ t) = (.malformed 1, s.take 1 ++ t)) :
    Reads (a :: s) (.malformed 1, s) := by
  refine .of_append [a] s (Nat.le_refl 1) (Nat.le_add_left 1 2) ?_ ?_
  · exact fun hmore => absurd hmore (Nat.lt_irrefl 1)
  · exact not_prefix_of_malformed a (s.take 1) fun t => ⟨1, congrArg Prod.fst (h t)⟩

/-- After two bytes that open an encoding, the continuation bytes decide. -/
theorem reads_of_lead {a b : UInt8} {lead : Lead} (s : List UInt8) (ha : ¬ a < 0x80)
    (hlead : Lead.ofByte? a = some lead) (hlow : lead.low ≤ b) (hhigh : b ≤ lead.high) :
    Reads (a :: b :: s) (piece a (b :: s)) := by
  have hs := continues (lead.bits * 64 + payload b) 2 lead.further s
  rw [piece_of_lead s ha hlead hlow hhigh]
  generalize continued (lead.bits * 64 + payload b) 2 lead.further s = result at hs
  cases hs with
  | @char low rest hbits hs =>
      refine .char ?_
      rw [Lead.utf8EncodeChar_eq hlead hlow hhigh hbits, hs]
      rfl
  | @unfinished low missing hbits hmissing hs =>
      have hencoded := Lead.utf8EncodeChar_eq hlead hlow hhigh hbits
      have hwidth : 2 + s.length = (a :: b :: s).length := Nat.add_comm ..
      rw [← hs] at hencoded
      rw [hwidth]
      exact .of_unfinished (List.cons_ne_nil _ _) hmissing hencoded.symm
  | @malformed low front missing rest stop hbits hmissing hfront hstop hs =>
      have hencoded := Lead.utf8EncodeChar_eq hlead hlow hhigh hbits
      have hwidth : 2 + front.length = (a :: b :: front).length := Nat.add_comm ..
      rw [← hfront] at hencoded
      rw [hwidth, hs]
      refine .of_append (a :: b :: front) (stop :: rest) ?_ ?_ ?_ ?_
      · exact Nat.succ_pos _
      · have hfurther := (Lead.opens hlead hlow hhigh).1.further_le
        have hlength := congrArg List.length hfront
        have hmissing := List.length_pos_iff.2 hmissing
        rw [List.length_append, length_sextets] at hlength
        simp only [List.length_cons]
        omega
      · exact fun _ => ⟨_, missing, hencoded.symm⟩
      · refine not_prefix_of_malformed a (b :: (front ++ [stop])) fun t => ?_
        rw [List.cons_append, List.append_assoc, piece_of_lead _ ha hlead hlow hhigh]
        exact ⟨_, congrArg Prod.fst (continued_stopped _ _ t hmissing hfront hstop)⟩

theorem reads (a : UInt8) (s : List UInt8) : Reads (a :: s) (piece a s) := by
  by_cases ha : a < 0x80
  · rw [piece, if_pos ha]
    rw [UInt8.lt_iff_toNat_lt] at ha
    have hvalid : a.toNat.isValidChar := Or.inl (Nat.lt_trans ha (by decide))
    have hchar : (Char.ofNat a.toNat).toNat = a.toNat := by
      rw [Char.ofNat, dif_pos hvalid]
      rfl
    refine .char ?_
    rw [utf8EncodeChar_of_lt (by rwa [hchar]), hchar, UInt8.ofNat_toNat, List.singleton_append]
  · cases hlead : Lead.ofByte? a with
    | none =>
        rw [piece_of_no_lead s ha hlead]
        exact .single fun t => piece_of_no_lead _ ha hlead
    | some lead =>
        cases s with
        | nil =>
            have hbits : 0 < 64 ^ lead.further := Nat.pow_pos (by decide)
            have hencoded := Lead.utf8EncodeChar_eq hlead (Nat.le_refl _)
              (Lead.low_le_high hlead) hbits
            rw [piece, if_neg ha, hlead]
            exact .of_unfinished (List.cons_ne_nil _ _) (List.cons_ne_nil _ _) hencoded.symm
        | cons b rest =>
            by_cases hb : lead.low ≤ b ∧ b ≤ lead.high
            · exact reads_of_lead rest ha hlead hb.1 hb.2
            · rw [piece_of_unannounced rest ha hlead hb]
              exact .single fun t => piece_of_unannounced t ha hlead hb

end ScanKit.Utf8
