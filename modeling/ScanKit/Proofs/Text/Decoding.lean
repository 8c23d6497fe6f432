import ScanKit.ByteString
import ScanKit.Proofs.Text.Encoding

/-!
# Strict and lenient reading

Bytes fall into a text and, unless that is all of them, bytes that do not start with a character
(`Stuck`).  The strict reading stops there, the lenient one puts a replacement character and reads
on behind what it stands for: both see the same text in front of the same fault.
-/

namespace ScanKit

namespace Utf8

open String (utf8EncodeChar)

/-- The bytes of a text. -/
def encoded (cs : List Char) : List UInt8 := cs.flatMap utf8EncodeChar

@[simp] theorem encoded_nil : encoded [] = [] := rfl

theorem encoded_cons (c : Char) (cs : List Char) :
    encoded (c :: cs) = utf8EncodeChar c ++ encoded cs := rfl

theorem encoded_append (cs ds : List Char) : encoded (cs ++ ds) = encoded cs ++ encoded ds :=
  List.flatMap_append

theorem length_encoded_cons (c : Char) (cs : List Char) :
    (encoded (c :: cs)).length = c.utf8Size + (encoded cs).length := by
  rw [encoded_cons, List.length_append, String.length_utf8EncodeChar]

/-! ## The pieces of a text -/

/-- A text at the front is read as its characters. -/
theorem pieces_encoded_append (cs : List Char) (s : List UInt8) :
    pieces (encoded cs ++ s) = cs.map .char ++ pieces s := by
  induction cs with
  | nil => rfl
  | cons c cs ih =>
      obtain ⟨a, t, hencoded⟩ := List.exists_cons_of_ne_nil (String.utf8EncodeChar_ne_nil (c := c))
      have hpiece : piece a (t ++ (encoded cs ++ s)) = (.char c, encoded cs ++ s) :=
        piece_eq_char (by rw [hencoded, List.cons_append])
      rw [encoded_cons, List.append_assoc, hencoded, List.cons_append, pieces, hpiece, ih,
        List.map_cons, List.cons_append]

theorem pieces_encoded (cs : List Char) : pieces (encoded cs) = cs.map .char := by
  have hpieces := pieces_encoded_append cs []
  rwa [List.append_nil, pieces, List.append_nil] at hpieces

/-- Characters that pieces start with come before any fault in them. -/
theorem prefix_of_map_char {front cs : List Char} {ps : List Piece}
    (h : front.map .char <+: cs.map .char ++ ps) (hps : ∀ c, ps.head? ≠ some (.char c)) :
    front <+: cs := by
  induction front generalizing cs with
  | nil => exact List.nil_prefix
  | cons c front ih =>
      cases cs with
      | nil =>
          obtain ⟨rest, rfl⟩ := h
          exact absurd rfl (hps c)
      | cons d cs =>
          rw [List.map_cons, List.map_cons, List.cons_append, List.cons_prefix_cons] at h
          obtain ⟨hc, hrest⟩ := h
          rw [Piece.char.inj hc, List.prefix_cons_inj]
          exact ih hrest

/-! ## The first fault -/

/-- Bytes that do not start with a character, if there are any. -/
inductive Stuck (bs : List UInt8) : List Piece → Prop where
  | nil (hbs : bs = []) : Stuck bs []
  | malformed {width : Nat} (h : Malformed bs width) :
      Stuck bs (.malformed width :: pieces (bs.drop width))
  | unfinished (h : Unfinished bs) : Stuck bs [.unfinished bs.length]

theorem Stuck.head?_ne {bs : List UInt8} {ps : List Piece} (h : Stuck bs ps) (c : Char) :
    ps.head? ≠ some (.char c) := by
  cases h with
  | nil => exact nofun
  | malformed => exact nofun
  | unfinished => exact nofun

theorem exists_stuck (bs : List UInt8) :
    ∃ cs tail, bs = encoded cs ++ tail ∧ Stuck tail (pieces tail) := by
  induction bs using pieces.induct with
  | case1 => exact ⟨[], [], rfl, by rw [pieces]; exact .nil rfl⟩
  | case2 a s ih =>
      have hreads := reads a s
      have hpieces : pieces (a :: s) = (piece a s).1 :: pieces (piece a s).2 := by rw [pieces]
      generalize piece a s = result at hreads hpieces ih
      cases hreads with
      | @char c rest hbs =>
          obtain ⟨cs, tail, hrest, hstuck⟩ := ih
          exact ⟨c :: cs, tail, by rw [hbs, encoded_cons, List.append_assoc, ← hrest], hstuck⟩
      | malformed h => exact ⟨[], a :: s, rfl, hpieces ▸ .malformed h⟩
      | unfinished h =>
          rw [pieces] at hpieces
          exact ⟨[], a :: s, rfl, hpieces ▸ .unfinished h⟩

/-- A text that the bytes start with is part of the one in front of the first fault. -/
theorem Stuck.length_le {cs front : List Char} {tail : List UInt8} (h : Stuck tail (pieces tail))
    (hfront : encoded front <+: encoded cs ++ tail) :
    (encoded front).length ≤ (encoded cs).length := by
  obtain ⟨rest, hrest⟩ := hfront
  have hpieces := congrArg pieces hrest
  rw [pieces_encoded_append, pieces_encoded_append] at hpieces
  obtain ⟨more, rfl⟩ := prefix_of_map_char ⟨_, hpieces⟩ h.head?_ne
  rw [encoded_append, List.length_append]
  exact Nat.le_add_right ..

theorem Stuck.le_of_take_eq {cs front : List Char} {tail : List UInt8} {n : Nat}
    (h : Stuck tail (pieces tail)) (hn : n ≤ (encoded cs ++ tail).length)
    (hfront : (encoded cs ++ tail).take n = encoded front) : n ≤ (encoded cs).length := by
  have hprefix : encoded front <+: encoded cs ++ tail := hfront ▸ List.take_prefix n _
  have hfits := h.length_le hprefix
  rwa [← hfront, List.length_take_of_le hn] at hfits

/-! ## Both readings -/

theorem strict_append (start : Nat) (cs : List Char) (ps : List Piece) :
    strict start (cs.map .char ++ ps) =
      (strict (start + (encoded cs).length) ps).map (cs ++ ·) := by
  induction cs generalizing start with
  | nil =>
      rw [List.map_nil, List.nil_append, encoded_nil, List.length_nil, Nat.add_zero]
      cases strict start ps <;> rfl
  | cons c cs ih =>
      rw [List.map_cons, List.cons_append, strict, ih, length_encoded_cons, Nat.add_assoc]
      cases strict (start + (c.utf8Size + (encoded cs).length)) ps <;> rfl

theorem map_lenient_char (cs : List Char) : (cs.map Piece.char).map Piece.lenient = cs := by
  rw [List.map_map]
  exact List.map_id cs

theorem decode_encoded_append (cs : List Char) (s : List UInt8) :
    decode (encoded cs ++ s) = (strict (encoded cs).length (pieces s)).map (cs ++ ·) := by
  rw [decode, pieces_encoded_append, strict_append, Nat.zero_add]

theorem decodeLossy_encoded_append (cs : List Char) (s : List UInt8) :
    decodeLossy (encoded cs ++ s) = cs ++ decodeLossy s := by
  rw [decodeLossy, pieces_encoded_append, List.map_append, map_lenient_char, decodeLossy]

/-- The lenient reading gives a text back. -/
theorem decodeLossy_encoded (cs : List Char) : decodeLossy (encoded cs) = cs := by
  rw [decodeLossy, pieces_encoded, map_lenient_char]

/-- Bytes are read strictly as a text if they are its encoding, and only then. -/
theorem decode_eq_ok_iff (bs : List UInt8) (cs : List Char) :
    decode bs = .ok cs ↔ bs = encoded cs := by
  constructor
  · obtain ⟨ds, tail, rfl, hstuck⟩ := exists_stuck bs
    rw [decode_encoded_append]
    generalize pieces tail = ps at hstuck
    intro h
    cases hstuck with
    | nil hnil =>
        have hds : ds ++ [] = cs := Except.ok.inj h
        rw [hnil, ← hds, List.append_nil, List.append_nil]
    | malformed => exact nomatch h
    | unfinished => exact nomatch h
  · rintro rfl
    have hdecode := decode_encoded_append cs []
    rw [List.append_nil, pieces, strict] at hdecode
    rw [hdecode]
    exact congrArg Except.ok (List.append_nil cs)

end Utf8

namespace ByteString

open Utf8

theorem toText_eq_ok_iff (b : ByteString) (t : String) :
    b.toText = .ok t ↔ b.bytes = encoded t.toList := by
  rw [← decode_eq_ok_iff, toText]
  constructor
  · intro h
    cases hdecode : decode b.bytes with
    | error f => rw [hdecode] at h; exact nomatch h
    | ok cs =>
        rw [hdecode] at h
        obtain rfl := Except.ok.inj h
        rw [String.toList_ofList]
  · intro h
    rw [h]
    exact congrArg Except.ok String.ofList_toList

theorem display_of_bytes_eq {b : ByteString} {t : String} (h : b.bytes = encoded t.toList) :
    b.display = t := by
  rw [display, h, decodeLossy_encoded, String.ofList_toList]

theorem display_of_bytes_eq_append {b : ByteString} {cs : List Char} {tail : List UInt8}
    (h : b.bytes = encoded cs ++ tail) :
    b.display = String.ofList cs ++ String.ofList (decodeLossy tail) := by
  rw [display, h, decodeLossy_encoded_append, String.ofList_append]

/-- `f` is the first fault in a byte string, and `t` the text in front of it.  Where the input goes
on behind the fault, so does the display; where it ends inside an encoding, that is the last of
it. -/
structure Breaks (b : ByteString) (f : Fault) (t : String) : Prop where
  text : b.bytes.take f.validUpTo = encoded t.toList
  within : f.validUpTo ≤ b.length
  longest : ∀ n ≤ b.length, ∀ front : String,
    b.bytes.take n = encoded front.toList → n ≤ f.validUpTo
  malformed : ∀ width, f.width? = some width →
    Malformed (b.bytes.drop f.validUpTo) width ∧ f.validUpTo + width ≤ b.length ∧
      b.display = t ++ "\uFFFD" ++ (borrowed (b.bytes.drop (f.validUpTo + width))).display
  unfinished : f.width? = none →
    Unfinished (b.bytes.drop f.validUpTo) ∧ b.display = t ++ "\uFFFD"

theorem exists_breaks {b : ByteString} {f : Fault} (h : b.toText = .error f) :
    ∃ t, Breaks b f t := by
  obtain ⟨cs, tail, hbs, hstuck⟩ := exists_stuck b.bytes
  have htext : b.bytes.take (encoded cs).length = encoded (String.ofList cs).toList := by
    rw [hbs, List.take_left, String.toList_ofList]
  have hrest : b.bytes.drop (encoded cs).length = tail := by rw [hbs, List.drop_left]
  have hlength : b.length = (encoded cs).length + tail.length := by
    rw [length, hbs, List.length_append]
  have hwithin : (encoded cs).length ≤ b.length := hlength ▸ Nat.le_add_right ..
  have hlongest : ∀ n ≤ b.length, ∀ front : String,
      b.bytes.take n = encoded front.toList → n ≤ (encoded cs).length := by
    intro n hn front hfront
    rw [length, hbs] at hn
    rw [hbs] at hfront
    exact hstuck.le_of_take_eq hn hfront
  have hdisplay := display_of_bytes_eq_append hbs
  rw [toText, hbs, decode_encoded_append] at h
  generalize hpieces : pieces tail = ps at h hstuck
  cases hstuck with
  | nil => exact nomatch h
  | @malformed width hmalformed =>
      obtain rfl := Except.error.inj h
      refine ⟨String.ofList cs, htext, hwithin, hlongest, ?_, nofun⟩
      rintro _ ⟨⟩
      have hfits := Nat.add_le_add_left hmalformed.le_length (encoded cs).length
      refine ⟨hrest.symm ▸ hmalformed, hlength ▸ hfits, ?_⟩
      have hlossy : decodeLossy tail = ['\uFFFD'] ++ decodeLossy (tail.drop width) := by
        rw [decodeLossy, hpieces]
        rfl
      rw [hdisplay, hlossy, ← List.drop_drop, hrest, String.ofList_append, String.append_assoc]
      rfl
  | unfinished hunfinished =>
      obtain rfl := Except.error.inj h
      refine ⟨String.ofList cs, htext, hwithin, hlongest, nofun, fun _ => ?_⟩
      refine ⟨hrest.symm ▸ hunfinished, ?_⟩
      rw [hdisplay, decodeLossy, hpieces]
      rfl

/-- The strict reading of a byte string gives the text that its bytes are the encoding of, and the
display prints it.  If there is none, the fault starts where the longest text at the front ends,
the display prints that text and one replacement character, and then whatever it prints for the
bytes behind the fault.  A display prints itself. -/
theorem readings_agree (b : ByteString) :
    (∀ t, b.toText = .ok t ↔ b.bytes = encoded t.toList) ∧
    (∀ t, b.toText = .ok t → b.display = t) ∧
    (∀ f, b.toText = .error f → ∃ t, Breaks b f t) ∧
    ∀ owned, (ByteString.mk (encoded b.display.toList) owned).display = b.display := by
  refine ⟨b.toText_eq_ok_iff, fun t h => ?_, fun f => exists_breaks, fun owned => ?_⟩
  · exact display_of_bytes_eq ((b.toText_eq_ok_iff t).1 h)
  · exact display_of_bytes_eq rfl

/-- A text before two bytes of an encoding that a text goes on after, and before two bytes of one
with which the input ends. -/
theorem readings_agree_brokenAndCut :
    (borrowed [0x6F, 0xE2, 0x82, 0x6B]).toText = .error ⟨1, some 2⟩ ∧
    (∃ t, Breaks (borrowed [0x6F, 0xE2, 0x82, 0x6B]) ⟨1, some 2⟩ t) ∧
    (borrowed [0xC3, 0xA9, 0xF0, 0x9F]).toText = .error ⟨2, none⟩ ∧
    (∃ t, Breaks (borrowed [0xC3, 0xA9, 0xF0, 0x9F]) ⟨2, none⟩ t) ∧
    (borrowed [0xC3, 0xA9]).toText = .ok "é" ∧ (borrowed [0xC3, 0xA9]).display = "é" := by
  have hbroken : (borrowed [0x6F, 0xE2, 0x82, 0x6B]).toText = .error ⟨1, some 2⟩ := by
    decide +kernel
  have hcut : (borrowed [0xC3, 0xA9, 0xF0, 0x9F]).toText = .error ⟨2, none⟩ := by decide +kernel
  have htext : (borrowed [0xC3, 0xA9]).toText = .ok "é" := by decide +kernel
  exact ⟨hbroken, (readings_agree _).2.2.1 _ hbroken, hcut, (readings_agree _).2.2.1 _ hcut,
    htext, (readings_agree _).2.1 _ htext⟩

end ByteString

end ScanKit
