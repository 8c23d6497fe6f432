import ScanKit.ByteString

/-!
# Order, equality and starts of byte strings

Byte strings are ordered by the first byte in which they differ, and one that ends where the other
goes on comes first.  So what starts a byte string is not above it, and byte strings with a common
start have none without it between them.
-/

namespace ScanKit.ByteString

/-! ## Lists of bytes -/

/-- The comparison of lists of bytes is the lexicographic order. -/
theorem compare_eq_lt_iff_lex (xs ys : List UInt8) :
    compare xs ys = .lt ↔ List.Lex (· < ·) xs ys := by
  induction xs generalizing ys with
  | nil => cases ys <;> simp
  | cons x xs ih =>
      cases ys with
      | nil => simp
      | cons y ys =>
          rw [List.compare_cons_cons, Ordering.then_eq_lt, ih, List.cons_lex_cons_iff,
            Std.compare_eq_lt, Std.LawfulEqOrd.compare_eq_iff_eq]

/-- A list does not come after one that it starts. -/
theorem isLE_compare_of_prefix {xs ys : List UInt8} (h : xs <+: ys) :
    (compare xs ys).isLE = true := by
  obtain ⟨more, rfl⟩ := h
  induction xs with
  | nil => cases more <;> rfl
  | cons x xs ih =>
      rw [List.cons_append, List.compare_cons_cons, Std.ReflOrd.compare_self, Ordering.eq_then]
      exact ih

/-- What starts two lists starts the lists between them. -/
theorem prefix_of_between {start xs ys zs : List UInt8} (hxz : (compare xs zs).isLE = true)
    (hzy : (compare zs ys).isLE = true) (hx : start <+: xs) (hy : start <+: ys) :
    start <+: zs := by
  induction start generalizing xs ys zs with
  | nil => exact List.nil_prefix
  | cons b start ih =>
      obtain ⟨xs, rfl, hxs⟩ := List.cons_prefix_iff.1 hx
      obtain ⟨ys, rfl, hys⟩ := List.cons_prefix_iff.1 hy
      cases zs with
      | nil => cases hxz
      | cons z zs =>
          rw [List.compare_cons_cons] at hxz hzy
          -- the first byte between `b` and `b` is `b`
          obtain rfl : b = z := Std.LawfulEqOrd.eq_of_compare (Std.OrientedCmp.isLE_antisymm
            (Ordering.isLE_left_of_isLE_then hxz) (Ordering.isLE_left_of_isLE_then hzy))
          rw [Std.ReflOrd.compare_self, Ordering.eq_then] at hxz hzy
          exact List.cons_prefix_cons.2 ⟨rfl, ih hxz hzy hxs hys⟩

/-! ## Byte strings -/

theorem compare_eq_bytes (a b : ByteString) : compare a b = compare a.bytes b.bytes := rfl

theorem beq_eq_bytes (a b : ByteString) : (a == b) = (a.bytes == b.bytes) := rfl

theorem beq_iff_bytes_eq {a b : ByteString} : (a == b) = true ↔ a.bytes = b.bytes := by
  rw [beq_eq_bytes, beq_iff_eq]

theorem startsWith_iff_prefix_bytes {a : ByteString} {start : List UInt8} :
    a.startsWith start = true ↔ start <+: a.bytes :=
  List.isPrefixOf_iff_prefix

theorem le_iff_isLE {a b : ByteString} : a ≤ b ↔ (compare a b).isLE = true := Iff.rfl

theorem lt_iff_isLT {a b : ByteString} : a < b ↔ (compare a b).isLT = true := Iff.rfl

/-- The order turns round with its operands. -/
theorem compare_swap (a b : ByteString) : compare b a = (compare a b).swap :=
  Std.OrientedOrd.eq_swap (a := b.bytes)

/-- Order, equality and the test for a start go together on three byte strings.  Borrowed and owned
makes no difference to them. -/
structure FitTogether (a b c : ByteString) : Prop where
  bytes_only : ∀ a' b' : ByteString, a'.bytes = a.bytes → b'.bytes = b.bytes →
    compare a' b' = compare a b ∧ (a' == b') = (a == b) ∧
      a'.startsWith b'.bytes = a.startsWith b.bytes
  compare_swap : compare b a = (compare a b).swap
  compare_eq_iff : compare a b = .eq ↔ (a == b) = true
  beq_iff : (a == b) = true ↔ a.length = b.length ∧ ∀ i : Nat, a.bytes[i]? = b.bytes[i]?
  /-- The first byte in which they differ decides, and one that the other only goes on after comes
  first. -/
  lt_iff_lex : a < b ↔ List.Lex (· < ·) a.bytes b.bytes
  total : a ≤ b ∨ b ≤ a
  trans : a ≤ b → b ≤ c → a ≤ c
  antisymm : a ≤ b → b ≤ a → (a == b) = true
  partialCompare_eq : a.partialCompare b = some (compare a b)
  lt_iff : a < b ↔ compare a b = .lt
  le_iff : a ≤ b ↔ compare a b = .lt ∨ compare a b = .eq
  gt_iff : a > b ↔ compare a b = .gt
  ge_iff : a ≥ b ↔ compare a b = .gt ∨ compare a b = .eq
  startsWith_iff : a.startsWith b.bytes = true ↔
    b.length ≤ a.length ∧ a.bytes.take b.length = b.bytes
  startsWith_refl : a.startsWith a.bytes = true
  startsWith_trans : a.startsWith b.bytes = true → b.startsWith c.bytes = true →
    a.startsWith c.bytes = true
  startsWith_antisymm : a.startsWith b.bytes = true → b.startsWith a.bytes = true →
    (a == b) = true
  le_of_startsWith : b.startsWith a.bytes = true → a ≤ b
  /-- What has a start in common lies together. -/
  contiguous : ∀ start, a ≤ c → c ≤ b → a.startsWith start = true → b.startsWith start = true →
    c.startsWith start = true

section Two

variable {a b : ByteString}

theorem compare_eq_eq_iff : compare a b = .eq ↔ (a == b) = true := by
  rw [compare_eq_bytes, Std.LawfulEqOrd.compare_eq_iff_eq, beq_iff_bytes_eq]

theorem beq_iff_getElem? :
    (a == b) = true ↔ a.length = b.length ∧ ∀ i : Nat, a.bytes[i]? = b.bytes[i]? := by
  rw [beq_iff_bytes_eq]
  constructor
  · intro h
    exact ⟨congrArg List.length h, fun i => congrArg (·[i]?) h⟩
  · rintro ⟨-, h⟩
    exact List.ext_getElem? h

theorem lt_iff_lex : a < b ↔ List.Lex (· < ·) a.bytes b.bytes := by
  rw [lt_iff_isLT, Ordering.isLT_iff_eq_lt, compare_eq_bytes, compare_eq_lt_iff_lex]

theorem le_or_ge (a b : ByteString) : a ≤ b ∨ b ≤ a := by
  rw [le_iff_isLE, le_iff_isLE, a.compare_swap b]
  cases compare a b <;> simp

theorem gt_iff_compare : a > b ↔ compare a b = .gt := by
  rw [gt_iff_lt, lt_iff_isLT, a.compare_swap b]
  cases compare a b <;> simp

theorem ge_iff_compare : a ≥ b ↔ compare a b = .gt ∨ compare a b = .eq := by
  rw [ge_iff_le, le_iff_isLE, a.compare_swap b]
  cases compare a b <;> simp

theorem startsWith_iff_take : a.startsWith b.bytes = true ↔
    b.length ≤ a.length ∧ a.bytes.take b.length = b.bytes := by
  rw [startsWith_iff_prefix_bytes]
  constructor
  · intro h
    exact ⟨h.length_le, (List.prefix_iff_eq_take.1 h).symm⟩
  · rintro ⟨-, htake⟩
    exact List.prefix_iff_eq_take.2 htake.symm

end Two

/-- Byte strings are in one order, whatever they borrow or own: the order is total, equality is
where it puts neither first, and all comparisons show it.  What starts a byte string is not above
it, and what has a start in common has nothing between it that has not. -/
theorem order_equality_starts_fit (a b c : ByteString) : FitTogether a b c where
  bytes_only := by
    intro a' b' ha hb
    rw [compare_eq_bytes, beq_eq_bytes, startsWith, ha, hb]
    exact ⟨rfl, rfl, rfl⟩
  compare_swap := a.compare_swap b
  compare_eq_iff := compare_eq_eq_iff
  beq_iff := beq_iff_getElem?
  lt_iff_lex := lt_iff_lex
  total := le_or_ge a b
  trans := Std.TransOrd.isLE_trans (a := a.bytes)
  antisymm hab hba := compare_eq_eq_iff.1 (Std.OrientedCmp.isLE_antisymm (a := a.bytes) hab hba)
  partialCompare_eq := rfl
  lt_iff := by rw [lt_iff_isLT, Ordering.isLT_iff_eq_lt]
  le_iff := by rw [le_iff_isLE, Ordering.isLE_iff_eq_lt_or_eq_eq]
  gt_iff := gt_iff_compare
  ge_iff := ge_iff_compare
  startsWith_iff := startsWith_iff_take
  startsWith_refl := startsWith_iff_prefix_bytes.2 List.prefix_rfl
  startsWith_trans := by
    simp only [startsWith_iff_prefix_bytes]
    exact fun hba hcb => hcb.trans hba
  startsWith_antisymm := by
    simp only [startsWith_iff_prefix_bytes, beq_iff_bytes_eq]
    exact fun hba hab => hab.eq_of_length_le hba.length_le
  le_of_startsWith := by
    rw [startsWith_iff_prefix_bytes]
    exact isLE_compare_of_prefix
  contiguous := by
    intro start hac hcb ha hb
    rw [startsWith_iff_prefix_bytes] at ha hb ⊢
    exact prefix_of_between hac hcb ha hb

/-- An owned byte string with a byte past ASCII lies between two borrowed ones that start alike, the
first of which it goes on after. -/
theorem order_equality_starts_fit_highByte :
    borrowed [0x61, 0x62] ≤ own [0x61, 0x62, 0x80] ∧
      own [0x61, 0x62, 0x80] ≤ borrowed [0x61, 0x62, 0xFF, 0x00] ∧
      (own [0x61, 0x62, 0x80]).startsWith [0x61, 0x62] = true ∧
      borrowed [0x61, 0x62] ≤ borrowed [0x61, 0x62, 0xFF, 0x00] := by
  have hfit := order_equality_starts_fit (borrowed [0x61, 0x62]) (borrowed [0x61, 0x62, 0xFF, 0x00])
    (own [0x61, 0x62, 0x80])
  have hfirst : borrowed [0x61, 0x62] ≤ own [0x61, 0x62, 0x80] := by decide
  have hsecond : own [0x61, 0x62, 0x80] ≤ borrowed [0x61, 0x62, 0xFF, 0x00] := by decide
  exact ⟨hfirst, hsecond, hfit.contiguous _ hfirst hsecond rfl rfl, hfit.le_of_startsWith rfl⟩

end ScanKit.ByteString
