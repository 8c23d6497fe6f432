import ScanKit.ByteString
import ScanKit.Scanner.Basic

/-!
# Slices of slices

A slice is refused where its bounds are the wrong way round within the string, and is a stretch of
the string everywhere else.  A slice of a slice is a stretch of the string that was sliced first, at
positions that `Extent.narrow` counts from the start of that string, and lies within the one before.
-/

namespace ScanKit.ByteString

/-- What a slice is asked for with. -/
structure Bounds where
  start : Nat
  stop : Nat
deriving DecidableEq, Repr

/-- The bounds are the wrong way round in a string of this length. -/
def Bounds.Inverts (b : Bounds) (length : Nat) : Prop := b.stop < length ∧ b.stop < b.start

theorem Bounds.not_inverts_iff (b : Bounds) (length : Nat) :
    ¬ b.Inverts length ↔ min b.start length ≤ min b.stop length := by
  unfold Inverts
  omega

/-! ## One slice -/

section One

variable {s : ByteString} {b : Bounds}

/-- The part of a string between bounds that are moved back to its end. -/
def clamped (s : ByteString) (b : Bounds) : List UInt8 :=
  s.bytes.extract (min b.start s.length) (min b.stop s.length)

theorem slice_of_inverts (h : b.Inverts s.length) :
    s.slice b.start b.stop = .error ⟨min b.start s.length, min b.stop s.length⟩ :=
  if_neg fun hle => (b.not_inverts_iff _).2 hle h

theorem slice_of_not_inverts (h : ¬ b.Inverts s.length) :
    s.slice b.start b.stop = .ok (borrowed (s.clamped b)) :=
  if_pos ((b.not_inverts_iff _).1 h)

theorem slice?_of_inverts (h : b.Inverts s.length) : s.slice? b.start b.stop = none :=
  if_neg fun hle => (b.not_inverts_iff _).2 hle h

theorem slice?_of_not_inverts (h : ¬ b.Inverts s.length) :
    s.slice? b.start b.stop = some (borrowed (s.clamped b)) :=
  if_pos ((b.not_inverts_iff _).1 h)

/-- A scanner moves a start that is past the stop back to it, and then there is nothing between. -/
theorem slice_of_source_eq {c : Scanner} (h : c.source = s.bytes) :
    c.slice b.start b.stop = ((s.slice? b.start b.stop).map bytes).getD [] := by
  have hlength : c.length = s.length := by rw [← Scanner.length_source, h, length]
  rw [Scanner.slice, hlength, h]
  by_cases hb : b.Inverts s.length
  · have hstart : min b.start (min b.stop s.length) = min b.stop s.length := by
      unfold Bounds.Inverts at hb
      omega
    rw [slice?_of_inverts hb, hstart, List.extract_eq_take_drop, Nat.sub_self]
    rfl
  · have hstart : min b.start (min b.stop s.length) = min b.start s.length := by
      unfold Bounds.Inverts at hb
      omega
    rw [slice?_of_not_inverts hb, hstart]
    rfl

end One

/-- The operations that take a part of a string agree on these bounds. -/
structure SlicedAlike (s : ByteString) (b : Bounds) : Prop where
  refused_iff : (∃ e, s.slice b.start b.stop = .error e) ↔ s.slice? b.start b.stop = none
  none_iff : s.slice? b.start b.stop = none ↔ b.stop < s.length ∧ b.stop < b.start
  sliced : ∀ t, s.slice? b.start b.stop = some t → s.slice b.start b.stop = .ok t ∧
    t.bytes = s.bytes.extract (min b.start s.length) (min b.stop s.length)
  scanner : ∀ c : Scanner, c.source = s.bytes →
    c.slice b.start b.stop = ((s.slice? b.start b.stop).map bytes).getD []

theorem slicedAlike (s : ByteString) (b : Bounds) : SlicedAlike s b := by
  have hscanner : ∀ c : Scanner, c.source = s.bytes →
      c.slice b.start b.stop = ((s.slice? b.start b.stop).map bytes).getD [] :=
    fun _ => slice_of_source_eq
  by_cases h : b.Inverts s.length
  · have hslice := slice_of_inverts h
    have hslice? := slice?_of_inverts h
    exact ⟨⟨fun _ => hslice?, fun _ => ⟨_, hslice⟩⟩, ⟨fun _ => h, fun _ => hslice?⟩,
      by simp [hslice?], hscanner⟩
  · have hslice := slice_of_not_inverts h
    have hslice? := slice?_of_not_inverts h
    exact ⟨by simp [hslice, hslice?], ⟨by simp [hslice?], fun hb => absurd hb h⟩,
      by simp [hslice, hslice?, borrowed, clamped], hscanner⟩

/-! ## Chains of slices -/

/-- Slices of slices, each of the one before, up to the first that is refused. -/
def sliceEach (s : ByteString) : List Bounds → Except Inverted ByteString
  | [] => .ok s
  | b :: bs => match s.slice b.start b.stop with
    | .ok t => t.sliceEach bs
    | .error e => .error e

/-- A stretch of a string, from one position up to another. -/
structure Extent where
  lo : Nat
  hi : Nat
deriving DecidableEq, Repr

namespace Extent

def length (e : Extent) : Nat := e.hi - e.lo

/-- The stretch between bounds that are counted from the start of this one. -/
def narrow (e : Extent) (b : Bounds) : Extent :=
  ⟨e.lo + min b.start e.length, e.lo + min b.stop e.length⟩

/-- The stretch that is left after bounds were each counted from the start of the one before. -/
def narrowEach (e : Extent) (bs : List Bounds) : Extent := bs.foldl narrow e

/-- No bounds are the wrong way round in the stretch that they are counted in. -/
def Upright : Extent → List Bounds → Prop
  | _, [] => True
  | e, b :: bs => ¬ b.Inverts e.length ∧ (e.narrow b).Upright bs

/-- One stretch lies within another. -/
structure Within (e outer : Extent) : Prop where
  lo_le : outer.lo ≤ e.lo
  lo_le_hi : e.lo ≤ e.hi
  hi_le : e.hi ≤ outer.hi

theorem Within.trans {e middle outer : Extent} (h : e.Within middle) (h' : middle.Within outer) :
    e.Within outer where
  lo_le := Nat.le_trans h'.lo_le h.lo_le
  lo_le_hi := h.lo_le_hi
  hi_le := Nat.le_trans h.hi_le h'.hi_le

theorem within_narrow {e : Extent} {b : Bounds} (he : e.lo ≤ e.hi) (hb : ¬ b.Inverts e.length) :
    (e.narrow b).Within e where
  lo_le := Nat.le_add_right ..
  lo_le_hi := Nat.add_le_add_left ((b.not_inverts_iff _).1 hb) _
  hi_le := by
    have hstop := Nat.add_le_add_left (Nat.min_le_right b.stop e.length) e.lo
    rwa [length, Nat.add_sub_cancel' he] at hstop

end Extent

def extent (s : ByteString) : Extent := ⟨0, s.length⟩

/-- A byte string is what another has in a stretch of it. -/
structure Shows (whole : ByteString) (e : Extent) (s : ByteString) : Prop where
  within : e.Within whole.extent
  bytes_eq : s.bytes = whole.bytes.extract e.lo e.hi

section Chain

variable {whole s t : ByteString} {e : Extent} {b : Bounds} {bs : List Bounds}

theorem shows_self (s : ByteString) : Shows s s.extent s where
  within := ⟨Nat.le_refl _, Nat.zero_le _, Nat.le_refl _⟩
  bytes_eq := List.take_length.symm

theorem Shows.length_eq (h : Shows whole e s) : s.length = e.length := by
  have hhi := h.within.hi_le
  rw [length, h.bytes_eq, List.length_take, List.length_drop]
  exact Nat.min_eq_left (Nat.sub_le_sub_right hhi _)

/-- Between bounds in a stretch lies what the whole has in the narrower one. -/
theorem Shows.clamped (h : Shows whole e s) (hb : ¬ b.Inverts e.length) :
    Shows whole (e.narrow b) (borrowed (s.clamped b)) where
  within := (Extent.within_narrow h.within.lo_le_hi hb).trans h.within
  bytes_eq := by
    have hstop : min b.stop e.length ≤ e.length := Nat.min_le_right ..
    show s.clamped b = _
    rw [ByteString.clamped, h.length_eq, h.bytes_eq]
    simp only [Extent.narrow, Extent.length, List.extract_eq_take_drop, List.drop_take,
      List.take_take, List.drop_drop] at hstop ⊢
    congr 1
    omega

/-- A chain of slices is refused exactly if bounds are the wrong way round in their stretch. -/
theorem Shows.sliceEach_iff (h : Shows whole e s) :
    (∃ t, s.sliceEach bs = .ok t) ↔ e.Upright bs := by
  induction bs generalizing e s with
  | nil => exact ⟨fun _ => trivial, fun _ => ⟨s, rfl⟩⟩
  | cons b bs ih =>
      rw [sliceEach, Extent.Upright]
      by_cases hb : b.Inverts e.length
      · rw [slice_of_inverts (h.length_eq ▸ hb)]
        simp [hb]
      · rw [slice_of_not_inverts (h.length_eq ▸ hb)]
        simpa [hb] using ih (h.clamped hb)

/-- A chain of slices that comes to an end comes to the last stretch, which is within the first. -/
theorem Shows.sliceEach (h : Shows whole e s) (hslices : s.sliceEach bs = .ok t) :
    Shows whole (e.narrowEach bs) t ∧ (e.narrowEach bs).Within e := by
  induction bs generalizing e s with
  | nil =>
      cases hslices
      exact ⟨h, Nat.le_refl _, h.within.lo_le_hi, Nat.le_refl _⟩
  | cons b bs ih =>
      by_cases hb : b.Inverts e.length
      · rw [ByteString.sliceEach, slice_of_inverts (h.length_eq ▸ hb)] at hslices
        cases hslices
      · rw [ByteString.sliceEach, slice_of_not_inverts (h.length_eq ▸ hb)] at hslices
        obtain ⟨hshows, hwithin⟩ := ih (h.clamped hb) hslices
        exact ⟨hshows, hwithin.trans (Extent.within_narrow h.within.lo_le_hi hb)⟩

/-- The first slices of a chain are a chain, and the others go on from what it comes to. -/
theorem exists_sliceEach_of_append {before after : List Bounds}
    (h : s.sliceEach (before ++ after) = .ok t) :
    ∃ u, s.sliceEach before = .ok u ∧ u.sliceEach after = .ok t := by
  induction before generalizing s with
  | nil => exact ⟨s, rfl, h⟩
  | cons b before ih =>
      rw [List.cons_append, ByteString.sliceEach] at h
      rw [ByteString.sliceEach]
      cases hslice : s.slice b.start b.stop with
      | error e =>
          rw [hslice] at h
          cases h
      | ok u =>
          rw [hslice] at h
          exact ih h

end Chain

/-- The slices of a string that its operations take are the same, and refused, missing and empty
for the same bounds.  A chain of slices is refused exactly if one of them is, and comes to the
stretch of the string that the bounds narrow it to, which lies within each stretch on the way. -/
theorem slices_compose (s : ByteString) :
    (∀ b : Bounds, SlicedAlike s b) ∧
    ∀ bs : List Bounds, ((∃ t, s.sliceEach bs = .ok t) ↔ s.extent.Upright bs) ∧
      ∀ t, s.sliceEach bs = .ok t →
        t.bytes = s.bytes.extract (s.extent.narrowEach bs).lo (s.extent.narrowEach bs).hi ∧
        ∀ before after, bs = before ++ after →
          (s.extent.narrowEach bs).Within (s.extent.narrowEach before) := by
  refine ⟨slicedAlike s, fun bs => ⟨s.shows_self.sliceEach_iff, fun t h => ?_⟩⟩
  refine ⟨(s.shows_self.sliceEach h).1.bytes_eq, ?_⟩
  rintro before after rfl
  obtain ⟨u, hbefore, hafter⟩ := exists_sliceEach_of_append h
  have hwithin := ((s.shows_self.sliceEach hbefore).1.sliceEach hafter).2
  rwa [Extent.narrowEach, Extent.narrowEach, ← List.foldl_append] at hwithin

/-- Three slices, the last two of which ask for more than there is. -/
def overlong : List Bounds := [⟨1, 4⟩, ⟨1, 9⟩, ⟨1, 7⟩]

/-- Of five bytes they leave the fourth, which the first slice has too. -/
theorem slices_compose_overlong :
    (borrowed [0x61, 0x62, 0x63, 0x64, 0x65]).sliceEach overlong = .ok (borrowed [0x64]) ∧
      (borrowed [0x64]).bytes = [0x61, 0x62, 0x63, 0x64, 0x65].extract 3 4 ∧
      (⟨3, 4⟩ : Extent).Within ⟨1, 4⟩ := by
  have hslices : (borrowed [0x61, 0x62, 0x63, 0x64, 0x65]).sliceEach overlong =
      .ok (borrowed [0x64]) := rfl
  obtain ⟨hbytes, hwithin⟩ := ((slices_compose _).2 overlong).2 _ hslices
  exact ⟨hslices, hbytes, hwithin [⟨1, 4⟩] [⟨1, 9⟩, ⟨1, 7⟩] rfl⟩

end ScanKit.ByteString
