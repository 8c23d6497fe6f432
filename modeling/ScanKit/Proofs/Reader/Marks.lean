import ScanKit.Proofs.Reader.Interruptions
import ScanKit.Proofs.Source.Tape

/-!
# What a reader hands out, mark by mark

Two readers are `Alike` if they hand out the same bytes and the same failures in the same order, in
whatever pieces and with whatever interruptions.  Readers that never end are compared too, by all
their beginnings, so a reader is also given with a limit on its marks: under a limit every reader
comes to an end, and what it hands out up to there is a finite tape.
-/

universe u v

namespace ScanKit

/-! ## Scripts -/

/-- What a script comes to: bytes and failures up to the first end, without interruptions. -/
def ReadEvent.marks : List ReadEvent → List Mark
  | [] => []
  | .data [] :: _ => []
  | .data (b :: bs) :: events => (b :: bs).map .byte ++ marks events
  | .failure f :: events => if f.isInterruption then marks events else .failure f :: marks events

namespace Reader

/-- Pending bytes come in as many pieces as they take, and before all that follows them. -/
theorem yields_pending {events : List ReadEvent} {ms : List Mark}
    (h : ∀ calls, Yields (ScriptedReader.mk [] events calls) ms) (pending : List UInt8)
    (calls : Nat) : Yields (ScriptedReader.mk pending events calls) (pending.map .byte ++ ms) := by
  induction hlength : pending.length using Nat.strongRecOn generalizing pending calls with
  | _ n ih =>
      cases pending with
      | nil => exact h calls
      | cons b bs =>
          have hfetch : fetch (ScriptedReader.mk (b :: bs) events calls) chunk =
              (.bytes (b :: bs.take 127), ScriptedReader.mk (bs.drop 127) events (calls + 1)) := rfl
          have hrest := ih (bs.drop 127).length
            (by rw [← hlength, List.length_drop, List.length_cons]; omega)
            (bs.drop 127) (calls + 1) rfl
          have hall := Yields.bytes hfetch hrest
          rwa [← List.append_assoc, ← List.map_append, List.cons_append,
            List.take_append_drop] at hall

/-- A script yields what it comes to. -/
theorem yields_script (events : List ReadEvent) (calls : Nat) :
    Yields (ScriptedReader.mk [] events calls) (ReadEvent.marks events) := by
  induction events generalizing calls with
  | nil => exact .ended rfl
  | cons e events ih =>
      cases e with
      | data bs =>
          cases bs with
          | nil => exact .ended rfl
          | cons b bs =>
              -- The bytes of the event are handed out as if they had been pending before the call.
              have hfetch : fetch (ScriptedReader.mk [] (.data (b :: bs) :: events) calls) chunk =
                  fetch (ScriptedReader.mk (b :: bs) events calls) chunk := rfl
              exact (yields_pending ih (b :: bs) calls).of_fetch_eq hfetch
      | failure f =>
          have hread : read (ScriptedReader.mk [] (.failure f :: events) calls) chunk =
              (.failure f, ScriptedReader.mk [] events (calls + 1)) := rfl
          cases hf : f.isInterruption with
          | true =>
              rw [ReadEvent.marks, if_pos hf]
              exact (ih (calls + 1)).of_fetch_eq (fetch_of_interruption hread hf)
          | false =>
              rw [ReadEvent.marks, if_neg (by simp [hf])]
              exact .failure (fetch_of_failure hread hf) (ih (calls + 1))

/-! ## The first marks of a reader -/

section Marks

variable {ρ : Type u} [Reader ρ]

/-- The marks of so many calls that get past interruptions, none of them after the end. -/
def marksOf : Nat → ρ → List Mark
  | 0, _ => []
  | calls + 1, r => match fetch r chunk with
    | (.bytes [], _) => []
    | (.bytes (b :: bs), r) => (b :: bs).map .byte ++ marksOf calls r
    | (.failure f, r) => .failure f :: marksOf calls r

/-- The first marks of a reader.  Each call that does not come to the end brings one at least. -/
def firstMarks (n : Nat) (r : ρ) : List Mark := (marksOf n r).take n

/-- More calls add nothing to the first marks. -/
theorem take_marksOf {k n : Nat} (h : k ≤ n) (r : ρ) : (marksOf n r).take k = firstMarks k r := by
  induction k generalizing n r with
  | zero => rfl
  | succ k ih =>
      obtain ⟨n, rfl⟩ : ∃ m, n = m + 1 := ⟨n - 1, by omega⟩
      have hk : k ≤ n := Nat.le_of_succ_le_succ h
      simp only [firstMarks, marksOf]
      rcases fetch r chunk with ⟨(_ | ⟨b, bs⟩) | f, r'⟩
      · rfl
      · -- The bytes of the call leave `k - bs.length` of the `k` marks to the calls behind it.
        have hrest : (marksOf n r').take (k - bs.length) =
            (marksOf k r').take (k - bs.length) := by
          have htake := congrArg (List.take (k - bs.length)) (ih hk r')
          simpa only [firstMarks, List.take_take, Nat.min_eq_left (Nat.sub_le k bs.length)]
            using htake
        simp [List.take_append, hrest]
      · simpa [firstMarks] using ih hk r'

/-- The first marks of a reader that comes to an end. -/
theorem Yields.firstMarks_eq {r : ρ} {ms : List Mark} (h : Yields r ms) (n : Nat) :
    firstMarks n r = ms.take n := by
  induction h generalizing n with
  | ended hfetch => cases n <;> simp [firstMarks, marksOf, hfetch]
  | @bytes r r' b bs ms hfetch _ ih =>
      cases n with
      | zero => rfl
      | succ n =>
          have hrest : (marksOf n r').take (n - bs.length) = ms.take (n - bs.length) := by
            rw [take_marksOf (Nat.sub_le n bs.length), ih]
          simp [firstMarks, marksOf, hfetch, List.take_append, hrest]
  | @failure r r' f ms hfetch _ ih =>
      cases n with
      | zero => rfl
      | succ n => simpa [firstMarks, marksOf, hfetch] using ih n

end Marks

/-- The two readers hand out the same bytes and failures in the same order, be there an end or
not. -/
def Alike {ρ₁ : Type u} {ρ₂ : Type v} [Reader ρ₁] [Reader ρ₂] (r₁ : ρ₁) (r₂ : ρ₂) : Prop :=
  ∀ n, firstMarks n r₁ = firstMarks n r₂

/-- Readers that come to an end are alike if they yield the same. -/
theorem Yields.alike_iff {ρ₁ : Type u} {ρ₂ : Type v} [Reader ρ₁] [Reader ρ₂] {r₁ : ρ₁} {r₂ : ρ₂}
    {ms₁ ms₂ : List Mark} (h₁ : Yields r₁ ms₁) (h₂ : Yields r₂ ms₂) :
    Alike r₁ r₂ ↔ ms₁ = ms₂ := by
  constructor
  · intro h
    have htake := h (ms₁.length + ms₂.length)
    rwa [h₁.firstMarks_eq, h₂.firstMarks_eq, List.take_of_length_le (Nat.le_add_right ..),
      List.take_of_length_le (Nat.le_add_left ..)] at htake
  · rintro rfl n
    rw [h₁.firstMarks_eq, h₂.firstMarks_eq]

/-- Scripts are alike if they come to the same. -/
theorem alike_script_iff (events₁ events₂ : List ReadEvent) :
    Alike (ScriptedReader.ofEvents events₁) (ScriptedReader.ofEvents events₂) ↔
      ReadEvent.marks events₁ = ReadEvent.marks events₂ :=
  (yields_script events₁ 0).alike_iff (yields_script events₂ 0)

/-! ## Readers with a limit -/

/-- A reader that hands out no more than so many marks of another one and then ends. -/
structure Limited (ρ : Type u) where
  inner : ρ
  limit : Nat

namespace Limited

variable {ρ : Type u} [Reader ρ]

/-- What a reply uses of a limit. -/
def cost : Reply → Nat
  | .bytes bs => bs.length
  | .failure _ => 1

/-- As much of a reply as a limit allows. -/
def cut : Nat → Reply → Reply
  | limit, .bytes bs => .bytes (bs.take limit)
  | 0, .failure _ => .bytes []
  | _ + 1, .failure f => .failure f

/-- A limited reader gets past the interruptions of the other one by itself. -/
instance : Reader (Limited ρ) where
  read r room := (cut r.limit (fetch r.inner room).1,
    ⟨(fetch r.inner room).2, r.limit - cost (fetch r.inner room).1⟩)
  left r := left r.inner
  interruptions _ := 0

theorem fetch_eq (r : Limited ρ) (room : Nat) :
    fetch r room = (cut r.limit (fetch r.inner room).1,
      ⟨(fetch r.inner room).2, r.limit - cost (fetch r.inner room).1⟩) := rfl

theorem cut_cost_add (reply : Reply) (n : Nat) : cut (cost reply + n) reply = reply := by
  cases reply with
  | bytes bs => rw [cut, cost, List.take_of_length_le (Nat.le_add_right ..)]
  | failure f => rw [cost, Nat.add_comm, cut]

/-- Within the limit the reader does what the other one does. -/
theorem fetch_of_enough (r : ρ) (room n : Nat) :
    fetch (Limited.mk r (cost (fetch r room).1 + n)) room =
      ((fetch r room).1, Limited.mk (fetch r room).2 n) := by
  rw [fetch_eq]
  simp only [cut_cost_add, Nat.add_sub_cancel_left]

/-- Under a limit a reader yields its first marks. -/
theorem yields (r : ρ) (n : Nat) : Yields (Limited.mk r n) (firstMarks n r) := by
  induction n using Nat.strongRecOn generalizing r with
  | _ n ih =>
      have hfetch := fetch_eq (Limited.mk r n) chunk
      cases n with
      | zero =>
          rcases hreply : fetch r chunk with ⟨bs | f, r'⟩ <;> rw [hreply] at hfetch
          · exact .ended hfetch
          · exact .ended hfetch
      | succ n =>
          rcases hreply : fetch r chunk with ⟨(_ | ⟨b, bs⟩) | f, r'⟩ <;> rw [hreply] at hfetch
          · have hnone : firstMarks (n + 1) r = [] := by simp [firstMarks, marksOf, hreply]
            rw [hnone]
            exact .ended hfetch
          · have hmarks : firstMarks (n + 1) r =
                (b :: bs.take n).map .byte ++ firstMarks (n - bs.length) r' := by
              rw [← take_marksOf (Nat.sub_le n bs.length)]
              simp [firstMarks, marksOf, hreply, List.take_append]
            have hrest := ih (n - bs.length) (by omega) r'
            rw [hmarks]
            refine .bytes ?_ hrest
            simpa [cut, cost] using hfetch
          · have hmarks : firstMarks (n + 1) r = .failure f :: firstMarks n r' := by
              simp [firstMarks, marksOf, hreply]
            rw [hmarks]
            exact .failure hfetch (ih n (Nat.lt_succ_self n) r')

end Limited

end Reader

end ScanKit
