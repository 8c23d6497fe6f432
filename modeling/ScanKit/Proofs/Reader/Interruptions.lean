import ScanKit.Proofs.Loop
import ScanKit.Reader.Memory

/-!
# Getting past interruptions

A call that is interrupted is made again, in a loop without a bound on its turns (`fetchTurn`).
Over a lawful reader this loop ends, and with what `fetch` answers (`fetch_endsWithin`).  So whatever
holds of such a call is shown by induction on the interruptions (`fetch_induction`), and the bound on
them is seen no more.  Over a reader that interrupts for ever the loop does not end
(`not_endsWithin_of_interrupted`), and what `fetch` answers there says nothing.
-/

universe u

namespace ScanKit.Reader

variable {ρ : Type u} [Reader ρ] {r r' : ρ} {room : Nat} {f : ReadFailure}

/-! ## The loop -/

/-- One turn of a call that is made again until it is not interrupted. -/
def fetchTurn (room : Nat) (r : ρ) : (Reply × ρ) ⊕ ρ := match read r room with
  | (.bytes bs, r) => .inl (.bytes bs, r)
  | (.failure f, r) => if f.isInterruption then .inr r else .inl (.failure f, r)

/-- The loop ends with the reply that was read in its last turn. -/
theorem read_eq_of_fetchTurn {result : Reply × ρ} (h : fetchTurn room r = .inl result) :
    read r room = result ∧ ∀ f, result.1 = .failure f → f.isInterruption = false := by
  unfold fetchTurn at h
  rcases hread : read r room with ⟨bs | f, r'⟩
  · rw [hread] at h
    cases h
    exact ⟨rfl, nofun⟩
  · rw [hread] at h
    cases hf : f.isInterruption with
    | true => simp [hf] at h
    | false =>
        simp only [hf, Bool.false_eq_true, if_false, Sum.inl.injEq] at h
        subst h
        refine ⟨rfl, ?_⟩
        rintro _ ⟨⟩
        exact hf

/-- The loop goes on behind an interruption. -/
theorem read_of_fetchTurn (h : fetchTurn room r = .inr r') :
    ∃ f, f.isInterruption = true ∧ read r room = (.failure f, r') := by
  unfold fetchTurn at h
  rcases hread : read r room with ⟨bs | f, r''⟩
  · rw [hread] at h
    cases h
  · rw [hread] at h
    cases hf : f.isInterruption with
    | true =>
        simp only [hf, if_true, Sum.inr.injEq] at h
        exact ⟨f, hf, by rw [h]⟩
    | false => simp [hf] at h

theorem fetchTurn_of_interruption (hread : read r room = (.failure f, r'))
    (hf : f.isInterruption = true) : fetchTurn room r = .inr r' := by
  simp only [fetchTurn, hread, hf, if_true]

theorem retry_succ (tries : Nat) (r : ρ) :
    retry room (tries + 1) r = match fetchTurn room r with
      | .inl result => result
      | .inr r' => retry room tries r' := by
  rw [retry, fetchTurn]
  rcases read r room with ⟨bs | f, r'⟩
  · rfl
  · cases hf : f.isInterruption <;> simp [hf]

/-! ## Lawful readers -/

section Lawful

variable [Lawful ρ]

/-- As many tries as there can be interruptions get past them. -/
theorem retry_endsWithin {tries : Nat} (h : interruptions r ≤ tries) :
    EndsWithin (fetchTurn room) (tries + 1) r (retry room tries r) := by
  induction tries generalizing r with
  | zero =>
      cases hturn : fetchTurn room r with
      | inl result =>
          obtain ⟨rfl, -⟩ := read_eq_of_fetchTurn hturn
          exact .done hturn
      | inr r' =>
          obtain ⟨f, hf, hread⟩ := read_of_fetchTurn hturn
          have hlt := Lawful.interruptions_lt hread hf
          exact absurd (Nat.lt_of_lt_of_le hlt h) (Nat.not_lt_zero _)
  | succ tries ih =>
      rw [retry_succ]
      cases hturn : fetchTurn room r with
      | inl result => exact .done hturn
      | inr r' =>
          obtain ⟨f, hf, hread⟩ := read_of_fetchTurn hturn
          have hlt := Lawful.interruptions_lt hread hf
          exact .more hturn (ih (Nat.le_of_lt_succ (Nat.lt_of_lt_of_le hlt h)))

/-- The loop ends, and with what is fetched. -/
theorem fetch_endsWithin (r : ρ) (room : Nat) :
    EndsWithin (fetchTurn room) (interruptions r + 1) r (fetch r room) :=
  retry_endsWithin (Nat.le_refl _)

/-- What is fetched comes from a call that is not interrupted, behind interruptions. -/
theorem fetch_induction {P : ρ → Reply × ρ → Prop}
    (hdone : ∀ r result, read r room = result →
      (∀ f, result.1 = .failure f → f.isInterruption = false) → P r result)
    (hmore : ∀ r r' f result, read r room = (.failure f, r') → f.isInterruption = true →
      P r' result → P r result) (r : ρ) : P r (fetch r room) := by
  have hends := fetch_endsWithin r room
  generalize fetch r room = result at hends ⊢
  generalize interruptions r + 1 = turns at hends
  induction hends with
  | done hbody =>
      obtain ⟨hread, hlast⟩ := read_eq_of_fetchTurn hbody
      exact hdone _ _ hread hlast
  | more hbody _ ih =>
      obtain ⟨f, hf, hread⟩ := read_of_fetchTurn hbody
      exact hmore _ _ f _ hread hf ih

/-- Behind an interruption the call is made again. -/
theorem fetch_of_interruption (hread : read r room = (.failure f, r'))
    (hf : f.isInterruption = true) : fetch r room = fetch r' room := by
  have hturn := fetchTurn_of_interruption hread hf
  exact (fetch_endsWithin r room).unique (.more hturn (fetch_endsWithin r' room))

end Lawful

/-- A loop that ends in its first turn ends with what is fetched, also over a reader that is not
lawful. -/
theorem fetch_of_fetchTurn {result : Reply × ρ} (h : fetchTurn room r = .inl result) :
    fetch r room = result := by
  unfold fetch
  cases interruptions r with
  | zero => exact (read_eq_of_fetchTurn h).1
  | succ tries => rw [retry_succ, h]

theorem fetch_of_bytes {bs : List UInt8} (hread : read r room = (.bytes bs, r')) :
    fetch r room = (.bytes bs, r') :=
  fetch_of_fetchTurn (by simp only [fetchTurn, hread])

theorem fetch_of_failure (hread : read r room = (.failure f, r'))
    (hf : f.isInterruption = false) : fetch r room = (.failure f, r') :=
  fetch_of_fetchTurn (by simp [fetchTurn, hread, hf])

/-! ## Readers over bytes in memory -/

instance : Lawful PlainReader where
  interruptions_lt hread _ := by cases hread

instance : Lawful PacedReader where
  interruptions_lt {r r' room f} hread _ := by
    cases hnext : r.interruptNext with
    | false => simp [read, PacedReader.read, hnext] at hread
    | true =>
        simp only [read, PacedReader.read, hnext, if_true, Prod.mk.injEq] at hread
        obtain ⟨-, rfl⟩ := hread
        simp [interruptions, hnext]

instance : Lawful ScriptedReader where
  interruptions_lt {r r' room f} hread hf := by
    obtain ⟨pending, events, calls⟩ := r
    cases pending with
    | cons b bs => simp [read, ScriptedReader.read, ScriptedReader.serve] at hread
    | nil =>
        cases events with
        | nil => simp [read, ScriptedReader.read] at hread
        | cons e events =>
            cases e with
            | data bs => simp [read, ScriptedReader.read, ScriptedReader.serve] at hread
            | failure f' =>
                simp only [read, ScriptedReader.read, Prod.mk.injEq, Reply.failure.injEq] at hread
                obtain ⟨rfl, rfl⟩ := hread
                simp [interruptions, ScriptedReader.interruptions, ReadEvent.isInterruption, hf]

/-! ## Readers that fail in every call -/

/-- A faulty reader that interrupts is waited for without an end, once its bytes are gone. -/
theorem not_endsWithin_of_interrupted {r : FaultyReader} (hdata : r.data = [])
    (hkind : r.kind = .interrupted) (turns : Nat) (result : Reply × FaultyReader) :
    ¬ EndsWithin (fetchTurn room) turns r result := by
  have hread : read r room = (.failure r.failure, r) := by
    show r.read room = _
    rw [FaultyReader.read, hdata, List.isEmpty_nil, if_pos rfl]
  have hinterrupts : r.failure.isInterruption = true := by
    rw [ReadFailure.isInterruption, FaultyReader.failure, hkind]
    rfl
  have hturn := fetchTurn_of_interruption hread hinterrupts
  intro hends
  induction turns with
  | zero => cases hends
  | succ turns ih =>
      cases hends with
      | done hbody => cases hturn.symm.trans hbody
      | more hbody hrest =>
          cases hturn.symm.trans hbody
          exact ih hrest

theorem kind_read (r : FaultyReader) (room : Nat) : (r.read room).2.kind = r.kind := by
  unfold FaultyReader.read
  split <;> rfl

/-- A faulty reader whose failure is not an interruption. -/
structure BrokenReader extends FaultyReader where
  kind_ne : kind ≠ .interrupted

instance : Reader BrokenReader where
  read r room :=
    ((r.toFaultyReader.read room).1,
      ⟨(r.toFaultyReader.read room).2, kind_read r.toFaultyReader room ▸ r.kind_ne⟩)
  left r := left r.toFaultyReader
  interruptions r := interruptions r.toFaultyReader

instance : Lawful BrokenReader where
  interruptions_lt {r r' room f} hread hf := by
    obtain ⟨hreply, -⟩ := Prod.mk.inj hread
    rw [FaultyReader.read] at hreply
    split at hreply
    · obtain rfl := Reply.failure.inj hreply
      rw [ReadFailure.isInterruption, FaultyReader.failure] at hf
      exact absurd (eq_of_beq hf) r.kind_ne
    · cases hreply

end ScanKit.Reader
