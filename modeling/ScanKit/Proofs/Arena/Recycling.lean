import ScanKit.Proofs.Arena.Answers
import ScanKit.Proofs.Arena.Store

/-!
# Filling slots again cannot be observed

An arena answers every run of calls like a store that never reuses a name, as long as the calls only
name nodes by references that were issued before, whether or not these still resolve.  The two are
compared under the numbering that sends the reference issued as number `k` to the key `k`: numbering
the references of an arena turns it into a store, and every call does to that store what it does to
the arena.
-/

universe u v

namespace ScanKit

variable {α : Type u} {σ : Type v}

/-- A numbering gives every reference on a list its place there. -/
def Numbers (key : NodeRef → Nat) (ids : List NodeRef) : Prop := ∀ r ∈ ids, key r = ids.idxOf r

theorem Numbers.of_append {key : NodeRef → Nat} {ids more : List NodeRef}
    (h : Numbers key (ids ++ more)) : Numbers key ids := by
  intro r hr
  rw [h r (List.mem_append_left _ hr), List.idxOf_append_of_mem hr]

namespace Arena

variable {a b : Arena α} {ids : List NodeRef} {key : NodeRef → Nat}

/-- A node whose link is numbered. -/
def renumber (key : NodeRef → Nat) (c : α × Option NodeRef) : α × Option Nat := (c.1, c.2.map key)

/-- The store in which the nodes of an arena are under the numbers of their references. -/
def numbered (key : NodeRef → Nat) (ids : List NodeRef) (a : Arena α) : Store α :=
  ⟨ids.map fun r => (a.look r).map (renumber key)⟩

@[simp] theorem fresh_numbered (key : NodeRef → Nat) (ids : List NodeRef) (a : Arena α) :
    (a.numbered key ids).fresh = ids.length := by
  rw [Store.fresh, numbered, List.length_map]

theorem look_numbered (hkey : Numbers key ids) {r : NodeRef} (hr : r ∈ ids) :
    (a.numbered key ids).look (key r) = (a.look r).map (renumber key) := by
  rw [hkey r hr, Store.look, numbered, List.getElem?_map, List.getElem?_idxOf hr]
  rfl

theorem Ledger.live_numbered (h : Ledger a ids) (key : NodeRef → Nat) :
    (a.numbered key ids).live = a.live := by
  rw [h.live_eq, Store.live, numbered, List.countP_map]
  apply List.countP_congr
  intro r _
  rw [Function.comp_apply, Option.isSome_map, contains_eq_isSome_look]

/-! ## Walks of the numbered arena -/

/-- A walk of the numbered arena meets the numbers of what a walk of the arena meets. -/
theorem Ledger.walk_numbered (h : Ledger a ids) (hkey : Numbers key ids) {root : NodeRef}
    {nodes : List (NodeRef × α)} {e : Option NodeRef} (hpath : Path a.look root nodes e)
    (hroot : root ∈ ids) :
    (a.numbered key ids).walk (key root) = (nodes.map fun x => (key x.1, x.2), e.map key) := by
  have hnumbered : Path (a.numbered key ids).look (key root)
      (nodes.map fun x => (key x.1, x.2)) (e.map key) :=
    hpath.map (fun _ hr => look_numbered hkey hr) (fun r value q hr => (h.link_down r value q hr).1)
      hroot
  have hsub : nodes.map (·.1) ⊆ ids := fun r hr => h.mem_of_contains r (contains_of_path hpath hr)
  have hle := (List.subperm_of_subset (h.nodup_of_path hpath) hsub).length_le
  refine hnumbered.meet_eq ?_
  rw [List.length_map] at hle ⊢
  rw [fresh_numbered]
  exact Nat.lt_succ_of_le hle

theorem firstAccepted_numbered (key : NodeRef → Nat) (accept : σ → α → Bool × σ) (s : σ)
    (nodes : List (NodeRef × α)) :
    Store.firstAccepted accept s (nodes.map fun x => (key x.1, x.2)) =
      ((firstAccepted accept s nodes).1.map key, (firstAccepted accept s nodes).2) := by
  induction nodes generalizing s with
  | nil => rfl
  | cons x nodes ih =>
      obtain ⟨r, value⟩ := x
      simp only [List.map_cons, Store.firstAccepted, firstAccepted]
      rcases accept s value with ⟨_ | _, s⟩
      · exact ih s
      · rfl

/-! ## Changes of the numbered arena -/

/-- Changing what is at one place of a list. -/
theorem map_eq_set {β : Type u} {f g : NodeRef → β} {r : NodeRef} (hnodup : ids.Nodup)
    (hsame : ∀ q, q ≠ r → g q = f q) : ids.map g = (ids.map f).set (ids.idxOf r) (g r) := by
  apply List.ext_getElem
  · simp
  intro i hi _
  rw [List.length_map] at hi
  rw [List.getElem_map, List.getElem_set, List.getElem_map]
  by_cases hir : ids.idxOf r = i
  · subst hir
    rw [if_pos rfl, List.getElem_idxOf]
  · rw [if_neg hir]
    apply hsame
    intro heq
    apply hir
    rw [← heq, hnodup.idxOf_getElem]

theorem Ledger.numbered_put (h : Ledger a ids) (hkey : Numbers key ids) {r : NodeRef}
    {c : α × Option NodeRef} (hr : r ∈ ids) (hc : b.look r = some c)
    (hsame : ∀ q, q ≠ r → b.look q = a.look q) :
    b.numbered key ids = (a.numbered key ids).put (key r) (renumber key c) := by
  rw [numbered, map_eq_set h.nodup fun q hq => congrArg (Option.map (renumber key)) (hsame q hq),
    hc, ← hkey r hr]
  rfl

theorem Ledger.numbered_delete (h : Ledger a ids) (hkey : Numbers key ids) {r : NodeRef}
    (hr : r ∈ ids) (hc : b.look r = none) (hsame : ∀ q, q ≠ r → b.look q = a.look q) :
    b.numbered key ids = (a.numbered key ids).delete (key r) := by
  rw [numbered, map_eq_set h.nodup fun q hq => congrArg (Option.map (renumber key)) (hsame q hq),
    hc, ← hkey r hr]
  rfl

/-- A new node is under the key that was never used. -/
theorem Ledger.numbered_alloc (h : Ledger a ids) (key : NodeRef → Nat) (value : α) :
    (a.alloc value).2.numbered key (ids ++ [(a.alloc value).1]) =
      (a.numbered key ids).push value := by
  have hold : ∀ r ∈ ids, (a.alloc value).2.look r = a.look r := by
    intro r hr
    have hne : r ≠ (a.alloc value).1 := fun heq => h.alloc_ref_not_mem value (heq ▸ hr)
    rw [h.wellFormed.look_alloc, if_neg hne]
  have hmap : (ids.map fun r => ((a.alloc value).2.look r).map (renumber key)) =
      ids.map fun r => (a.look r).map (renumber key) :=
    List.map_congr_left fun r hr => congrArg (Option.map (renumber key)) (hold r hr)
  rw [numbered, List.map_append, hmap, Store.push, numbered]
  simp [h.wellFormed.look_alloc, renumber]

/-- The reference of a new node has the key that was never used. -/
theorem Ledger.key_alloc (h : Ledger a ids) {value : α}
    (hkey : Numbers key (ids ++ [(a.alloc value).1])) : key (a.alloc value).1 = ids.length := by
  rw [hkey _ (List.mem_append_right _ (List.mem_singleton_self _)),
    List.idxOf_append_of_notMem (h.alloc_ref_not_mem value), List.idxOf_cons_self, Nat.add_zero]

/-- Linking a new node behind one that has no link. -/
theorem Ledger.numbered_link (h : Ledger a ids) {value : α}
    (hkey : Numbers key (ids ++ [(a.alloc value).1])) {x : NodeRef × α}
    (hx : a.look x.1 = some (x.2, none)) :
    (a.addBehind x.1 value).numbered key (ids ++ [(a.alloc value).1]) =
      ((a.numbered key ids).push value).put (key x.1) (x.2, some (key (a.alloc value).1)) := by
  have hmem := h.mem_of_look hx
  have hlive : a.contains x.1 = true := contains_of_look hx
  have hlook := h.wellFormed.look_addBehind hlive value
  rw [← h.numbered_alloc key]
  refine (h.alloc value).numbered_put hkey (c := (x.2, some (a.alloc value).1))
    (List.mem_append_left _ hmem) ?_ ?_
  · rw [hlook, if_pos rfl, hx]
    rfl
  · intro q hq
    rw [hlook, if_neg hq, h.wellFormed.look_alloc]

theorem Ledger.numbered_set (h : Ledger a ids) (hkey : Numbers key ids) {r : NodeRef}
    {c : α × Option NodeRef} (hc : a.look r = some c) (value : α) :
    (a.modify r fun n => { n with value }).numbered key ids =
      (a.numbered key ids).put (key r) (value, c.2.map key) := by
  refine h.numbered_put hkey (c := (value, c.2)) (h.mem_of_look hc) ?_ ?_
  · rw [look_set, if_pos rfl, hc]
    rfl
  · intro q hq
    rw [look_set, if_neg hq]

theorem Ledger.numbered_discard (h : Ledger a ids) (hkey : Numbers key ids) {r : NodeRef}
    (hr : a.contains r = true) :
    (a.discard r).numbered key ids = (a.numbered key ids).delete (key r) := by
  apply h.numbered_delete hkey (h.mem_of_contains r hr)
  · rw [look_discard hr, if_pos rfl]
  · intro q hq
    rw [look_discard hr, if_neg hq]

theorem Ledger.numbered_discardAll (h : Ledger a ids) (hkey : Numbers key ids) {rs : List NodeRef}
    (hnodup : rs.Nodup) (hlive : ∀ r ∈ rs, a.contains r = true) :
    (a.discardAll rs).numbered key ids = (a.numbered key ids).deleteAll (rs.map key) := by
  induction rs generalizing a with
  | nil => rfl
  | cons r rs ih =>
      obtain ⟨hnot, hnodup⟩ := List.nodup_cons.1 hnodup
      have hr := hlive r List.mem_cons_self
      have hrest := ih (h.discard hr) hnodup (contains_discard_of_cons hlive hnot)
      rw [h.numbered_discard hkey hr] at hrest
      exact hrest

theorem numbered_clear (key : NodeRef → Nat) (ids : List NodeRef) (a : Arena α) :
    a.clear.numbered key ids = (a.numbered key ids).clear := by
  simp only [numbered, Store.clear, look_clear, Option.map_none, List.map_map, Function.comp_def]

/-! ## Calls -/

/-- A call does to the numbered arena what it does to the arena, and its answer is the same under
the numbering. -/
def Agrees (key : NodeRef → Nat) (ids : List NodeRef) (a : Arena α) (c : Call NodeRef α σ) : Prop :=
  Store.act (c.map key) (a.numbered key ids) =
    ((act c a).1.map key, (act c a).2.numbered key (ids ++ (act c a).1.issued))

/-- Agreement on a call that issues nothing. -/
theorem Agrees.of_issued_eq_nil {c : Call NodeRef α σ} {x : Answer NodeRef α σ}
    (hact : act c a = (x, b)) (hissued : x.issued = [])
    (hstore : Store.act (c.map key) (a.numbered key ids) = (x.map key, b.numbered key ids)) :
    Agrees key ids a c := by
  rw [Agrees, hact, hstore, hissued, List.append_nil]

section Nodes

variable {r : NodeRef}

theorem agrees_get (hkey : Numbers key ids) (hr : r ∈ ids) :
    Agrees key ids a (.get r : Call NodeRef α σ) := by
  have hlook := look_numbered (a := a) hkey hr
  have hact : act (.get r : Call NodeRef α σ) a = _ := act_get a r
  cases hc : a.look r with
  | none =>
      rw [hc] at hlook hact
      refine .of_issued_eq_nil hact rfl ?_
      simp [hlook, Except.mapError]
  | some c =>
      rw [hc] at hlook hact
      refine .of_issued_eq_nil hact rfl ?_
      simp [hlook, Except.mapError, renumber]

theorem agrees_next (hkey : Numbers key ids) (hr : r ∈ ids) :
    Agrees key ids a (.next r : Call NodeRef α σ) := by
  have hlook := look_numbered (a := a) hkey hr
  have hact : act (.next r : Call NodeRef α σ) a = _ := act_next a r
  cases hc : a.look r with
  | none =>
      rw [hc] at hlook hact
      refine .of_issued_eq_nil hact rfl ?_
      simp [hlook, Except.map, Except.mapError]
  | some c =>
      rw [hc] at hlook hact
      refine .of_issued_eq_nil hact rfl ?_
      simp [hlook, Except.map, Except.mapError, renumber]

theorem agrees_contains (hkey : Numbers key ids) (hr : r ∈ ids) :
    Agrees key ids a (.contains r : Call NodeRef α σ) := by
  refine .of_issued_eq_nil rfl rfl ?_
  simp [look_numbered hkey hr, contains_eq_isSome_look]

theorem Ledger.agrees_set (h : Ledger a ids) (hkey : Numbers key ids) (hr : r ∈ ids) (value : α) :
    Agrees key ids a (.set r value : Call NodeRef α σ) := by
  have hlook := look_numbered (a := a) hkey hr
  have hact : Arena.act (.set r value : Call NodeRef α σ) a = _ := act_set a r value
  cases hc : a.look r with
  | none =>
      rw [hc] at hlook hact
      refine .of_issued_eq_nil hact rfl ?_
      simp [hlook, Except.mapError]
  | some c =>
      rw [hc] at hlook hact
      refine .of_issued_eq_nil hact rfl ?_
      rw [h.numbered_set hkey hc]
      simp [hlook, Except.mapError, renumber]

theorem Ledger.agrees_free (h : Ledger a ids) (hkey : Numbers key ids) (hr : r ∈ ids) :
    Agrees key ids a (.free r : Call NodeRef α σ) := by
  have hlook := look_numbered (a := a) hkey hr
  have hact : Arena.act (.free r : Call NodeRef α σ) a = _ := act_free a r
  cases hc : a.look r with
  | none =>
      rw [hc] at hlook hact
      refine .of_issued_eq_nil hact rfl ?_
      simp [hlook, Except.map, Except.mapError]
  | some c =>
      have hlive : a.contains r = true := contains_of_look hc
      rw [hc] at hlook hact
      refine .of_issued_eq_nil hact rfl ?_
      rw [h.numbered_discard hkey hlive]
      simp [hlook, Except.map, Except.mapError, renumber]

end Nodes

section Chains

variable {root : NodeRef} {nodes : List (NodeRef × α)} {e : Option NodeRef}

theorem Ledger.agrees_tail (h : Ledger a ids) (hkey : Numbers key ids) (hroot : root ∈ ids)
    (hpath : Path a.look root nodes e) : Agrees key ids a (.tail root : Call NodeRef α σ) := by
  refine .of_issued_eq_nil (h.act_tail hpath) rfl ?_
  simp only [Call.map, Store.act, h.walk_numbered hkey hpath hroot, List.getLast?_map]
  cases nodes.getLast? <;> simp

theorem Ledger.agrees_chainLength (h : Ledger a ids) (hkey : Numbers key ids) (hroot : root ∈ ids)
    (hpath : Path a.look root nodes e) :
    Agrees key ids a (.chainLength root : Call NodeRef α σ) := by
  refine .of_issued_eq_nil (h.act_chainLength hpath) rfl ?_
  simp [h.walk_numbered hkey hpath hroot]

theorem Ledger.agrees_values (h : Ledger a ids) (hkey : Numbers key ids) (hroot : root ∈ ids)
    (hpath : Path a.look root nodes e) : Agrees key ids a (.values root : Call NodeRef α σ) := by
  have hlook := look_numbered (a := a) hkey hroot
  have hwalk := h.walk_numbered hkey hpath hroot
  have hact : Arena.act (.values root : Call NodeRef α σ) a = _ := h.act_values hpath
  cases hc : a.look root with
  | none =>
      rw [hc] at hlook hact
      refine .of_issued_eq_nil hact rfl ?_
      simp [hlook, Except.mapError]
  | some c =>
      rw [hc] at hlook hact
      refine .of_issued_eq_nil hact rfl ?_
      simp [hlook, hwalk, Except.mapError, Function.comp_def]

theorem Ledger.agrees_find (h : Ledger a ids) (hkey : Numbers key ids) (hroot : root ∈ ids)
    (hpath : Path a.look root nodes e) (accept : σ → α → Bool × σ) (s : σ) :
    Agrees key ids a (.find root accept s) := by
  have hwalk := h.walk_numbered hkey hpath hroot
  have hact := h.act_find hpath accept s
  have hfound := firstAccepted_numbered key accept s nodes
  rcases hfirst : firstAccepted accept s nodes with ⟨_ | r, s'⟩
  · rw [hfirst] at hact hfound
    refine .of_issued_eq_nil hact rfl ?_
    simp [hwalk, hfound]
  · rw [hfirst] at hact hfound
    refine .of_issued_eq_nil hact rfl ?_
    simp [hwalk, hfound, Except.map, Except.mapError]

theorem Ledger.agrees_freeChain (h : Ledger a ids) (hkey : Numbers key ids) (hroot : root ∈ ids)
    (hpath : Path a.look root nodes e) :
    Agrees key ids a (.freeChain root : Call NodeRef α σ) := by
  have hlook := look_numbered (a := a) hkey hroot
  have hwalk := h.walk_numbered hkey hpath hroot
  have hact : Arena.act (.freeChain root : Call NodeRef α σ) a = _ := h.act_freeChain hpath
  cases hc : a.look root with
  | none =>
      rw [hc] at hlook hact
      refine .of_issued_eq_nil hact rfl ?_
      simp [hlook, Except.mapError]
  | some c =>
      rw [hc] at hlook hact
      refine .of_issued_eq_nil hact rfl ?_
      rw [h.numbered_discardAll hkey (h.nodup_of_path hpath) fun _ => contains_of_path hpath]
      simp [hlook, hwalk, Except.mapError, Function.comp_def]

/-- The one call that links nodes: the new reference has the fresh key, and so has its link. -/
theorem Ledger.agrees_append (h : Ledger a ids) (hroot : root ∈ ids)
    (hpath : Path a.look root nodes e) (value : α)
    (hkey : Numbers key (ids ++ (Arena.act (.append root value : Call NodeRef α σ) a).1.issued)) :
    Agrees key ids a (.append root value : Call NodeRef α σ) := by
  have hwalk := h.walk_numbered hkey.of_append hpath hroot
  cases e with
  | some q =>
      refine .of_issued_eq_nil (h.act_append_of_broken hpath value) rfl ?_
      simp [hwalk, Except.map, Except.mapError]
  | none =>
      obtain ⟨x, hlast, hlook⟩ := hpath.getLast
      have hact : Arena.act (.append root value : Call NodeRef α σ) a = _ :=
        h.act_append_of_last hpath hlast value
      rw [hact] at hkey
      rw [Agrees, hact]
      simp [hwalk, hlast, Except.map,
        Except.mapError, h.numbered_link hkey hlook, h.key_alloc hkey]

end Chains

/-- An arena and its numbering agree on every call on references that were issued. -/
theorem Ledger.agrees (h : Ledger a ids) (c : Call NodeRef α σ) (hnames : ∀ r ∈ c.names, r ∈ ids)
    (hkey : Numbers key (ids ++ (Arena.act c a).1.issued)) : Agrees key ids a c := by
  have hnum : Numbers key ids := hkey.of_append
  have hmem : ∀ r, c.names = [r] → r ∈ ids ∧ ∃ nodes e, Path a.look r nodes e := by
    intro r hr
    exact ⟨hnames r (hr ▸ List.mem_singleton_self r), h.exists_path r⟩
  cases c with
  | alloc value =>
      have hnew := h.key_alloc hkey
      simp [Agrees, Arena.act, h.numbered_alloc,
        hnew, Except.map, Except.mapError]
  | append root value =>
      obtain ⟨hroot, _, _, hpath⟩ := hmem root rfl
      exact h.agrees_append hroot hpath value hkey
  | get r => exact agrees_get hnum (hmem r rfl).1
  | set r value => exact h.agrees_set hnum (hmem r rfl).1 value
  | next r => exact agrees_next hnum (hmem r rfl).1
  | tail root =>
      obtain ⟨hroot, _, _, hpath⟩ := hmem root rfl
      exact h.agrees_tail hnum hroot hpath
  | chainLength root =>
      obtain ⟨hroot, _, _, hpath⟩ := hmem root rfl
      exact h.agrees_chainLength hnum hroot hpath
  | values root =>
      obtain ⟨hroot, _, _, hpath⟩ := hmem root rfl
      exact h.agrees_values hnum hroot hpath
  | find root accept s =>
      obtain ⟨hroot, _, _, hpath⟩ := hmem root rfl
      exact h.agrees_find hnum hroot hpath accept s
  | contains r => exact agrees_contains hnum (hmem r rfl).1
  | live =>
      refine .of_issued_eq_nil rfl rfl ?_
      simp [h.live_numbered]
  | free r => exact h.agrees_free hnum (hmem r rfl).1
  | freeChain root =>
      obtain ⟨hroot, _, _, hpath⟩ := hmem root rfl
      exact h.agrees_freeChain hnum hroot hpath
  | clear =>
      refine .of_issued_eq_nil rfl rfl ?_
      simp [numbered_clear]

/-! ## Runs -/

/-- Every name that a call is made with was issued by an earlier call. -/
def NamesIssued : List (Call NodeRef α σ) → Arena α → List NodeRef → Prop
  | [], _, _ => True
  | c :: cs, a, ids =>
      (∀ r ∈ c.names, r ∈ ids) ∧ NamesIssued cs (act c a).2 (ids ++ (act c a).1.issued)

instance decidableNamesIssued : (calls : List (Call NodeRef α σ)) → (a : Arena α) →
    (ids : List NodeRef) → Decidable (NamesIssued calls a ids)
  | [], _, _ => .isTrue trivial
  | c :: cs, a, ids =>
      have := decidableNamesIssued cs (act c a).2 (ids ++ (act c a).1.issued)
      inferInstanceAs (Decidable (_ ∧ _))

/-- The numbered arena answers a run as the arena does. -/
theorem Ledger.answers_numbered (h : Ledger a ids) (calls : List (Call NodeRef α σ))
    (hnames : NamesIssued calls a ids) (hkey : Numbers key (ids ++ issuedIn calls a)) :
    answersOf Store.act (calls.map (Call.map key)) (a.numbered key ids) =
      (answersOf Arena.act calls a).map (Answer.map key) := by
  induction calls generalizing a ids with
  | nil => rfl
  | cons c calls ih =>
      obtain ⟨hnow, hlater⟩ := hnames
      rw [issuedIn_cons, ← List.append_assoc] at hkey
      have hstep := h.agrees c hnow hkey.of_append
      rw [Agrees] at hstep
      have hrest := ih (h.act c) hlater hkey
      rw [List.map_cons, answersOf, hstep, hrest]
      rfl

/-- A run of calls on nodes that were issued is answered as by a store that never reuses a name, if
the reference issued as number `k` is sent to the key `k`. -/
theorem recycling_unobservable (calls : List (Call NodeRef α σ))
    (hnames : NamesIssued calls empty []) :
    (issuedIn calls empty).Nodup ∧
      (answersOf act calls empty).map (Answer.map (issuedIn calls empty).idxOf) =
        answersOf Store.act (calls.map (Call.map (issuedIn calls empty).idxOf)) Store.empty := by
  have hledger := Ledger.run .empty calls
  rw [List.nil_append] at hledger
  refine ⟨hledger.nodup, ?_⟩
  exact (Ledger.answers_numbered .empty calls hnames fun _ _ => rfl).symm

/-- A node with a link to it is removed, and its slot filled again. -/
def relinked : List (Call NodeRef Nat Unit) :=
  [.alloc 1, .append ⟨0, 0⟩ 2, .free ⟨1, 0⟩, .alloc 3, .values ⟨0, 0⟩, .chainLength ⟨0, 0⟩,
    .get ⟨1, 1⟩]

theorem recycling_unobservable_relinked :
    NamesIssued relinked empty [] ∧
      (answersOf act relinked empty).map (Answer.map (issuedIn relinked empty).idxOf) =
        [.made (.ok 0), .made (.ok 1), .freed (.ok (2, none)), .made (.ok 2), .values (.ok [1]),
          .count (.error 1), .value (.ok 3)] := by
  have hnames : NamesIssued relinked empty [] := by decide
  exact ⟨hnames, (recycling_unobservable relinked hnames).2⟩

end Arena

end ScanKit
