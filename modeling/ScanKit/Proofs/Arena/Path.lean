import ScanKit.Arena.Chain
import Mathlib.Data.List.Basic

/-!
# Paths

A path follows links from a name on, given what each name leads to.  It says what a walk meets and
where it ends without a bound on its steps: at a node without a link, or at a name that leads to no
node.  Where links only ever go up in some rank, every name has a path, and the names on it go up.
-/

universe u v w

namespace ScanKit

variable {κ : Type w} {α : Type u}

/-- `Path look r nodes e`: from `r` on the links meet `nodes`, and break at the name `e`, if any. -/
inductive Path (look : κ → Option (α × Option κ)) : κ → List (κ × α) → Option κ → Prop where
  | /-- Nothing is there. -/
    broken {r : κ} (hlook : look r = none) : Path look r [] (some r)
  | /-- A node without a link. -/
    last {r : κ} {value : α} (hlook : look r = some (value, none)) :
      Path look r [(r, value)] none
  | /-- A node with a link and the path from there. -/
    link {r q : κ} {value : α} {nodes : List (κ × α)} {e : Option κ}
      (hlook : look r = some (value, some q)) (hrest : Path look q nodes e) :
      Path look r ((r, value) :: nodes) e

namespace Path

variable {look : κ → Option (α × Option κ)} {r q : κ} {nodes nodes' : List (κ × α)}
  {e e' : Option κ}

/-- What is met is there. -/
theorem look_of_mem (h : Path look r nodes e) {x : κ × α} (hx : x ∈ nodes) :
    ∃ l, look x.1 = some (x.2, l) := by
  induction h with
  | broken _ => simp at hx
  | last hlook =>
      rw [List.mem_singleton] at hx
      exact ⟨none, by rw [hx, hlook]⟩
  | link hlook _ ih =>
      rcases List.mem_cons.1 hx with rfl | hx
      · exact ⟨_, hlook⟩
      · exact ih hx

/-- Nothing is there where the path breaks. -/
theorem look_end (h : Path look r nodes (some q)) : look q = none := by
  generalize he : some q = e at h
  induction h with
  | broken hlook =>
      cases he
      exact hlook
  | last _ => cases he
  | link _ _ ih => exact ih he

/-- A path that does not break has a last node, which has no link. -/
theorem getLast (h : Path look r nodes none) :
    ∃ x, nodes.getLast? = some x ∧ look x.1 = some (x.2, none) := by
  generalize he : none = e at h
  induction h with
  | broken _ => cases he
  | @last r value hlook => exact ⟨(r, value), rfl, hlook⟩
  | @link r q value nodes e _ hrest ih =>
      obtain ⟨x, hx, hlook⟩ := ih he
      refine ⟨x, ?_, hlook⟩
      cases nodes with
      | nil => simp at hx
      | cons y ys => rwa [List.getLast?_cons_cons]

/-- A path starts at its name if anything is there. -/
theorem eq_nil_iff (h : Path look r nodes e) : nodes = [] ↔ look r = none := by
  cases h with
  | broken hlook => simp [hlook]
  | last hlook => simp [hlook]
  | link hlook _ => simp [hlook]

/-- A path stays one where nothing that it looks at is changed. -/
theorem congr {look' : κ → Option (α × Option κ)} (h : Path look r nodes e)
    (hnodes : ∀ x ∈ nodes, look' x.1 = look x.1) (hend : ∀ q, e = some q → look' q = none) :
    Path look' r nodes e := by
  induction h with
  | broken _ => exact .broken (hend _ rfl)
  | last hlook => exact .last ((hnodes _ (List.mem_singleton_self _)).trans hlook)
  | link hlook _ ih =>
      refine .link ((hnodes _ List.mem_cons_self).trans hlook) (ih ?_ hend)
      intro x hx
      exact hnodes x (List.mem_cons_of_mem _ hx)

/-- A node without a link is the last one on a path that meets it, and the path does not break. -/
theorem getLast?_of_look (h : Path look r nodes e) {x : κ × α} (hx : x ∈ nodes)
    (hlook : look x.1 = some (x.2, none)) : nodes.getLast? = some x ∧ e = none := by
  induction h with
  | broken _ => simp at hx
  | last _ =>
      rw [List.mem_singleton] at hx
      exact ⟨by rw [hx, List.getLast?_singleton], rfl⟩
  | @link r q value nodes e hnext _ ih =>
      rcases List.mem_cons.1 hx with rfl | hx
      · rw [hnext] at hlook
        cases hlook
      · obtain ⟨hlast, he⟩ := ih hx
        refine ⟨?_, he⟩
        rw [List.getLast?_cons, hlast, Option.getD_some]

/-- Following links for a number of steps: the nodes that are met, and the name at which the links
break or the steps end. -/
def meet (look : κ → Option (α × Option κ)) : Nat → κ → List (κ × α) × Option κ
  | 0, r => ([], some r)
  | steps + 1, r => match look r with
    | none => ([], some r)
    | some (value, none) => ([(r, value)], none)
    | some (value, some q) =>
        let rest := meet look steps q
        ((r, value) :: rest.1, rest.2)

/-- Following links for more steps than there are nodes on the path meets all of it. -/
theorem meet_eq {steps : Nat} (h : Path look r nodes e) (hsteps : nodes.length < steps) :
    meet look steps r = (nodes, e) := by
  induction h generalizing steps with
  | broken hlook =>
      cases steps with
      | zero => exact absurd hsteps (Nat.not_lt_zero _)
      | succ steps => simp [meet, hlook]
  | last hlook =>
      cases steps with
      | zero => exact absurd hsteps (Nat.not_lt_zero _)
      | succ steps => simp [meet, hlook]
  | link hlook _ ih =>
      cases steps with
      | zero => exact absurd hsteps (Nat.not_lt_zero _)
      | succ steps => simp [meet, hlook, ih (Nat.lt_of_succ_lt_succ hsteps)]

/-- A path under other names, if these lead to the same. -/
theorem map {ι : Type w} {f : κ → ι} {look' : ι → Option (α × Option ι)} {there : κ → Prop}
    (hlook : ∀ r, there r → look' (f r) = (look r).map fun c => (c.1, c.2.map f))
    (hlink : ∀ r value q, look r = some (value, some q) → there q)
    (h : Path look r nodes e) (hr : there r) :
    Path look' (f r) (nodes.map fun x => (f x.1, x.2)) (e.map f) := by
  induction h with
  | broken hnone => exact .broken (by rw [hlook _ hr, hnone, Option.map_none])
  | last hlast => exact .last (by rw [hlook _ hr, hlast, Option.map_some, Option.map_none])
  | link hnext _ ih =>
      refine .link ?_ (ih (hlink _ _ _ hnext))
      rw [hlook _ hr, hnext, Option.map_some, Option.map_some]

/-! ## Links that go up -/

variable {rank : κ → Nat}

/-- The names on a path go up where links do. -/
theorem rank_lt (hup : ∀ r value q, look r = some (value, some q) → rank r < rank q)
    (h : Path look r nodes e) :
    (∀ x ∈ nodes, rank r ≤ rank x.1) ∧ nodes.Pairwise fun x y => rank x.1 < rank y.1 := by
  induction h with
  | broken _ => exact ⟨by simp, .nil⟩
  | last _ => exact ⟨by simp, List.pairwise_singleton _ _⟩
  | @link r q value nodes e hlook _ ih =>
      have hq : rank r < rank q := hup r value q hlook
      have hrest : ∀ x ∈ nodes, rank r < rank x.1 := by
        intro x hx
        exact Nat.lt_of_lt_of_le hq (ih.1 x hx)
      refine ⟨?_, List.pairwise_cons.2 ⟨hrest, ih.2⟩⟩
      intro x hx
      rcases List.mem_cons.1 hx with rfl | hx
      · exact Nat.le_refl _
      · exact Nat.le_of_lt (hrest x hx)

/-- No name is met twice where links go up. -/
theorem nodup (hup : ∀ r value q, look r = some (value, some q) → rank r < rank q)
    (h : Path look r nodes e) : (nodes.map (·.1)).Nodup := by
  rw [List.Nodup, List.pairwise_map]
  exact (h.rank_lt hup).2.imp fun hlt heq => Nat.ne_of_lt hlt (congrArg rank heq)

/-- Where links go up and what is there has a bounded rank, every name has a path. -/
theorem exists_path (hup : ∀ r value q, look r = some (value, some q) → rank r < rank q)
    {bound : Nat} (hbound : ∀ r c, look r = some c → rank r < bound) (r : κ) :
    ∃ nodes e, Path look r nodes e := by
  induction hgap : bound - rank r using Nat.strongRecOn generalizing r with
  | _ gap ih =>
      rcases hlook : look r with _ | ⟨value, _ | q⟩
      · exact ⟨[], some r, .broken hlook⟩
      · exact ⟨[(r, value)], none, .last hlook⟩
      · have hr := hbound r _ hlook
        have hq := hup r value q hlook
        obtain ⟨nodes, e, hrest⟩ := ih (bound - rank q) (by omega) q rfl
        exact ⟨(r, value) :: nodes, e, .link hlook hrest⟩

end Path

/-! ## Stretches of a path -/

/-- `Leads look r nodes q`: from `r` on the links meet `nodes` and come to `q`, whatever is there. -/
inductive Leads (look : κ → Option (α × Option κ)) : κ → List (κ × α) → κ → Prop where
  | /-- Nothing is met on the way. -/
    here {r : κ} : Leads look r [] r
  | /-- A node with a link and the way from there. -/
    link {r p q : κ} {value : α} {nodes : List (κ × α)}
      (hlook : look r = some (value, some p)) (hrest : Leads look p nodes q) :
      Leads look r ((r, value) :: nodes) q

section Stretches

variable {look look' : κ → Option (α × Option κ)} {r q : κ} {nodes rest : List (κ × α)}
  {e : Option κ}

namespace Leads

/-- What is met on the way has a link. -/
theorem look_of_mem (h : Leads look r nodes q) {x : κ × α} (hx : x ∈ nodes) :
    ∃ p, look x.1 = some (x.2, some p) := by
  induction h with
  | here => simp at hx
  | link hlook _ ih =>
      rcases List.mem_cons.1 hx with rfl | hx
      · exact ⟨_, hlook⟩
      · exact ih hx

/-- A path goes on where the way leads to. -/
theorem path (h : Leads look r nodes q) (hpath : Path look q rest e) :
    Path look r (nodes ++ rest) e := by
  induction h with
  | here => exact hpath
  | link hlook _ ih => exact .link hlook (ih hpath)

/-- A way leads to each node on it, and goes on from there. -/
theorem split {before after : List (κ × α)} {x : κ × α} (h : Leads look r (before ++ x :: after) q) :
    Leads look r before x.1 ∧ Leads look x.1 (x :: after) q := by
  induction before generalizing r with
  | nil =>
      cases h with
      | link hlook hrest => exact ⟨.here, .link hlook hrest⟩
  | cons y before ih =>
      cases h with
      | link hlook hrest =>
          obtain ⟨hto, hfrom⟩ := ih hrest
          exact ⟨.link hlook hto, hfrom⟩

/-- The way stays the same where the nodes on it do. -/
theorem congr (h : Leads look r nodes q) (hnodes : ∀ x ∈ nodes, look' x.1 = look x.1) :
    Leads look' r nodes q := by
  induction h with
  | here => exact .here
  | link hlook _ ih =>
      refine .link ((hnodes _ List.mem_cons_self).trans hlook) (ih ?_)
      intro x hx
      exact hnodes x (List.mem_cons_of_mem _ hx)

/-- The way goes over the same names where these keep their links, whatever becomes of the values. -/
theorem relink (h : Leads look r nodes q)
    (hlinks : ∀ x ∈ nodes, ∀ p, look x.1 = some (x.2, some p) → ∃ v, look' x.1 = some (v, some p)) :
    ∃ nodes', nodes'.map (·.1) = nodes.map (·.1) ∧ Leads look' r nodes' q := by
  induction h with
  | here => exact ⟨[], rfl, .here⟩
  | @link r p q value nodes hlook _ ih =>
      obtain ⟨v, hv⟩ := hlinks _ List.mem_cons_self p hlook
      obtain ⟨nodes', hsame, hrest⟩ := ih fun x hx => hlinks x (List.mem_cons_of_mem _ hx)
      exact ⟨(r, v) :: nodes', by rw [List.map_cons, List.map_cons, hsame], .link hv hrest⟩

end Leads

namespace Path

/-- A path leads to each node on it, and from there it is a path of its own. -/
theorem split {before after : List (κ × α)} {x : κ × α}
    (h : Path look r (before ++ x :: after) e) :
    Leads look r before x.1 ∧ Path look x.1 (x :: after) e := by
  induction before generalizing r with
  | nil =>
      cases h with
      | last hlook => exact ⟨.here, .last hlook⟩
      | link hlook hrest => exact ⟨.here, .link hlook hrest⟩
  | cons y before ih =>
      rw [List.cons_append] at h
      generalize hall : before ++ x :: after = all at h
      cases h with
      | last _ => simp at hall
      | link hlook hrest =>
          subst hall
          obtain ⟨hleads, hpath⟩ := ih hrest
          exact ⟨.link hlook hleads, hpath⟩

/-- The first node of a path that does not break is linked to the second one, if there is one. -/
theorem look_head {x : κ × α} (h : Path look r (x :: rest) none) :
    look x.1 = some (x.2, rest.head?.map (·.1)) := by
  cases h with
  | last hlook => exact hlook
  | link hlook hrest =>
      cases hrest with
      | last _ => exact hlook
      | link _ _ => exact hlook

/-- The nodes behind the first one are a path of their own. -/
theorem tail {x y : κ × α} (h : Path look r (x :: y :: rest) e) : Path look y.1 (y :: rest) e := by
  rw [← List.singleton_append] at h
  exact h.split.2

end Path

end Stretches

/-! ## Walks of an arena as paths -/

namespace Arena

variable {a : Arena α}

/-- The value and the link that a reference leads to. -/
def look (a : Arena α) (r : NodeRef) : Option (α × Option NodeRef) :=
  (a.node? r).map fun n => (n.value, n.next?)

theorem look_eq_none_iff {r : NodeRef} : a.look r = none ↔ a.node? r = none := by
  simp [look]

theorem look_eq_some_iff {r : NodeRef} {value : α} {l : Option NodeRef} :
    a.look r = some (value, l) ↔ a.node? r = some ⟨value, l⟩ := by
  rw [look]
  cases a.node? r with
  | none => simp
  | some n =>
      cases n
      simp

/-- The arena follows its links. -/
theorem follow_eq_meet (a : Arena α) (steps : Nat) (r : NodeRef) :
    a.follow steps r = ⟨(Path.meet a.look steps r).1, (Path.meet a.look steps r).2⟩ := by
  induction steps generalizing r with
  | zero => rfl
  | succ steps ih =>
      rw [follow, Path.meet, look]
      rcases a.node? r with _ | ⟨value, _ | next⟩
      · rfl
      · rfl
      · simp [ih]

/-- Following links for more steps than there are nodes on the path meets all of it. -/
theorem follow_eq_of_path {steps : Nat} {r : NodeRef} {nodes : List (NodeRef × α)}
    {e : Option NodeRef} (h : Path a.look r nodes e) (hsteps : nodes.length < steps) :
    a.follow steps r = ⟨nodes, e⟩ := by
  rw [follow_eq_meet, h.meet_eq hsteps]

end Arena

end ScanKit
