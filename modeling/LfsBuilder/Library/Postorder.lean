import LfsBuilder.Library.DepthFirst

/-!
# Postorders

The order in which a depth-first traversal *leaves* the nodes of a graph that may have
cycles: `Leaves succ g ns o o'` says that visiting the nodes `ns` in turn, when the
nodes `g` are being visited and the nodes `o` are left, ends with the nodes `o'` left.
An edge back to a node that is being visited is not followed.

* `Leaves.nodup`, `Leaves.mem_iff`: each node is left once, if it is reached;
* `Leaves.split`: what is left before a node is closed under successors, but for those from
  which there is a path to the node; so it is left after its own (`Leaves.before`).
-/

namespace DepthFirst

open Relation

variable {α : Type*} (succ : α → List α)

/-- Visiting the nodes `ns` in turn, while the nodes `g` are being visited and when the nodes `o`
    are left, ends with the nodes `o'` left. -/
inductive Leaves : List α → List α → List α → List α → Prop
  | nil {g o : List α} : Leaves g [] o o
  | left {g ns o o' : List α} {n : α} : n ∈ o → Leaves g ns o o' → Leaves g (n :: ns) o o'
  | back {g ns o o' : List α} {n : α} : n ∈ g → Leaves g ns o o' → Leaves g (n :: ns) o o'
  | visit {g ns o o₁ o' : List α} {n : α} : n ∉ o → n ∉ g → Leaves (n :: g) (succ n) o o₁ →
      Leaves g ns (o₁ ++ [n]) o' → Leaves g (n :: ns) o o'

variable {succ}

theorem before_append_cons {s t : List α} {x d : α} (hd : d ∈ s) : Before (s ++ x :: t) d x :=
  (List.singleton_sublist.2 hd).append (List.singleton_sublist.2 List.mem_cons_self)

namespace Leaves

variable {g ns o o' : List α}

theorem append {ms o₁ : List α} (h : Leaves succ g ns o o₁) (h' : Leaves succ g ms o₁ o') :
    Leaves succ g (ns ++ ms) o o' := by
  induction h with
  | nil => exact h'
  | left hn _ ih => exact .left hn (ih h')
  | back hn _ ih => exact .back hn (ih h')
  | visit hn hg h₁ _ _ ih => exact .visit hn hg h₁ (ih h')

/-- Nodes that are left already change nothing. -/
theorem of_subset (h : ns ⊆ o) : Leaves succ g ns o o := by
  induction ns with
  | nil => exact .nil
  | cons n ns ih =>
    rw [List.cons_subset] at h
    exact .left h.1 (ih h.2)

theorem isPrefix (h : Leaves succ g ns o o') : o <+: o' := by
  induction h with
  | nil => exact List.prefix_rfl
  | left _ _ ih => exact ih
  | back _ _ ih => exact ih
  | visit _ _ _ _ ih₁ ih => exact ih₁.trans ((List.prefix_append _ _).trans ih)

/-- A node that is being visited is not left. -/
theorem notMem (h : Leaves succ g ns o o') {x : α} (hx : x ∈ g) (hxo : x ∉ o) : x ∉ o' := by
  induction h with
  | nil => exact hxo
  | left _ _ ih => exact ih hx hxo
  | back _ _ ih => exact ih hx hxo
  | @visit g ns o o₁ o' n _ hg _ _ ih₁ ih =>
    refine ih hx fun hmem => ?_
    rcases List.mem_append.1 hmem with hmem | hmem
    · exact ih₁ (List.mem_cons_of_mem _ hx) hxo hmem
    · exact hg (List.mem_singleton.1 hmem ▸ hx)

theorem nodup (h : Leaves succ g ns o o') (ho : o.Nodup) : o'.Nodup := by
  induction h with
  | nil => exact ho
  | left _ _ ih => exact ih ho
  | back _ _ ih => exact ih ho
  | @visit g ns o o₁ o' n hn _ h₁ _ ih₁ ih =>
    refine ih (List.nodup_append.2 ⟨ih₁ ho, List.nodup_singleton _, fun a ha b hb => ?_⟩)
    rw [List.mem_singleton.1 hb]
    exact ne_of_mem_of_not_mem ha (h₁.notMem List.mem_cons_self hn)

/-- The visited nodes are left, but for those that are still being visited. -/
theorem mem (h : Leaves succ g ns o o') : ∀ n ∈ ns, n ∈ o' ∨ n ∈ g := by
  induction h with
  | nil => exact fun _ hn => absurd hn List.not_mem_nil
  | left hn h ih => exact List.forall_mem_cons.2 ⟨.inl (h.isPrefix.subset hn), ih⟩
  | back hn _ ih => exact List.forall_mem_cons.2 ⟨.inr hn, ih⟩
  | visit _ _ _ h _ ih => exact List.forall_mem_cons.2 ⟨.inl (h.isPrefix.subset (by simp)), ih⟩

/-- What is left is reached. -/
theorem reach (h : Leaves succ g ns o o') {x : α} (hx : x ∈ o') :
    x ∈ o ∨ ∃ n ∈ ns, Reach succ n x := by
  induction h with
  | nil => exact .inl hx
  | left _ _ ih => exact (ih hx).imp_right fun ⟨m, hm, hr⟩ => ⟨m, List.mem_cons_of_mem _ hm, hr⟩
  | back _ _ ih => exact (ih hx).imp_right fun ⟨m, hm, hr⟩ => ⟨m, List.mem_cons_of_mem _ hm, hr⟩
  | @visit g ns o o₁ o' n _ _ _ _ ih₁ ih =>
    rcases ih hx with hx | ⟨m, hm, hr⟩
    · rcases List.mem_append.1 hx with hx | hx
      · exact (ih₁ hx).imp_right fun ⟨d, hd, hr⟩ =>
          ⟨n, List.mem_cons_self, .head (show Edge succ n d from hd) hr⟩
      · exact .inr ⟨n, List.mem_cons_self, List.mem_singleton.1 hx ▸ .refl⟩
    · exact .inr ⟨m, List.mem_cons_of_mem _ hm, hr⟩

/-- The successors of a node that is left are left too, but for those that are still being
    visited. -/
theorem closed (h : Leaves succ g ns o o') {x d : α} (hx : x ∈ o') (hxo : x ∉ o)
    (hd : d ∈ succ x) : d ∈ o' ∨ d ∈ g := by
  induction h with
  | nil => exact absurd hx hxo
  | left _ _ ih => exact ih hx hxo
  | back _ _ ih => exact ih hx hxo
  | @visit g ns o o₁ o' n _ _ h₁ h ih₁ ih =>
    have hmem : d ∈ o₁ ∨ d ∈ n :: g → d ∈ o' ∨ d ∈ g := by
      rintro (hd | hd)
      · exact .inl (h.isPrefix.subset (List.mem_append_left _ hd))
      · rcases List.mem_cons.1 hd with rfl | hd
        · exact .inl (h.isPrefix.subset (by simp))
        · exact .inr hd
    by_cases hx₁ : x ∈ o₁
    · exact hmem (ih₁ hx₁ hxo)
    · by_cases hxn : x = n
      · subst hxn
        exact hmem (h₁.mem d hd)
      · exact ih hx (by simp [hx₁, hxn])

/-- From nothing, a traversal leaves what its nodes reach. -/
theorem mem_iff (h : Leaves succ [] ns [] o) {x : α} : x ∈ o ↔ ∃ n ∈ ns, Reach succ n x := by
  refine ⟨fun hx => (h.reach hx).resolve_left List.not_mem_nil, ?_⟩
  rintro ⟨n, hn, hr⟩
  induction hr with
  | refl => exact (h.mem n hn).resolve_right List.not_mem_nil
  | tail _ hbc ih => exact (h.closed ih List.not_mem_nil hbc).resolve_right List.not_mem_nil

/-- When a node is left, the successors of those that are left are left as well, but for those on
    the way to it. -/
theorem split (h : Leaves succ g ns o o') (hg : ∀ m ∈ g, ∀ n ∈ ns, Reach succ m n)
    (ho : ∀ y ∈ o, ∀ d ∈ succ y, d ∈ o ∨ d ∈ g) {x : α} (hx : x ∈ o') (hxo : x ∉ o) :
    ∃ s t, o' = s ++ x :: t ∧ ∀ y ∈ x :: s, ∀ d ∈ succ y, d ∈ s ∨ Reach succ d x := by
  induction h with
  | nil => exact absurd hx hxo
  | left _ _ ih =>
    exact ih (fun m hm n hn => hg m hm n (List.mem_cons_of_mem _ hn)) ho hx hxo
  | back _ _ ih =>
    exact ih (fun m hm n hn => hg m hm n (List.mem_cons_of_mem _ hn)) ho hx hxo
  | @visit g ns o o₁ o' n hn _ h₁ h ih₁ ih =>
    obtain ⟨rest, rfl⟩ : o₁ ++ [n] <+: o' := h.isPrefix
    have hgn : ∀ m ∈ n :: g, Reach succ m n :=
      List.forall_mem_cons.2 ⟨.refl, fun m hm => hg m hm n List.mem_cons_self⟩
    have hclosed : ∀ y ∈ n :: o₁, ∀ d ∈ succ y, d ∈ o₁ ∨ d ∈ n :: g := by
      refine List.forall_mem_cons.2 ⟨h₁.mem, fun y hy d hd => ?_⟩
      by_cases hyo : y ∈ o
      · exact (ho y hyo d hd).imp (fun hd => h₁.isPrefix.subset hd) (List.mem_cons_of_mem _)
      · exact h₁.closed hy hyo hd
    by_cases hx₁ : x ∈ o₁
    · obtain ⟨s, t, rfl, hs⟩ := ih₁ (fun m hm d hd => (hgn m hm).tail hd)
        (fun y hy d hd => (ho y hy d hd).imp_right (List.mem_cons_of_mem _)) hx₁ hxo
      exact ⟨s, t ++ [n] ++ rest, by simp, hs⟩
    by_cases hxn : x = n
    · subst hxn
      refine ⟨o₁, rest, by simp, fun y hy d hd => ?_⟩
      exact (hclosed y hy d hd).imp_right (hgn d)
    · refine ih (fun m hm n hn => hg m hm n (List.mem_cons_of_mem _ hn)) (fun y hy d hd => ?_) hx
        (by simp [hx₁, hxn])
      have hy : y ∈ n :: o₁ := by simpa [or_comm] using hy
      rcases hclosed y hy d hd with hd | hd
      · exact .inl (List.mem_append_left _ hd)
      · exact (List.mem_cons.1 hd).imp_left fun hd => by simp [hd]

/-- A node is left after each of its successors, unless there is a path from it back to the
    node. -/
theorem before (h : Leaves succ [] ns [] o) {x d : α} (hx : x ∈ o) (hd : d ∈ succ x) :
    Before o d x ∨ Reach succ d x := by
  obtain ⟨s, t, rfl, hs⟩ := h.split (fun m hm => absurd hm List.not_mem_nil)
    (fun y hy => absurd hy List.not_mem_nil) hx List.not_mem_nil
  exact (hs x List.mem_cons_self d hd).imp_left fun hd => before_append_cons hd

end Leaves

end DepthFirst
