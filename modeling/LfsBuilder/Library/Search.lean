import LfsBuilder.Library.DepthFirst

/-!
# Depth-first marking

The nodes that a depth-first traversal *marks*, each one before its subtree:
`Marks succ ns s s'` says that following the nodes `ns` in turn, when the nodes in
`s` are already marked, ends with the nodes in `s'` marked. A node that is marked
is not followed again, whether its subtree is done or not.

* `Marks.closed`: the nodes that are new have all their successors marked;
* `Marks.mem_iff`: from no marked nodes, it marks what its nodes reach.
-/

namespace DepthFirst

open Relation

variable {α : Type*} [DecidableEq α] (succ : α → List α)

/-- Following the nodes `ns` in turn, when the nodes in `s` are already marked, ends
    with the nodes in `s'` marked: a node is marked before its subtree, unless it
    already is. -/
inductive Marks : List α → Finset α → Finset α → Prop
  | nil {s : Finset α} : Marks [] s s
  | seen {n : α} {ns : List α} {s s' : Finset α} : n ∈ s → Marks ns s s' → Marks (n :: ns) s s'
  | visit {n : α} {ns : List α} {s s₁ s' : Finset α} : n ∉ s → Marks (succ n) (insert n s) s₁ →
      Marks ns s₁ s' → Marks (n :: ns) s s'

variable {succ}

namespace Marks

variable {ns : List α} {s s' : Finset α}

/-- A marked node stays so. -/
theorem subset (h : Marks succ ns s s') : s ⊆ s' := by
  induction h with
  | nil => exact Finset.Subset.refl _
  | seen _ _ ih => exact ih
  | visit _ _ _ ih₁ ih => exact (Finset.subset_insert _ _).trans (ih₁.trans ih)

theorem mem (h : Marks succ ns s s') : ∀ n ∈ ns, n ∈ s' := by
  induction h with
  | nil => exact fun _ hn => absurd hn List.not_mem_nil
  | seen hn h ih => exact List.forall_mem_cons.2 ⟨h.subset hn, ih⟩
  | visit _ h₁ h _ ih =>
    exact List.forall_mem_cons.2 ⟨h.subset (h₁.subset (Finset.mem_insert_self _ _)), ih⟩

/-- The successors of a new node are marked. -/
theorem closed (h : Marks succ ns s s') {x d : α} (hx : x ∈ s') (hxs : x ∉ s) (hd : d ∈ succ x) :
    d ∈ s' := by
  induction h with
  | nil => exact absurd hx hxs
  | seen _ _ ih => exact ih hx hxs
  | @visit n _ _ s₁ _ _ h₁ h ih₁ ih =>
    by_cases hx₁ : x ∈ s₁
    · -- Either `x` is `n`, all of whose successors are followed, or it is new below `n`.
      rcases eq_or_ne x n with rfl | hne
      · exact h.subset (h₁.mem d hd)
      · exact h.subset (ih₁ hx₁ fun hi => (Finset.mem_insert.1 hi).elim hne hxs)
    · exact ih hx hx₁

/-- A new node is reached. -/
theorem reach (h : Marks succ ns s s') {x : α} (hx : x ∈ s') :
    x ∈ s ∨ ∃ n ∈ ns, Reach succ n x := by
  induction h with
  | nil => exact .inl hx
  | seen _ _ ih => exact (ih hx).imp_right fun ⟨m, hm, hr⟩ => ⟨m, List.mem_cons_of_mem _ hm, hr⟩
  | @visit n _ _ s₁ _ _ _ _ ih₁ ih =>
    rcases ih hx with hx | ⟨m, hm, hr⟩
    · rcases ih₁ hx with hx | ⟨d, hd, hr⟩
      · rcases Finset.mem_insert.1 hx with rfl | hx
        · exact .inr ⟨x, List.mem_cons_self, .refl⟩
        · exact .inl hx
      · exact .inr ⟨n, List.mem_cons_self, .head (show Edge succ n d from hd) hr⟩
    · exact .inr ⟨m, List.mem_cons_of_mem _ hm, hr⟩

theorem append {ms : List α} {s₁ : Finset α} (h₁ : Marks succ ns s s₁) (h : Marks succ ms s₁ s') :
    Marks succ (ns ++ ms) s s' := by
  induction h₁ with
  | nil => exact h
  | seen hn _ ih => exact .seen hn (ih h)
  | visit hn hn₁ _ _ ih => exact .visit hn hn₁ (ih h)

/-- From no marked nodes, what is marked is what the nodes reach. -/
theorem mem_iff (h : Marks succ ns ∅ s') {x : α} : x ∈ s' ↔ ∃ n ∈ ns, Reach succ n x := by
  constructor
  · exact fun hx => (h.reach hx).resolve_left (Finset.notMem_empty x)
  · rintro ⟨n, hn, hr⟩
    induction hr with
    | refl => exact h.mem n hn
    | tail _ hd hx => exact h.closed hx (Finset.notMem_empty _) hd

end Marks

/-- What is left of the nodes in `u` after another one of them is marked. -/
theorem card_sdiff_insert_lt {u s : Finset α} {n : α} (hn : n ∈ u) (hs : n ∉ s) :
    (u \ insert n s).card < (u \ s).card := by
  refine Finset.card_lt_card (Finset.ssubset_iff_of_subset ?_ |>.2 ⟨n, ?_, ?_⟩)
  · exact Finset.sdiff_subset_sdiff Finset.Subset.rfl (Finset.subset_insert n s)
  · exact Finset.mem_sdiff.2 ⟨hn, hs⟩
  · exact fun h => (Finset.mem_sdiff.1 h).2 (Finset.mem_insert_self n s)

end DepthFirst
