import Mathlib

/-!
# Depth-first emission

The order in which a depth-first traversal *emits* the nodes of a graph, each
one after its subtree, described without colours or a stack: `Emits succ ns o o'`
says that visiting the nodes `ns` in turn, when the nodes `o` are already
emitted, ends with the nodes `o'` emitted.

* `Ordered`: an emission order, every node coming after all its successors;
* `Emits.ordered`: a traversal extends an emission order to an emission order;
* `Emits.mem_iff`: what it emits is what its nodes reach;
* `Ordered.acyclic`: the nodes of an emission order are on no cycle;
* `Emits.exists_blocks`: the emission falls into blocks, one for each node that
  is visited in turn: what the node is the first to reach, itself last;
* `Emits.before_iff`: which of two nodes is emitted first is decided by the
  graph alone, by the first path to either of them (`First`).
-/

namespace DepthFirst

open Relation

variable {α : Type*} (succ : α → List α)

/-- There is an edge from a node to each of its successors. -/
def Edge (a b : α) : Prop := b ∈ succ a

/-- The nodes reached from a node along edges, itself included. -/
abbrev Reach : α → α → Prop := ReflTransGen (Edge succ)

/-- The node `a` occurs before the node `b` in the list `l`. -/
def Before (l : List α) (a b : α) : Prop := [a, b].Sublist l

/-- The lists in which every node occurs once, after all its successors. -/
inductive Ordered : List α → Prop
  | nil : Ordered []
  | snoc {o : List α} {n : α} : Ordered o → n ∉ o → (∀ d ∈ succ n, d ∈ o) → Ordered (o ++ [n])

/-- Visiting the nodes `ns` in turn, when the nodes `o` are already emitted,
    ends with the nodes `o'` emitted: a node is emitted after its subtree,
    unless it already is. -/
inductive Emits : List α → List α → List α → Prop
  | nil {o : List α} : Emits [] o o
  | seen {n : α} {ns o o' : List α} : n ∈ o → Emits ns o o' → Emits (n :: ns) o o'
  | visit {n : α} {ns o o₁ o' : List α} : n ∉ o → Emits (succ n) o o₁ → n ∉ o₁ →
      Emits ns (o₁ ++ [n]) o' → Emits (n :: ns) o o'

/-- Of the two nodes `q` and `p`, a depth-first traversal of the nodes `ns` is
    done with `q` first: following the nodes and their successors in order, the
    first path to either leads to `q` alone, or to `q` below `p`. -/
inductive First : List α → α → α → Prop
  | skip {n q p : α} {ns : List α} : ¬Reach succ n q → ¬Reach succ n p → First ns q p →
      First (n :: ns) q p
  | here {n q p : α} {ns : List α} : Reach succ n q → ¬Reach succ n p → First (n :: ns) q p
  | under {n q : α} {ns : List α} : q ≠ n → Reach succ n q → First (n :: ns) q n
  | inside {n q p : α} {ns : List α} : q ≠ n → p ≠ n → Reach succ n q → Reach succ n p →
      First (succ n) q p → First (n :: ns) q p

variable {succ}

/-! ## Emission orders -/

namespace Ordered

theorem nodup {o : List α} (h : Ordered succ o) : o.Nodup := by
  induction h with
  | nil => exact List.nodup_nil
  | snoc _ hn _ ih =>
    refine List.nodup_append.2 ⟨ih, List.nodup_singleton _, fun a ha b hb => ?_⟩
    rw [List.mem_singleton.1 hb]
    exact fun e => hn (e ▸ ha)

/-- An emission order holds the successors of its nodes. -/
theorem mem_of_edge {o : List α} (h : Ordered succ o) {a b : α} (ha : a ∈ o)
    (hab : Edge succ a b) : b ∈ o := by
  induction h with
  | nil => exact absurd ha List.not_mem_nil
  | snoc _ _ hs ih =>
    rcases List.mem_append.1 ha with ha | ha
    · exact List.mem_append_left _ (ih ha)
    · rw [List.mem_singleton.1 ha] at hab
      exact List.mem_append_left _ (hs b hab)

theorem mem_of_reach {o : List α} (h : Ordered succ o) {a b : α} (ha : a ∈ o)
    (hab : Reach succ a b) : b ∈ o := by
  induction hab with
  | refl => exact ha
  | tail _ hbc ih => exact h.mem_of_edge ih hbc

/-- Every successor of a node occurs before it. -/
theorem before {o : List α} (h : Ordered succ o) {p d : α} (hp : p ∈ o) (hd : d ∈ succ p) :
    Before o d p := by
  induction h with
  | nil => exact absurd hp List.not_mem_nil
  | @snoc o n _ _ hs ih =>
    rcases List.mem_append.1 hp with hp | hp
    · exact (ih hp).trans (List.sublist_append_left _ _)
    · rw [List.mem_singleton.1 hp] at hd ⊢
      exact (List.singleton_sublist.2 (hs d hd)).append (List.Sublist.refl [n])

/-- The nodes of an emission order are on no cycle. -/
theorem acyclic {o : List α} (h : Ordered succ o) {a : α} (ha : a ∈ o) :
    ¬TransGen (Edge succ) a a := by
  induction h with
  | nil => exact absurd ha List.not_mem_nil
  | @snoc o n ho hn hs ih =>
    intro hcyc
    rcases List.mem_append.1 ha with ha | ha
    · exact ih ha hcyc
    · -- A cycle through the last node would leave it for the nodes before it,
      -- which hold all they reach.
      rw [List.mem_singleton.1 ha] at hcyc
      obtain ⟨d, hd, hdn⟩ := TransGen.head'_iff.1 hcyc
      exact hn (ho.mem_of_reach (hs d hd) hdn)

end Ordered

/-! ## Traversals -/

namespace Emits

theorem append {ns ms o o₁ o' : List α} (h : Emits succ ns o o₁) (h' : Emits succ ms o₁ o') :
    Emits succ (ns ++ ms) o o' := by
  induction h with
  | nil => exact h'
  | seen hn _ ih => exact .seen hn (ih h')
  | visit hn hs hn₁ _ _ ih => exact .visit hn hs hn₁ (ih h')

/-- A traversal only appends to the emitted nodes. -/
theorem isPrefix {ns o o' : List α} (h : Emits succ ns o o') : o <+: o' := by
  induction h with
  | nil => exact List.prefix_rfl
  | seen _ _ ih => exact ih
  | visit _ _ _ _ ih₁ ih => exact ih₁.trans ((List.prefix_append _ _).trans ih)

/-- The visited nodes are emitted. -/
theorem mem {ns o o' : List α} (h : Emits succ ns o o') : ∀ n ∈ ns, n ∈ o' := by
  induction h with
  | nil => exact fun _ hn => absurd hn List.not_mem_nil
  | seen hn h ih => exact List.forall_mem_cons.2 ⟨h.isPrefix.subset hn, ih⟩
  | visit _ _ _ h _ ih => exact List.forall_mem_cons.2 ⟨h.isPrefix.subset (by simp), ih⟩

theorem ordered {ns o o' : List α} (h : Emits succ ns o o') (ho : Ordered succ o) :
    Ordered succ o' := by
  induction h with
  | nil => exact ho
  | seen _ _ ih => exact ih ho
  | visit _ hs hn₁ _ ih₁ ih => exact ih (.snoc (ih₁ ho) hn₁ hs.mem)

theorem reach_of_mem {ns o o' : List α} (h : Emits succ ns o o') {x : α} (hx : x ∈ o') :
    x ∈ o ∨ ∃ n ∈ ns, Reach succ n x := by
  induction h with
  | nil => exact .inl hx
  | seen _ _ ih => exact (ih hx).imp_right fun ⟨m, hm, hr⟩ => ⟨m, List.mem_cons_of_mem _ hm, hr⟩
  | @visit n ns o o₁ o' _ _ _ _ ih₁ ih =>
    rcases ih hx with hx | ⟨m, hm, hr⟩
    · rcases List.mem_append.1 hx with hx | hx
      · -- Emitted in the subtree of `n`: reached from `n` through a successor.
        exact (ih₁ hx).imp_right fun ⟨d, hd, hr⟩ =>
          ⟨n, List.mem_cons_self, .head (show Edge succ n d from hd) hr⟩
      · exact .inr ⟨n, List.mem_cons_self, List.mem_singleton.1 hx ▸ .refl⟩
    · exact .inr ⟨m, List.mem_cons_of_mem _ hm, hr⟩

/-- Visiting a node again emits nothing. -/
theorem insert {as bs o o' : List α} {n : α} (h : Emits succ (as ++ bs) o o')
    (hn : n ∈ as ∨ n ∈ o) : Emits succ (as ++ n :: bs) o o' := by
  induction as generalizing o with
  | nil => exact .seen (hn.resolve_left List.not_mem_nil) h
  | cons a as ih =>
    rw [List.cons_append] at h ⊢
    cases h with
    | seen ha h =>
      refine .seen ha (ih h ?_)
      rcases hn with hn | hn
      · rcases List.mem_cons.1 hn with rfl | hn
        · exact .inr ha
        · exact .inl hn
      · exact .inr hn
    | visit ha hs ha₁ h =>
      refine .visit ha hs ha₁ (ih h ?_)
      rcases hn with hn | hn
      · rcases List.mem_cons.1 hn with rfl | hn
        · exact .inr (List.mem_append_right _ (List.mem_singleton_self _))
        · exact .inl hn
      · exact .inr (List.mem_append_left _ (hs.isPrefix.subset hn))

/-- A traversal emits what its nodes reach. -/
theorem mem_iff {ns o o' : List α} (h : Emits succ ns o o') (ho : Ordered succ o) {x : α} :
    x ∈ o' ↔ x ∈ o ∨ ∃ n ∈ ns, Reach succ n x := by
  refine ⟨h.reach_of_mem, fun hx => ?_⟩
  rcases hx with hx | ⟨n, hn, hr⟩
  · exact h.isPrefix.subset hx
  · exact (h.ordered ho).mem_of_reach (h.mem n hn) hr

/-- The visits of a list are those of its parts in turn. -/
theorem of_append {as bs o o' : List α} (h : Emits succ (as ++ bs) o o') :
    ∃ o₁, Emits succ as o o₁ ∧ Emits succ bs o₁ o' := by
  induction as generalizing o with
  | nil => exact ⟨o, .nil, h⟩
  | cons a as ih =>
    rw [List.cons_append] at h
    cases h with
    | seen ha h =>
      obtain ⟨o₁, h₁, h₂⟩ := ih h
      exact ⟨o₁, .seen ha h₁, h₂⟩
    | visit ha hs ha₁ h =>
      obtain ⟨o₁, h₁, h₂⟩ := ih h
      exact ⟨o₁, .visit ha hs ha₁ h₁, h₂⟩

/-- What a traversal emits is determined by where it starts. -/
theorem unique {ns o o₁ o₂ : List α} (h₁ : Emits succ ns o o₁) (h₂ : Emits succ ns o o₂) :
    o₁ = o₂ := by
  induction h₁ generalizing o₂ with
  | nil =>
    cases h₂
    rfl
  | seen hn _ ih =>
    cases h₂ with
    | seen _ h₂ => exact ih h₂
    | visit hn' => exact absurd hn hn'
  | visit hn _ _ _ ih₁ ih =>
    cases h₂ with
    | seen hn' => exact absurd hn' hn
    | visit _ hs _ h₂ =>
      obtain rfl := ih₁ hs
      exact ih h₂

/-- A traversal depends on the successors of the nodes that it emits only. -/
theorem congr {succ' : α → List α} {ns o o' : List α} (h : Emits succ ns o o')
    (hs : ∀ n ∈ o', succ' n = succ n) : Emits succ' ns o o' := by
  induction h with
  | nil => exact .nil
  | seen hn _ ih => exact .seen hn (ih hs)
  | @visit n ns o o₁ o' hn h₁ hn₁ h ih₁ ih =>
    have hmem : ∀ x ∈ o₁ ++ [n], x ∈ o' := fun x hx => h.isPrefix.subset hx
    refine .visit hn ?_ hn₁ (ih hs)
    rw [hs n (hmem n (by simp))]
    exact ih₁ fun x hx => hs x (hmem x (List.mem_append_left _ hx))

/-- The visit of one node appends what it reaches, itself last, unless it is
    emitted already. -/
theorem exists_block {n : α} {o o' : List α} (h : Emits succ [n] o o') (ho : Ordered succ o) :
    ∃ b, o' = o ++ b ∧ (∀ x, x ∈ b ↔ Reach succ n x ∧ x ∉ o) ∧
      (b = [] ∨ b.getLast? = some n) := by
  obtain ⟨b, rfl⟩ := h.isPrefix
  have hnd := List.nodup_append.1 (h.ordered ho).nodup
  refine ⟨b, rfl, fun x => ⟨fun hx => ?_, fun hx => ?_⟩, ?_⟩
  · have hxo : x ∉ o := fun hxo => hnd.2.2 x hxo x hx rfl
    rcases (h.mem_iff ho).1 (List.mem_append_right _ hx) with hx | ⟨m, hm, hr⟩
    · exact absurd hx hxo
    · exact ⟨List.mem_singleton.1 hm ▸ hr, hxo⟩
  · have hmem := (h.mem_iff ho).2 (.inr ⟨n, List.mem_singleton_self n, hx.1⟩)
    exact (List.mem_append.1 hmem).resolve_left hx.2
  · generalize hb : o ++ b = o' at h
    cases h with
    | seen _ h =>
      cases h
      exact .inl (List.append_cancel_left (hb.trans (List.append_nil o).symm))
    | @visit _ _ _ o₁ _ _ hs _ h =>
      cases h
      obtain ⟨t, rfl⟩ := hs.isPrefix
      rw [List.append_assoc] at hb
      exact .inr (List.append_cancel_left hb ▸ List.getLast?_concat)

/-- A traversal appends one block for each of its nodes: what the node reaches
    and nothing visited before it does, itself last if there is anything. -/
theorem exists_blocks {ns o o' : List α} (h : Emits succ ns o o') (ho : Ordered succ o)
    (hns : ns.Nodup) :
    ∃ block : α → List α, o' = o ++ ns.flatMap block ∧
      ∀ before n after, ns = before ++ n :: after →
        (∀ x, x ∈ block n ↔ Reach succ n x ∧ x ∉ o ∧ ∀ e ∈ before, ¬Reach succ e x) ∧
        (block n = [] ∨ (block n).getLast? = some n) := by
  classical
  induction ns generalizing o with
  | nil =>
    cases h
    exact ⟨fun _ => [], (List.append_nil _).symm, fun before n after e => by simp at e⟩
  | cons m ns ih =>
    obtain ⟨hm, hns⟩ := List.nodup_cons.1 hns
    obtain ⟨o₁, h₁, h₂⟩ := (List.singleton_append ▸ h : Emits succ ([m] ++ ns) o o').of_append
    obtain ⟨b, hb, hmem, hlast⟩ := h₁.exists_block ho
    obtain ⟨block, ho', hblock⟩ := ih h₂ (h₁.ordered ho) hns
    have hrest : ns.flatMap (Function.update block m b) = ns.flatMap block := by
      refine List.flatMap_congr fun n hn => ?_
      rw [Function.update_of_ne (ne_of_mem_of_not_mem hn hm)]
    refine ⟨Function.update block m b, ?_, fun before n after e => ?_⟩
    · rw [ho', hb, List.flatMap_cons, Function.update_self, hrest, List.append_assoc]
    · cases before with
      | nil =>
        obtain ⟨rfl, -⟩ := List.cons.inj e
        rw [Function.update_self]
        exact ⟨fun x => by simp [hmem], hlast⟩
      | cons m' before =>
        obtain ⟨rfl, rfl⟩ := List.cons.inj e
        have hnm : n ≠ m := ne_of_mem_of_not_mem (by simp) hm
        obtain ⟨hx, hl⟩ := hblock before n after rfl
        rw [Function.update_of_ne hnm]
        refine ⟨fun x => (hx x).trans (and_congr_right fun _ => ?_), hl⟩
        -- Emitted before the visit of `n`: emitted from the start, or reached from `m`.
        rw [h₁.mem_iff ho, List.forall_mem_cons]
        simp only [List.mem_singleton, exists_eq_left, not_or, and_assoc]

end Emits

/-! ## Which node comes first -/

theorem Before.mem_left {l : List α} {a b : α} (h : Before l a b) : a ∈ l := h.subset (by simp)

theorem Before.mem_right {l : List α} {a b : α} (h : Before l a b) : b ∈ l := h.subset (by simp)

theorem Before.asymm {l : List α} (hl : l.Nodup) {a b : α} (h : Before l a b) : ¬Before l b a := by
  induction l with
  | nil => exact absurd h.mem_left List.not_mem_nil
  | cons x l ih =>
    intro h'
    obtain ⟨hx, hl⟩ := List.nodup_cons.1 hl
    rcases List.sublist_cons_iff.1 h with h | ⟨_, e, h⟩
    · rcases List.sublist_cons_iff.1 h' with h' | ⟨_, e', _⟩
      · exact ih hl h h'
      · exact hx ((List.cons.inj e').1 ▸ Before.mem_right h)
    · obtain ⟨rfl, rfl⟩ := List.cons.inj e
      rcases List.sublist_cons_iff.1 h' with h' | ⟨_, e', _⟩
      · exact hx (Before.mem_right h')
      · exact hx ((List.cons.inj e').1 ▸ List.singleton_sublist.1 h)

theorem Before.total {l : List α} {a b : α} (ha : a ∈ l) (hb : b ∈ l) (hab : a ≠ b) :
    Before l a b ∨ Before l b a := by
  induction l with
  | nil => exact absurd ha List.not_mem_nil
  | cons x l ih =>
    rcases List.mem_cons.1 ha with rfl | hal
    · exact .inl ((List.singleton_sublist.2 (List.mem_of_ne_of_mem hab.symm hb)).cons_cons _)
    · rcases List.mem_cons.1 hb with rfl | hbl
      · exact .inr ((List.singleton_sublist.2 hal).cons_cons _)
      · exact (ih hal hbl).imp (List.Sublist.cons _) (List.Sublist.cons _)

/-- A node of a prefix occurs before a node that is not in the prefix. -/
theorem before_of_isPrefix {o o' : List α} (h : o <+: o') {a b : α} (ha : a ∈ o) (hb : b ∈ o')
    (hb' : b ∉ o) : Before o' a b := by
  obtain ⟨t, rfl⟩ := h
  exact (List.singleton_sublist.2 ha).append
    (List.singleton_sublist.2 ((List.mem_append.1 hb).resolve_left hb'))

/-- Two nodes of a prefix occur in the order in which they occur in it. -/
theorem before_iff_of_isPrefix {o o' : List α} (h : o <+: o') (ho : o'.Nodup) {a b : α} (ha : a ∈ o)
    (hb : b ∈ o) (hab : a ≠ b) : Before o' a b ↔ Before o a b := by
  refine ⟨fun h' => ?_, fun h' => h'.trans h.sublist⟩
  by_contra hn
  exact h'.asymm ho (((Before.total ha hb hab).resolve_left hn).trans h.sublist)

/-- The nodes of an emission order, visited in turn, are emitted in that order. -/
theorem Ordered.emits {o : List α} (h : Ordered succ o) : Emits succ o [] o := by
  have hseen {o ns : List α} (hns : ∀ n ∈ ns, n ∈ o) : Emits succ ns o o := by
    induction ns with
    | nil => exact .nil
    | cons n ns ih =>
      rw [List.forall_mem_cons] at hns
      exact .seen hns.1 (ih hns.2)
  induction h with
  | nil => exact .nil
  | snoc _ hn hs ih => exact ih.append (.visit hn (hseen hs) hn .nil)

/-- A list in which every node comes after its successors is an emission order. -/
theorem Ordered.of_before {o : List α} (ho : o.Nodup)
    (h : ∀ p ∈ o, ∀ d ∈ succ p, Before o d p) : Ordered succ o := by
  induction o using List.reverseRecOn with
  | nil => exact .nil
  | append_singleton o n ih =>
    have hn : n ∉ o := fun hn => (List.nodup_append.1 ho).2.2 n hn n (by simp) rfl
    have hpre : o <+: o ++ [n] := List.prefix_append o [n]
    -- The last node comes before no node.
    have hmem {p d : α} (hp : p ∈ o ++ [n]) (hd : d ∈ succ p) : d ∈ o ∧ d ≠ p := by
      have hb := h p hp d hd
      have hdp : d ≠ p := fun e => Before.asymm ho (e ▸ hb) (e ▸ hb)
      refine ⟨(List.mem_append.1 hb.mem_left).resolve_right fun hdn => ?_, hdp⟩
      rw [List.mem_singleton] at hdn
      subst hdn
      have hpo : p ∈ o := (List.mem_append.1 hp).resolve_right (by simpa using hdp.symm)
      exact (before_of_isPrefix hpre hpo (by simp) hn).asymm ho hb
    refine .snoc (ih (List.nodup_append.1 ho).1 fun p hp d hd => ?_) hn
      fun d hd => (hmem (by simp) hd).1
    have hp' : p ∈ o ++ [n] := List.mem_append_left _ hp
    obtain ⟨hdo, hdp⟩ := hmem hp' hd
    exact (before_iff_of_isPrefix hpre ho hdo hp hdp).1 (h p hp' d hd)

/-- What a traversal emits before one of its nodes is reached from that node or
    from one that is visited earlier. -/
theorem Emits.reach_of_before {as bs o : List α} {n x : α} (h : Emits succ (as ++ n :: bs) [] o)
    (hx : Before o x n) : ∃ e ∈ as ++ [n], Reach succ e x := by
  rw [List.append_cons] at h
  obtain ⟨o₁, h₁, h₂⟩ := h.of_append
  have hn : n ∈ o₁ := h₁.mem n (by simp)
  have hx₁ : x ∈ o₁ := by
    by_contra hx₁
    exact (before_of_isPrefix h₂.isPrefix hn hx.mem_left hx₁).asymm (h.ordered .nil).nodup hx
  exact (h₁.reach_of_mem hx₁).resolve_left List.not_mem_nil

section

variable {n q p : α} {ns : List α}

theorem first_cons_of_not_reach (hq : ¬Reach succ n q) (hp : ¬Reach succ n p) :
    First succ (n :: ns) q p ↔ First succ ns q p := by
  refine ⟨fun h => ?_, .skip hq hp⟩
  cases h with
  | skip _ _ h => exact h
  | here hr => exact absurd hr hq
  | under _ hr => exact absurd hr hq
  | inside _ _ hr => exact absurd hr hq

theorem first_cons_of_reach (hqn : q ≠ n) (hpn : p ≠ n) (hq : Reach succ n q)
    (hp : Reach succ n p) : First succ (n :: ns) q p ↔ First succ (succ n) q p := by
  refine ⟨fun h => ?_, .inside hqn hpn hq hp⟩
  cases h with
  | skip hr => exact absurd hq hr
  | here _ hr => exact absurd hp hr
  | under => exact absurd rfl hpn
  | inside _ _ _ _ h => exact h

/-- A path to `p` alone, or to `q` and then to `p`, does not put `q` first. -/
theorem not_first_cons (hq : q = n ∨ ¬Reach succ n q) (hp : Reach succ n p) (hqp : q ≠ p) :
    ¬First succ (n :: ns) q p := by
  intro h
  cases h with
  | skip _ hr => exact hr hp
  | here _ hr => exact hr hp
  | under _ hr => exact hq.elim hqp fun h => h hr
  | inside hqn _ hr => exact hq.elim hqn fun h => h hr

end

/-- Of two nodes that a traversal emits, the one emitted first is the one that
    the first path to either of them decides on. -/
theorem Emits.before_iff {ns o o' : List α} (h : Emits succ ns o o') (ho : Ordered succ o)
    {q p : α} (hq : q ∉ o) (hp : p ∉ o) (hq' : q ∈ o') (hp' : p ∈ o') (hqp : q ≠ p) :
    Before o' q p ↔ First succ ns q p := by
  induction h with
  | nil => exact absurd hq' hq
  | @seen n ns o o' hn _ ih =>
    -- An emitted node reaches emitted nodes only.
    rw [ih ho hq hp hq' hp']
    exact (first_cons_of_not_reach (fun hr => hq (ho.mem_of_reach hn hr))
      fun hr => hp (ho.mem_of_reach hn hr)).symm
  | @visit n ns o o₁ o' hn hs hn₁ h ih₁ ih =>
    have ho₁ : Ordered succ (o₁ ++ [n]) := .snoc (hs.ordered ho) hn₁ hs.mem
    have hnd : o'.Nodup := (h.ordered ho₁).nodup
    have hpre : o₁ <+: o' := (List.prefix_append _ _).trans h.isPrefix
    -- Among the new nodes, `n` reaches those emitted up to itself.
    have hreach {x : α} (hx : x ∉ o) : x ∈ o₁ ++ [n] ↔ Reach succ n x := by
      have hv : Emits succ [n] o (o₁ ++ [n]) := .visit hn hs hn₁ .nil
      rw [hv.mem_iff ho]
      simp [hx]
    by_cases hq₁ : q ∈ o₁ ++ [n] <;> by_cases hp₁ : p ∈ o₁ ++ [n]
    · have hnq := (hreach hq).1 hq₁
      have hnp := (hreach hp).1 hp₁
      rcases eq_or_ne p n with rfl | hpn
      · have hqo : q ∈ o₁ := (List.mem_append.1 hq₁).resolve_right (by simpa using hqp)
        exact iff_of_true (before_of_isPrefix hpre hqo hp' hn₁) (.under hqp hnq)
      have hpo : p ∈ o₁ := (List.mem_append.1 hp₁).resolve_right (by simpa using hpn)
      rcases eq_or_ne q n with rfl | hqn
      · exact iff_of_false ((before_of_isPrefix hpre hpo hq' hn₁).asymm hnd)
          (not_first_cons (.inl rfl) hnp hqp)
      have hqo : q ∈ o₁ := (List.mem_append.1 hq₁).resolve_right (by simpa using hqn)
      rw [before_iff_of_isPrefix hpre hnd hqo hpo hqp, ih₁ ho hq hp hqo hpo]
      exact (first_cons_of_reach hqn hpn hnq hnp).symm
    · exact iff_of_true (before_of_isPrefix h.isPrefix hq₁ hp' hp₁)
        (.here ((hreach hq).1 hq₁) (mt (hreach hp).2 hp₁))
    · exact iff_of_false ((before_of_isPrefix h.isPrefix hp₁ hq' hq₁).asymm hnd)
        (not_first_cons (.inr (mt (hreach hq).2 hq₁)) ((hreach hp).1 hp₁) hqp)
    · rw [ih ho₁ hq₁ hp₁ hq' hp']
      exact (first_cons_of_not_reach (mt (hreach hq).2 hq₁) (mt (hreach hp).2 hp₁)).symm

end DepthFirst
