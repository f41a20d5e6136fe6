import LfsBuilder.Library.DepthFirst
import LfsBuilder.Library.Dict

/-!
# Sorting a dependency graph

`topological_sort` of `dependency_resolver.py`: a recursive function `visit`
marks the nodes in a dictionary it shares with its callers, appends a node to
the build order after its dependencies, and raises an error when it comes back
to a node it is still visiting.

The recursion is bounded by the interpreter: `visit` takes the calls that are
left before a `RecursionError`. `visit_sound` says what a call can do, in terms
of the emission orders of `DepthFirst`; everything else follows from it:

* `topologicalSort_cases`: the order returned is a depth-first emission of the
  keys, and the node named in a `ValueError` is on a cycle;
* `topologicalSort_ne_recursionError`: as many calls as there are keys, and one
  more, are enough, and more of them change nothing (`topologicalSort_mono`);
* `topologicalSort_blocks`: the order as it falls into blocks, one for each key.
-/

namespace LfsBuilder

open DepthFirst Relation

variable {α : Type*} [DecidableEq α]

/-- The states of a node in the dictionary `visited`. -/
inductive Mark
  | visiting
  | visited
  deriving DecidableEq

/-- The exceptions of `topological_sort`: out of stack, or a
    `ValueError` with the text `circular dependency detected at` the node. -/
inductive Raised (α : Type*)
  | recursionError
  | valueError (node : α)
  deriving DecidableEq

/-- The variables that the nested function `visit` shares with its callers. -/
structure Sorting (α : Type*) where
  visited : α → Option Mark
  order : List α

/-- The state before any visit. -/
def Sorting.start : Sorting α := { visited := fun _ => none, order := [] }

/-- `visited[node] = mark` -/
def Sorting.mark (st : Sorting α) (node : α) (mark : Mark) : Sorting α :=
  { st with visited := Function.update st.visited node (some mark) }

/-- `visit`, with `calls` nested calls left before a `RecursionError`. -/
def visit (graph : Dict α (List α)) : (calls : ℕ) → α → Sorting α → Except (Raised α) (Sorting α)
  | 0, _, _ => .error .recursionError
  | calls + 1, node, st =>
    match st.visited node with
    | some .visiting => .error (.valueError node)
    | some .visited => .ok st
    | none => do
      let st ← (graph.getD node []).foldlM
        (fun st dep => if dep ∈ graph then visit graph calls dep st else .ok st)
        (st.mark node .visiting)
      let st := st.mark node .visited
      return { st with order := st.order ++ [node] }

/-- `topological_sort`, with `calls` nested calls allowed. -/
def topologicalSort (calls : ℕ) (graph : Dict α (List α)) : Except (Raised α) (List α) := do
  let st ← graph.keys.foldlM (fun st node => visit graph calls node st) .start
  return st.order

/-- The dependencies of a node that are themselves keys. -/
def succ (graph : Dict α (List α)) (node : α) : List α :=
  (graph.getD node []).filter (· ∈ graph)

theorem mem_succ {graph : Dict α (List α)} {p d : α} :
    d ∈ succ graph p ↔ d ∈ graph.getD p [] ∧ d ∈ graph := by
  rw [succ, List.mem_filter, decide_eq_true_iff]

/-- Skipping the dependencies that are not keys is visiting the others. -/
theorem foldlM_deps (graph : Dict α (List α)) (calls : ℕ) (deps : List α) (st : Sorting α) :
    deps.foldlM (fun st dep => if dep ∈ graph then visit graph calls dep st else .ok st) st =
      (deps.filter (· ∈ graph)).foldlM (fun st dep => visit graph calls dep st) st := by
  induction deps generalizing st with
  | nil => rfl
  | cons d deps ih =>
    by_cases hd : d ∈ graph
    · rw [List.filter_cons_of_pos (by simpa using hd), List.foldlM_cons, List.foldlM_cons,
        if_pos hd]
      exact bind_congr ih
    · rw [List.filter_cons_of_neg (by simpa using hd), List.foldlM_cons, if_neg hd]
      exact ih st

/-! ## What a visit can do -/

section

variable (graph : Dict α (List α))

/-- The marks agree with the order: the nodes marked as visited are those
    emitted, each after its dependencies. -/
structure Consistent (st : Sorting α) : Prop where
  ordered : Ordered (succ graph) st.order
  visited_iff : ∀ n, st.visited n = some .visited ↔ n ∈ st.order

/-- The visits of `nodes` lead from `st` to `st'`: they emit the nodes depth
    first, and leave the nodes that are being visited as they are. -/
structure Visits (nodes : List α) (st st' : Sorting α) : Prop where
  emits : Emits (succ graph) nodes st.order st'.order
  consistent : Consistent graph st'
  visiting_iff : ∀ n, st'.visited n = some .visiting ↔ st.visited n = some .visiting

/-- The keys without a mark. -/
def unmarked (st : Sorting α) : Finset α := graph.keys.toFinset.filter fun n => st.visited n = none

/-- What the visits of `nodes` can do: emit them, or find a cycle, or run out of
    calls, which are then no more than the unmarked keys. -/
def Sound (calls : ℕ) (nodes : List α) (st : Sorting α) :
    Except (Raised α) (Sorting α) → Prop
  | .ok st' => Visits graph nodes st st'
  | .error (.valueError node) => TransGen (Edge (succ graph)) node node
  | .error .recursionError => calls ≤ (unmarked graph st).card

end

variable {graph : Dict α (List α)}

theorem Sorting.mark_same (st : Sorting α) (node : α) (m : Mark) :
    (st.mark node m).visited node = some m := by
  simp [Sorting.mark]

theorem Sorting.mark_other (st : Sorting α) {node n : α} (h : n ≠ node) (m : Mark) :
    (st.mark node m).visited n = st.visited n := by
  simp [Sorting.mark, h]

theorem Visits.unmarked_subset {nodes : List α} {st st' : Sorting α} (hst : Consistent graph st)
    (h : Visits graph nodes st st') : unmarked graph st' ⊆ unmarked graph st := by
  intro n hn
  simp only [unmarked, Finset.mem_filter] at hn ⊢
  refine ⟨hn.1, ?_⟩
  match hm : st.visited n with
  | none => rfl
  | some .visiting =>
    have := (h.visiting_iff n).2 hm
    rw [hn.2] at this
    cases this
  | some .visited =>
    have := (h.consistent.visited_iff n).2 (h.emits.isPrefix.subset ((hst.visited_iff n).1 hm))
    rw [hn.2] at this
    cases this

theorem unmarked_mark_lt {st : Sorting α} {node : α} (hg : node ∈ graph)
    (hn : st.visited node = none) (m : Mark) :
    (unmarked graph (st.mark node m)).card < (unmarked graph st).card := by
  refine Finset.card_lt_card (Finset.ssubset_iff.2 ⟨node, ?_, ?_⟩)
  · simp [unmarked, st.mark_same]
  · intro n hmem
    simp only [unmarked, Finset.mem_insert, Finset.mem_filter, List.mem_toFinset] at hmem ⊢
    rcases hmem with rfl | ⟨hk, hv⟩
    · exact ⟨hg, hn⟩
    · refine ⟨hk, ?_⟩
      rcases eq_or_ne n node with rfl | hne
      · rw [st.mark_same] at hv
        cases hv
      · rwa [st.mark_other hne] at hv

/-- Sound visits in turn are sound. -/
theorem foldlM_sound {calls : ℕ}
    (ih : ∀ node ∈ graph, ∀ st, Consistent graph st →
      (∀ g, st.visited g = some .visiting → TransGen (Edge (succ graph)) g node) →
      Sound graph calls [node] st (visit graph calls node st))
    (nodes : List α) (hk : ∀ n ∈ nodes, n ∈ graph) (st : Sorting α) (hst : Consistent graph st)
    (hg : ∀ g, st.visited g = some .visiting → ∀ n ∈ nodes, TransGen (Edge (succ graph)) g n) :
    Sound graph calls nodes st
      (nodes.foldlM (fun st node => visit graph calls node st) st) := by
  induction nodes generalizing st with
  | nil => exact ⟨.nil, hst, fun _ => Iff.rfl⟩
  | cons node nodes ihn =>
    rw [List.forall_mem_cons] at hk
    have h₁ := ih node hk.1 st hst fun g hgv => hg g hgv node List.mem_cons_self
    rw [List.foldlM_cons]
    match hv : visit graph calls node st with
    | .error (.valueError m) =>
      rw [hv] at h₁
      exact h₁
    | .error .recursionError =>
      rw [hv] at h₁
      exact h₁
    | .ok st₁ =>
      rw [hv] at h₁
      have h₂ := ihn hk.2 st₁ h₁.consistent fun g hgv n hn =>
        hg g ((h₁.visiting_iff g).1 hgv) n (List.mem_cons_of_mem _ hn)
      change Sound graph calls (node :: nodes) st (nodes.foldlM _ st₁)
      match hvs : nodes.foldlM (fun st node => visit graph calls node st) st₁ with
      | .error (.valueError m) =>
        rw [hvs] at h₂
        exact h₂
      | .error .recursionError =>
        rw [hvs] at h₂
        exact le_trans h₂ (Finset.card_le_card (h₁.unmarked_subset hst))
      | .ok st₂ =>
        rw [hvs] at h₂
        exact ⟨h₁.emits.append h₂.emits, h₂.consistent,
          fun n => (h₂.visiting_iff n).trans (h₁.visiting_iff n)⟩

/-- A visit of a key that all the nodes being visited lead to is sound. -/
theorem visit_sound (calls : ℕ) : ∀ node ∈ graph, ∀ st, Consistent graph st →
    (∀ g, st.visited g = some .visiting → TransGen (Edge (succ graph)) g node) →
    Sound graph calls [node] st (visit graph calls node st) := by
  induction calls with
  | zero => exact fun _ _ _ _ _ => Nat.zero_le _
  | succ calls ih =>
    intro node hk st hst hg
    rw [visit]
    match hv : st.visited node with
    | some .visiting => exact hg node hv
    | some .visited => exact ⟨.seen ((hst.visited_iff node).1 hv) .nil, hst, fun _ => Iff.rfl⟩
    | none =>
      have hn : node ∉ st.order := fun h => by
        rw [(hst.visited_iff node).2 h] at hv
        cases hv
      have hst₁ : Consistent graph (st.mark node .visiting) := by
        refine ⟨hst.ordered, fun n => ?_⟩
        rcases eq_or_ne n node with rfl | hne
        · exact iff_of_false (by simp [st.mark_same]) hn
        · rw [st.mark_other hne]
          exact hst.visited_iff n
      -- The nodes being visited lead to `node`, hence to its dependencies.
      have hg₁ : ∀ g, (st.mark node .visiting).visited g = some .visiting →
          ∀ d ∈ succ graph node, TransGen (Edge (succ graph)) g d := by
        intro g hgv d hd
        rcases eq_or_ne g node with rfl | hne
        · exact .single hd
        · rw [st.mark_other hne] at hgv
          exact .tail (hg g hgv) hd
      have h := foldlM_sound ih (succ graph node) (fun d hd => (mem_succ.1 hd).2) _ hst₁ hg₁
      dsimp only
      rw [foldlM_deps, ← succ]
      match hvs : (succ graph node).foldlM (fun st dep => visit graph calls dep st)
          (st.mark node .visiting) with
      | .error (.valueError m) =>
        rw [hvs] at h
        exact h
      | .error .recursionError =>
        rw [hvs] at h
        exact Nat.succ_le_of_lt (lt_of_le_of_lt h (unmarked_mark_lt hk hv .visiting))
      | .ok st₂ =>
        rw [hvs] at h
        have hn₂ : node ∉ st₂.order := fun hmem => by
          have := (h.consistent.visited_iff node).2 hmem
          rw [(h.visiting_iff node).2 (st.mark_same node .visiting)] at this
          cases this
        refine ⟨.visit hn h.emits hn₂ .nil,
          ⟨.snoc h.consistent.ordered hn₂ h.emits.mem, fun n => ?_⟩, fun n => ?_⟩
        · rcases eq_or_ne n node with rfl | hne
          · exact iff_of_true (st₂.mark_same _ _) (by simp)
          · change (st₂.mark node .visited).visited n = _ ↔ n ∈ st₂.order ++ [node]
            rw [st₂.mark_other hne, h.consistent.visited_iff]
            simp [hne]
        · change (st₂.mark node .visited).visited n = _ ↔ _
          rcases eq_or_ne n node with rfl | hne
          · simp [st₂.mark_same, hv]
          · rw [st₂.mark_other hne, h.visiting_iff, st.mark_other hne]

theorem consistent_start : Consistent graph .start :=
  ⟨.nil, fun _ => iff_of_false nofun List.not_mem_nil⟩

/-- The visits of the keys, from the start. -/
theorem foldlM_keys_sound (graph : Dict α (List α)) (calls : ℕ) :
    Sound graph calls graph.keys .start
      (graph.keys.foldlM (fun st node => visit graph calls node st) .start) :=
  foldlM_sound (visit_sound calls) graph.keys (fun _ h => h) .start consistent_start nofun

/-! ## The sort -/

/-- What the sort can do: return a depth-first emission of the keys, find a cycle, or run out of
    calls, which are then no more than the keys. -/
theorem topologicalSort_cases (calls : ℕ) (graph : Dict α (List α)) :
    (∃ order, topologicalSort calls graph = .ok order ∧
      Emits (succ graph) graph.keys [] order) ∨
    (∃ node, topologicalSort calls graph = .error (.valueError node) ∧
      TransGen (Edge (succ graph)) node node) ∨
    (topologicalSort calls graph = .error .recursionError ∧ calls ≤ graph.keys.length) := by
  have hs := foldlM_keys_sound graph calls
  rw [topologicalSort]
  match hv : graph.keys.foldlM (fun st node => visit graph calls node st) .start with
  | .ok st =>
    rw [hv] at hs
    exact .inl ⟨st.order, rfl, hs.emits⟩
  | .error (.valueError node) =>
    rw [hv] at hs
    exact .inr (.inl ⟨node, rfl, hs⟩)
  | .error .recursionError =>
    rw [hv] at hs
    have hle : (unmarked graph .start).card ≤ graph.keys.length :=
      (Finset.card_filter_le _ _).trans (List.toFinset_card_le _)
    exact .inr (.inr ⟨rfl, le_trans hs hle⟩)

/-- The order returned is a depth-first emission of the keys. -/
theorem topologicalSort_ok {calls : ℕ} {order : List α}
    (h : topologicalSort calls graph = .ok order) : Emits (succ graph) graph.keys [] order := by
  obtain ⟨_, h', he⟩ | ⟨_, h', _⟩ | ⟨h', _⟩ := topologicalSort_cases calls graph
  · rw [h] at h'
    cases h'
    exact he
  · rw [h] at h'
    cases h'
  · rw [h] at h'
    cases h'

/-- The node named in a `ValueError` is on a cycle. -/
theorem topologicalSort_valueError {calls : ℕ} {node : α}
    (h : topologicalSort calls graph = .error (.valueError node)) :
    TransGen (Edge (succ graph)) node node := by
  obtain ⟨_, h', _⟩ | ⟨_, h', hcycle⟩ | ⟨h', _⟩ := topologicalSort_cases calls graph
  · rw [h] at h'
    cases h'
  · rw [h] at h'
    cases h'
    exact hcycle
  · rw [h] at h'
    cases h'

/-- With more calls than there are keys, the stack is large enough. -/
theorem topologicalSort_ne_recursionError {calls : ℕ} (hc : graph.keys.length < calls) :
    topologicalSort calls graph ≠ .error .recursionError := by
  intro h
  obtain ⟨_, h', _⟩ | ⟨_, h', _⟩ | ⟨_, hle⟩ := topologicalSort_cases calls graph
  · rw [h] at h'
    cases h'
  · rw [h] at h'
    cases h'
  · exact absurd hle (not_le.2 hc)

/-! ### More calls -/

/-- The outcome `r` is reached without running out of calls, and is then `r'`. -/
def Settles {β : Type*} (r r' : Except (Raised α) β) : Prop := r ≠ .error .recursionError → r' = r

omit [DecidableEq α] in
/-- A loop settles when each of its steps does. -/
theorem Settles.foldlM {β γ : Type*} {f f' : β → γ → Except (Raised α) β}
    (h : ∀ b c, Settles (f b c) (f' b c)) (cs : List γ) (b : β) :
    Settles (cs.foldlM f b) (cs.foldlM f' b) := by
  induction cs generalizing b with
  | nil => exact fun _ => rfl
  | cons c cs ih =>
    intro hr
    rw [List.foldlM_cons] at hr ⊢
    rw [List.foldlM_cons]
    match hf : f b c with
    | .error e =>
      rw [hf] at hr
      rw [h b c (hf ▸ hr), hf]
      rfl
    | .ok b' =>
      rw [hf] at hr
      rw [h b c (hf ▸ nofun), hf]
      exact ih b' hr

theorem visit_mono (calls : ℕ) (node : α) (st : Sorting α) :
    Settles (visit graph calls node st) (visit graph (calls + 1) node st) := by
  induction calls generalizing node st with
  | zero => exact fun h => absurd rfl h
  | succ calls ih =>
    intro hr
    rw [visit] at hr ⊢
    rw [visit]
    match hv : st.visited node with
    | some .visiting => rfl
    | some .visited => rfl
    | none =>
      rw [hv] at hr
      dsimp only at hr ⊢
      have hdep (st' : Sorting α) (dep : α) :
          Settles (if dep ∈ graph then visit graph calls dep st' else .ok st')
            (if dep ∈ graph then visit graph (calls + 1) dep st' else .ok st') := by
        by_cases hd : dep ∈ graph
        · rw [if_pos hd, if_pos hd]
          exact ih dep st'
        · rw [if_neg hd, if_neg hd]
          exact fun _ => rfl
      rw [Settles.foldlM hdep (graph.getD node []) (st.mark node .visiting)
        fun he => hr (by rw [he]; rfl)]

theorem topologicalSort_mono (calls : ℕ) :
    Settles (topologicalSort calls graph) (topologicalSort (calls + 1) graph) := by
  intro hr
  rw [topologicalSort] at hr ⊢
  rw [topologicalSort]
  have hnode (st : Sorting α) (node : α) :
      Settles (visit graph calls node st) (visit graph (calls + 1) node st) :=
    visit_mono calls node st
  rw [Settles.foldlM hnode graph.keys .start fun he => hr (by rw [he]; rfl)]

/-- With more calls than there are keys, the outcome is that of any larger stack. -/
theorem topologicalSort_stable {calls calls' : ℕ} (hc : graph.keys.length < calls)
    (hcc : calls ≤ calls') : topologicalSort calls' graph = topologicalSort calls graph := by
  induction hcc with
  | refl => rfl
  | @step calls' hle ih =>
    rw [topologicalSort_mono calls'
      (topologicalSort_ne_recursionError (lt_of_lt_of_le hc hle)), ih]

/-! ### The build order, and when there is none -/

/-- In the subgraph on the keys, there is an edge from `p` to its dependency `d`. -/
def DependsOn (graph : Dict α (List α)) (p d : α) : Prop :=
  p ∈ graph ∧ d ∈ graph ∧ d ∈ graph.getD p []

theorem edge_succ (graph : Dict α (List α)) : Edge (succ graph) = DependsOn graph := by
  funext p d
  refine propext ⟨fun h => ?_, fun h => mem_succ.2 ⟨h.2.2, h.2.1⟩⟩
  obtain ⟨hd, hk⟩ := mem_succ.1 h
  refine ⟨?_, hk, hd⟩
  by_contra hp
  rw [Dict.getD, Dict.get?_eq_none hp] at hd
  exact List.not_mem_nil hd

theorem mem_of_cycle {v : α} (h : TransGen (DependsOn graph) v v) : v ∈ graph := by
  obtain ⟨_, hv, _⟩ := TransGen.head'_iff.1 h
  exact hv.1

/-- When the sort returns, there is no cycle. -/
theorem acyclic_of_topologicalSort_ok {calls : ℕ} {order : List α}
    (h : topologicalSort calls graph = .ok order) (v : α) : ¬TransGen (DependsOn graph) v v := by
  intro hv
  have he := topologicalSort_ok h
  have hmem : v ∈ order := he.mem v (mem_of_cycle hv)
  rw [← edge_succ] at hv
  exact (he.ordered .nil).acyclic hmem hv

/-- An order that is returned holds every key once and nothing else, and puts
    the dependencies of a key that are keys before it. -/
theorem topologicalSort_order {calls : ℕ} {order : List α}
    (h : topologicalSort calls graph = .ok order) :
    order.Nodup ∧ order.Perm graph.keys ∧
      ∀ p ∈ graph, ∀ d ∈ graph.getD p [], d ∈ graph → Before order d p := by
  have he := topologicalSort_ok h
  have ho := he.ordered .nil
  refine ⟨ho.nodup, ?_, fun p hp d hd hk => ho.before (he.mem p hp) (mem_succ.2 ⟨hd, hk⟩)⟩
  refine (List.perm_ext_iff_of_nodup ho.nodup graph.nodup_keys).2 fun x => ⟨fun hx => ?_, he.mem x⟩
  -- Whatever is emitted is a key, or reached from one along edges between keys.
  rcases he.reach_of_mem hx with hx | ⟨n, hn, hr⟩
  · exact absurd hx List.not_mem_nil
  · rcases ReflTransGen.cases_tail hr with rfl | ⟨_, _, hx⟩
    · exact hn
    · exact (mem_succ.1 hx).2

/-- The chain of two packages, the first depending on the second. -/
def chain : Dict String (List String) := ⟨[("pkg1", ["pkg2"]), ("pkg2", [])], by decide⟩

theorem topologicalSort_order_chain : ["pkg2", "pkg1"].Nodup ∧ ["pkg2", "pkg1"].Perm chain.keys ∧
    ∀ p ∈ chain, ∀ d ∈ chain.getD p [], d ∈ chain → Before ["pkg2", "pkg1"] d p :=
  @topologicalSort_order _ _ chain 3 _ rfl

/-! ### The blocks of the build order -/

/-- The visit of a node without a mark: the dependencies that are keys, in turn,
    then the node. -/
theorem visit_unmarked {calls : ℕ} {node : α} {st : Sorting α} (h : st.visited node = none) :
    visit graph (calls + 1) node st = do
      let st ← (succ graph node).foldlM (fun st dep => visit graph calls dep st)
        (st.mark node .visiting)
      let st := st.mark node .visited
      return { st with order := st.order ++ [node] } := by
  rw [visit, h]
  dsimp only
  rw [foldlM_deps]
  rfl

/-- Visits of visited nodes change nothing, if there is a call left for them. -/
theorem foldlM_visit_visited {calls : ℕ} {nodes : List α} {st : Sorting α}
    (hv : ∀ n ∈ nodes, st.visited n = some .visited) (hc : nodes ≠ [] → 0 < calls) :
    nodes.foldlM (fun st node => visit graph calls node st) st = .ok st := by
  induction nodes with
  | nil => rfl
  | cons n nodes ih =>
    rw [List.forall_mem_cons] at hv
    obtain ⟨calls, rfl⟩ := Nat.exists_eq_succ_of_ne_zero (hc (List.cons_ne_nil n nodes)).ne'
    rw [List.foldlM_cons, visit, hv.1]
    exact ih hv.2 fun _ => calls.succ_pos

/-- With a single call, only nodes without dependencies among the keys are emitted. -/
theorem succ_eq_nil_of_visit_one {node : α} {st st' : Sorting α}
    (h : visit graph 1 node st = .ok st') (hst : ∀ n ∈ st.order, succ graph n = []) :
    ∀ n ∈ st'.order, succ graph n = [] := by
  match hv : st.visited node with
  | some .visiting =>
    rw [visit, hv] at h
    cases h
  | some .visited =>
    rw [visit, hv] at h
    cases h
    exact hst
  | none =>
    rw [visit_unmarked hv] at h
    match hs : succ graph node with
    | [] =>
      rw [hs] at h
      cases h
      intro n hn
      rcases List.mem_append.1 hn with hn | hn
      · exact hst n hn
      · exact List.mem_singleton.1 hn ▸ hs
    | d :: ds =>
      rw [hs] at h
      cases h

theorem succ_eq_nil_of_foldlM_visit_one {nodes : List α} {st st' : Sorting α}
    (h : nodes.foldlM (fun st node => visit graph 1 node st) st = .ok st')
    (hst : ∀ n ∈ st.order, succ graph n = []) : ∀ n ∈ st'.order, succ graph n = [] := by
  induction nodes generalizing st with
  | nil =>
    cases h
    exact hst
  | cons node nodes ih =>
    rw [List.foldlM_cons] at h
    match hv : visit graph 1 node st with
    | .error _ =>
      rw [hv] at h
      cases h
    | .ok st₁ =>
      rw [hv] at h
      exact ih h (succ_eq_nil_of_visit_one hv hst)

/-- A sort that returns had a call for each key, and one more for its dependencies. -/
theorem calls_of_topologicalSort_ok {calls : ℕ} {order : List α}
    (h : topologicalSort calls graph = .ok order) :
    ∀ n ∈ graph, 0 < calls ∧ (succ graph n ≠ [] → 1 < calls) := by
  intro n hn
  have hmem : n ∈ order := (topologicalSort_ok h).mem n hn
  rw [topologicalSort] at h
  match calls with
  | 0 =>
    obtain ⟨k, ks, hk⟩ := List.exists_cons_of_ne_nil (List.ne_nil_of_mem (Dict.mem_def.1 hn))
    rw [hk] at h
    cases h
  | 1 =>
    refine ⟨Nat.one_pos, fun hs => absurd ?_ hs⟩
    match hv : graph.keys.foldlM (fun st node => visit graph 1 node st) .start with
    | .error _ =>
      rw [hv] at h
      cases h
    | .ok st =>
      rw [hv] at h
      cases h
      exact succ_eq_nil_of_foldlM_visit_one hv (fun _ hn => absurd hn List.not_mem_nil) n hmem
  | calls + 2 => exact ⟨Nat.succ_pos _, fun _ => Nat.le_add_left 2 calls⟩

/-- The visits of the nodes of an emission order find all dependencies visited. -/
theorem foldlM_visit_ordered {calls : ℕ} {o : List α} (ho : Ordered (succ graph) o)
    (hc : ∀ n ∈ o, 0 < calls ∧ (succ graph n ≠ [] → 1 < calls)) :
    ∃ st, o.foldlM (fun st node => visit graph calls node st) .start = .ok st ∧ st.order = o ∧
      ∀ n, st.visited n = if n ∈ o then some .visited else none := by
  induction ho with
  | nil => exact ⟨.start, rfl, rfl, fun n => (if_neg List.not_mem_nil).symm⟩
  | @snoc o node _ hn hs ih =>
    obtain ⟨st, hst, hord, hvis⟩ := ih fun n hn => hc n (List.mem_append_left _ hn)
    obtain ⟨hpos, hone⟩ := hc node (by simp)
    obtain ⟨calls, rfl⟩ := Nat.exists_eq_succ_of_ne_zero hpos.ne'
    have hdeps : ∀ d ∈ succ graph node, (st.mark node .visiting).visited d = some .visited := by
      intro d hd
      rw [st.mark_other (ne_of_mem_of_not_mem (hs d hd) hn), hvis, if_pos (hs d hd)]
    have hvisit : (succ graph node).foldlM (fun st dep => visit graph calls dep st)
        (st.mark node .visiting) = .ok (st.mark node .visiting) :=
      foldlM_visit_visited hdeps fun h => Nat.lt_of_succ_lt_succ (hone h)
    have hnode : st.visited node = none := by rw [hvis, if_neg hn]
    refine ⟨{ (st.mark node .visiting).mark node .visited with order := o ++ [node] }, ?_, rfl,
      fun n => ?_⟩
    · rw [List.foldlM_append, hst]
      change [node].foldlM (fun st node => visit graph (calls + 1) node st) st = _
      rw [List.foldlM_cons, visit_unmarked hnode, hvisit, ← hord]
      rfl
    · change ((st.mark node .visiting).mark node .visited).visited n = _
      rcases eq_or_ne n node with rfl | hne
      · rw [Sorting.mark_same, if_pos (by simp)]
      · rw [Sorting.mark_other _ hne, Sorting.mark_other _ hne, hvis]
        simp [hne]

/-- When the keys are in an emission order, it is returned. -/
theorem topologicalSort_of_ordered {calls : ℕ} (ho : Ordered (succ graph) graph.keys)
    (hc : ∀ n ∈ graph, 0 < calls ∧ (succ graph n ≠ [] → 1 < calls)) :
    topologicalSort calls graph = .ok graph.keys := by
  obtain ⟨st, hst, hord, _⟩ := foldlM_visit_ordered ho hc
  rw [topologicalSort, hst, ← hord]
  rfl

/-- The build order has a block for each key: what the key depends on, directly
    or not, and no earlier key does, each once and the key itself last; so what
    comes before a key is needed by it or by an earlier one. When the keys come
    after their dependencies, their order is returned, and so a graph with its
    keys in the order returned for it is sorted into that order again. -/
theorem topologicalSort_blocks {calls : ℕ} {order : List α}
    (h : topologicalSort calls graph = .ok order) :
    (∃ block : α → List α, order = graph.keys.flatMap block ∧
      ∀ before key after, graph.keys = before ++ key :: after →
        (∀ x, x ∈ block key ↔ ReflTransGen (DependsOn graph) key x ∧
          ∀ e ∈ before, ¬ReflTransGen (DependsOn graph) e x) ∧
        (block key).Nodup ∧ (block key = [] ∨ (block key).getLast? = some key)) ∧
    (∀ before key after, graph.keys = before ++ key :: after → ∀ x, Before order x key →
      ∃ e ∈ before ++ [key], ReflTransGen (DependsOn graph) e x) ∧
    ((∀ p d, DependsOn graph p d → Before graph.keys d p) → order = graph.keys) ∧
    ∀ graph' : Dict α (List α), graph'.keys = order → (∀ n, graph'.get? n = graph.get? n) →
      topologicalSort calls graph' = .ok order := by
  have he := topologicalSort_ok h
  have hnd : order.Nodup := (he.ordered .nil).nodup
  refine ⟨?_, fun before key after hk x hx => ?_, fun hb => ?_, fun graph' hkeys hget => ?_⟩
  · obtain ⟨block, ho, hblock⟩ := he.exists_blocks .nil graph.nodup_keys
    refine ⟨block, ho, fun before key after hk => ?_⟩
    obtain ⟨hmem, hlast⟩ := hblock before key after hk
    have hsub : (block key).Sublist order := by
      rw [ho, hk, List.nil_append, List.flatMap_append, List.flatMap_cons]
      exact (List.sublist_append_left _ _).trans (List.sublist_append_right _ _)
    refine ⟨fun x => ?_, hnd.sublist hsub, hlast⟩
    rw [hmem, ← edge_succ]
    simp
  · rw [← edge_succ]
    exact (hk ▸ he).reach_of_before hx
  · have hkeys : Ordered (succ graph) graph.keys :=
      .of_before graph.nodup_keys fun p _ d hd => hb p d (edge_succ graph ▸ hd)
    rw [topologicalSort_of_ordered hkeys (calls_of_topologicalSort_ok h)] at h
    exact (Except.ok.inj h).symm
  · -- The same keys with the same values: the same dependencies.
    have hmem (n : α) : n ∈ graph' ↔ n ∈ graph := by
      rw [Dict.mem_def, hkeys]
      exact (topologicalSort_order h).2.1.mem_iff
    have hsucc : succ graph' = succ graph := by
      funext n
      simp only [succ, Dict.getD, hget, hmem]
    rw [← hkeys]
    refine topologicalSort_of_ordered (by rw [hsucc, hkeys]; exact he.ordered .nil) fun n hn => ?_
    rw [hsucc]
    exact calls_of_topologicalSort_ok h n ((hmem n).1 hn)

theorem topologicalSort_blocks_chain : topologicalSort 3 chain = .ok ["pkg2", "pkg1"] ∧
    ∀ graph' : Dict String (List String), graph'.keys = ["pkg2", "pkg1"] →
      (∀ n, graph'.get? n = chain.get? n) → topologicalSort 3 graph' = .ok ["pkg2", "pkg1"] :=
  ⟨rfl, (@topologicalSort_blocks _ _ chain 3 ["pkg2", "pkg1"] rfl).2.2.2⟩

theorem topologicalSort_raises_iff {calls : ℕ} (hc : graph.keys.length < calls) :
    (∃ node, topologicalSort calls graph = .error (.valueError node)) ↔
      ∃ v, TransGen (DependsOn graph) v v := by
  constructor
  · rintro ⟨node, h⟩
    exact ⟨node, edge_succ graph ▸ topologicalSort_valueError h⟩
  · rintro ⟨v, hv⟩
    match h : topologicalSort calls graph with
    | .ok order => exact absurd hv (acyclic_of_topologicalSort_ok h v)
    | .error (.valueError node) => exact ⟨node, rfl⟩
    | .error .recursionError => exact absurd h (topologicalSort_ne_recursionError hc)

/-- On a stack that is large enough, the sort has an outcome, the same for any
    larger stack. It raises a `ValueError` just when there is a cycle among the
    keys, and then names a node on one; so the order of the keys and of the
    dependencies does not matter to whether it raises. -/
theorem topologicalSort_verdict {calls : ℕ} (hc : graph.keys.length < calls) :
    topologicalSort calls graph ≠ .error .recursionError ∧
    (∀ calls' ≥ calls, topologicalSort calls' graph = topologicalSort calls graph) ∧
    ((∃ node, topologicalSort calls graph = .error (.valueError node)) ↔
      ∃ v, TransGen (DependsOn graph) v v) ∧
    (∀ node, topologicalSort calls graph = .error (.valueError node) →
      TransGen (DependsOn graph) node node) ∧
    ∀ graph' : Dict α (List α), (∀ n, n ∈ graph' ↔ n ∈ graph) →
      (∀ n d, d ∈ graph'.getD n [] ↔ d ∈ graph.getD n []) →
      ∀ calls' > graph'.keys.length,
        (∃ node, topologicalSort calls' graph' = .error (.valueError node)) ↔
          ∃ node, topologicalSort calls graph = .error (.valueError node) := by
  refine ⟨topologicalSort_ne_recursionError hc, fun _ => topologicalSort_stable hc,
    topologicalSort_raises_iff hc,
    fun node h => edge_succ graph ▸ topologicalSort_valueError h,
    fun graph' hk hd calls' hc' => ?_⟩
  have he : DependsOn graph' = DependsOn graph := by
    funext p d
    simp only [DependsOn, hk, hd]
  rw [topologicalSort_raises_iff hc', topologicalSort_raises_iff hc, he]

/-- A package that depends on itself through another. -/
def loop : Dict String (List String) := ⟨[("a", ["b"]), ("b", ["a"])], by decide⟩

theorem topologicalSort_verdict_loop : TransGen (DependsOn loop) "a" "a" :=
  (@topologicalSort_verdict _ _ loop 3 (by decide)).2.2.2.1 "a" rfl

end LfsBuilder
