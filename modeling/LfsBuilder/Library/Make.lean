import LfsBuilder.Library.Postorder

/-!
# Make

How `make` brings targets up to date, one at a time, where the recipes can have any
effect on the state of the system. The prerequisites of a target are considered before
it, in the order of its rule. Then its recipe is carried out, if the target has no file,
or if a prerequisite has none or a newer one. When a recipe fails, `make` stops.

* `Makefile.bring`, `Makefile.update`: a target on its own, and with its prerequisites;
* `Makefile.make_eq`: whatever the recipes do, a run considers the targets in the order in
  which a depth-first traversal of the rules leaves them, until one fails.
-/

open DepthFirst

/-- Rules, the times of the last modification of the files, and what the recipes do: whether
    they succeed, and the state after them. -/
structure Makefile (τ σ : Type*) where
  rules : τ → Option (List τ)
  mtime : σ → τ → Option ℕ
  recipe : τ → σ → Bool × σ

namespace Makefile

variable {τ σ : Type*} [DecidableEq τ] (m : Makefile τ σ)

def prereqs (t : τ) : List τ := (m.rules t).getD []

/-- The target has no file, or one of its prerequisites has none, or a newer one. -/
def isOutdated (s : σ) (t : τ) : Bool :=
  match m.mtime s t with
  | none => true
  | some time => (m.prereqs t).any fun p => (m.mtime s p).all (time < ·)

/-- A target whose prerequisites have been considered. If there is no rule for it, there has to be
    a file. -/
def bring (t : τ) (s : σ) : Bool × σ :=
  match m.rules t with
  | none => ((m.mtime s t).isSome, s)
  | some _ => if m.isOutdated s t then m.recipe t s else (true, s)

/-- Some targets in turn, until one fails. -/
def sequence : List τ → σ → Bool × σ
  | [], s => (true, s)
  | t :: ts, s => if (m.bring t s).1 then sequence ts (m.bring t s).2 else m.bring t s

/-- The targets that have been considered, the state, and whether no recipe has failed. -/
structure Progress (τ σ : Type*) where
  seen : Finset τ
  state : σ
  ok : Bool

/-- Some targets in turn, where `update` is for one of them. -/
def updateAll (update : τ → Progress τ σ → Option (Progress τ σ)) :
    List τ → Progress τ σ → Option (Progress τ σ)
  | [], p => some p
  | t :: ts, p => (update t p).bind fun p => if p.ok then updateAll update ts p else some p

/-- A target, after its prerequisites, as long as `calls` suffice. -/
def update : (calls : ℕ) → τ → Progress τ σ → Option (Progress τ σ)
  | 0, _, _ => none
  | calls + 1, t, p =>
    if t ∈ p.seen then some p
    else (updateAll (update calls) (m.prereqs t) { p with seen := insert t p.seen }).map fun p =>
      if p.ok then { p with ok := (m.bring t p.state).1, state := (m.bring t p.state).2 } else p

/-- A run: whether it succeeds, and the state after it. -/
def make (calls : ℕ) (goal : τ) (s : σ) : Option (Bool × σ) :=
  (m.update calls goal ⟨∅, s, true⟩).map fun p => (p.ok, p.state)

variable {m} {s : σ} {ts ts' : List τ}

omit [DecidableEq τ] in
theorem sequence_append : m.sequence (ts ++ ts') s =
    if (m.sequence ts s).1 then m.sequence ts' (m.sequence ts s).2 else m.sequence ts s := by
  induction ts generalizing s with
  | nil => rfl
  | cons t ts ih =>
    rw [List.cons_append, sequence, sequence]
    by_cases h : (m.bring t s).1 = true
    · rw [if_pos h, if_pos h, ih]
    · rw [if_neg h, if_neg h, if_neg h]

omit [DecidableEq τ] in
/-- Targets that are up to date leave the state as it is. -/
theorem sequence_eq_self (h : ∀ t ∈ ts, m.bring t s = (true, s)) :
    m.sequence ts s = (true, s) := by
  induction ts with
  | nil => rfl
  | cons t ts ih =>
    rw [List.forall_mem_cons] at h
    rw [sequence, h.1]
    exact ih h.2

theorem update_of_mem {calls : ℕ} {t : τ} {p : Progress τ σ} (hcalls : 1 ≤ calls)
    (ht : t ∈ p.seen) : m.update calls t p = some p := by
  obtain ⟨calls, rfl⟩ : ∃ k, calls = k + 1 := ⟨calls - 1, by omega⟩
  rw [update, if_pos ht]

/-- Targets are considered in the order in which a traversal leaves them. -/
theorem updateAll_eq {g ns o o' : List τ} (h : Leaves m.prereqs g ns o o') :
    ∃ out calls₀, o' = o ++ out ∧ ∀ calls ≥ calls₀, ∀ (seen : Finset τ) (s : σ),
      (∀ x, x ∈ seen ↔ x ∈ g ∨ x ∈ o) → ∃ seen',
        updateAll (m.update calls) ns ⟨seen, s, true⟩ =
          some ⟨seen', (m.sequence out s).2, (m.sequence out s).1⟩ ∧
        ((m.sequence out s).1 = true → ∀ x, x ∈ seen' ↔ x ∈ g ∨ x ∈ o') := by
  induction h with
  | nil => exact ⟨[], 0, by simp, fun _ _ seen s hseen => ⟨seen, rfl, fun _ => hseen⟩⟩
  | @left g ns o o' n hn _ ih =>
    obtain ⟨out, calls₀, ho, hout⟩ := ih
    refine ⟨out, max 1 calls₀, ho, fun calls hcalls seen s hseen => ?_⟩
    rw [updateAll, update_of_mem (le_of_max_le_left hcalls) ((hseen n).2 (.inr hn))]
    exact hout calls (le_of_max_le_right hcalls) seen s hseen
  | @back g ns o o' n hn _ ih =>
    obtain ⟨out, calls₀, ho, hout⟩ := ih
    refine ⟨out, max 1 calls₀, ho, fun calls hcalls seen s hseen => ?_⟩
    rw [updateAll, update_of_mem (le_of_max_le_left hcalls) ((hseen n).2 (.inl hn))]
    exact hout calls (le_of_max_le_right hcalls) seen s hseen
  | @visit g ns o o₁ o' n hno hng _ _ ih₁ ih =>
    obtain ⟨out₁, calls₁, ho₁, hout₁⟩ := ih₁
    obtain ⟨out₂, calls₂, ho₂, hout₂⟩ := ih
    refine ⟨out₁ ++ n :: out₂, max (calls₁ + 1) calls₂, by simp [ho₂, ho₁],
      fun calls hcalls seen s hseen => ?_⟩
    obtain ⟨calls, rfl⟩ : ∃ k, calls = k + 1 := ⟨calls - 1, by omega⟩
    have hn : n ∉ seen := by simp [hseen, hno, hng]
    obtain ⟨seen₁, hrun₁, hseen₁⟩ := hout₁ calls (by omega) (insert n seen) s fun x => by
      rw [Finset.mem_insert, hseen, List.mem_cons, or_assoc]
    rw [updateAll, update, if_neg hn, hrun₁, Option.map_some, Option.bind_some, sequence_append,
      sequence]
    by_cases hok₁ : (m.sequence out₁ s).1 = true
    · rw [if_pos hok₁, if_pos hok₁]
      by_cases hok : (m.bring n (m.sequence out₁ s).2).1 = true
      · rw [if_pos hok]
        dsimp only
        rw [if_pos hok, hok]
        refine hout₂ (calls + 1) (by omega) seen₁ _ fun x => ?_
        rw [hseen₁ hok₁, List.mem_cons, List.mem_append, List.mem_singleton]
        tauto
      · rw [if_neg hok]
        dsimp only
        rw [if_neg hok]
        exact ⟨seen₁, rfl, fun h => absurd h hok⟩
    · rw [if_neg hok₁, if_neg hok₁, if_neg hok₁]
      exact ⟨seen₁, rfl, fun h => absurd h hok₁⟩

/-- A run considers the targets in the order in which a traversal from the goal leaves them. -/
theorem make_eq {goal : τ} {order : List τ} (h : Leaves m.prereqs [] [goal] [] order) :
    ∃ calls₀, ∀ calls ≥ calls₀, ∀ s, m.make calls goal s = some (m.sequence order s) := by
  obtain ⟨out, calls₀, ho, hout⟩ := updateAll_eq h
  rw [List.nil_append] at ho
  subst ho
  refine ⟨calls₀, fun calls hcalls s => ?_⟩
  obtain ⟨seen', hrun, -⟩ := hout calls hcalls ∅ s (by simp)
  rw [updateAll, Option.bind_eq_some_iff] at hrun
  obtain ⟨p, hp, hrun⟩ := hrun
  have hpeq : p = ⟨seen', (m.sequence order s).2, (m.sequence order s).1⟩ := by
    rw [updateAll, ite_self, Option.some_inj] at hrun
    exact hrun
  rw [make, hp, hpeq]
  rfl

end Makefile
