import LfsBuilder.Library.Shell

/-!
# Frames

What a program does to the state at most, in whichever context it runs and
however it ends. The changes are counted: `R n s s'` says that `s'` comes from
`s` by at most `n` of the steps that count.

* `Counted`: no change takes no step, and the steps of two changes add up;
* `Spends R n p`: the program `p` changes the state by at most `n` steps. There is
  a rule for each command, and one for loops with a variant
  (`Spends.whileDo`).
-/

namespace Shell

variable {σ α : Type*}

/-- Changes of the state with a count: none takes no step, and steps add up. -/
structure Counted (R : ℕ → σ → σ → Prop) : Prop where
  refl : ∀ s, R 0 s s
  trans : ∀ {m n s s' s''}, R m s s' → R n s' s'' → R (m + n) s s''
  mono : ∀ {m n s s'}, m ≤ n → R m s s' → R n s s'

/-- The program `p` changes the state by at most `n` steps of `R`, however it ends. -/
def Spends (R : ℕ → σ → σ → Prop) (n : ℕ) (p : Sh σ) : Prop := ∀ c s, R n s (p c s).2

namespace Spends

variable {R : ℕ → σ → σ → Prop} {m n k : ℕ} {p q b : Sh σ} {ps : List (Sh σ)} {c : Ctx} {s : σ}

theorem cmd {f : Ctx → σ → ℕ × σ} (hf : ∀ c s, R n s (f c s).2) : Spends R n (.cmd f) := hf

theorem assign {f : σ → σ} (hf : ∀ s, R n s (f s)) : Spends R n (.assign f) := fun _ => hf

theorem call (hp : Spends R n p) : Spends R n (.call p) := fun c s => by
  rw [call_snd]
  exact hp c.enter s

theorem not (hp : Spends R n p) : Spends R n (.not p) := by
  intro c s
  have h := hp c.guard s
  unfold Sh.not
  rcases hr : p c.guard s with ⟨(_ | _) | _ | _ | _ | _, s'⟩ <;> rw [hr] at h <;> exact h

variable (hR : Counted R)
include hR

theorem mono (hp : Spends R m p) (hmn : m ≤ n) : Spends R n p := fun c s => hR.mono hmn (hp c s)

theorem skip : Spends R n .skip := fun _ s => hR.mono (Nat.zero_le n) (hR.refl s)

theorem test {t : σ → Bool} : Spends R n (.test t) := fun _ s => hR.mono (Nat.zero_le n) (hR.refl s)

theorem ret {status : ℕ} : Spends R n (.ret status) := fun _ s =>
  hR.mono (Nat.zero_le n) (hR.refl s)

theorem brk : Spends R n .brk := fun _ s => hR.mono (Nat.zero_le n) (hR.refl s)

/-- A change that may be followed by another one. -/
theorem bind {r r' : Flow × σ} (hp : R m s r.2) (hr : r' = r ∨ R n r.2 r'.2) :
    R (m + n) s r'.2 := by
  rcases hr with rfl | hr
  · exact hR.mono (Nat.le_add_right m n) hp
  · exact hR.trans hp hr

theorem seq (hp : Spends R m p) (hq : Spends R n q) : Spends R (m + n) (.seq p q) := by
  intro c s
  refine bind hR (hp c s) ?_
  unfold Sh.seq
  rcases p c s with ⟨_ | _ | _ | _ | _, s'⟩
  · exact .inr (hq c s')
  all_goals exact .inl rfl

theorem block_nil : Spends R n (.block []) := skip hR

theorem block_cons (hp : Spends R m p) (hps : Spends R n (.block ps)) :
    Spends R (m + n) (.block (p :: ps)) := by
  match ps with
  | [] => exact mono hR hp (Nat.le_add_right m n)
  | _ :: _ => exact seq hR hp hps

/-- A block with a first command that takes no steps. -/
theorem block_free (hp : Spends R 0 p) (hps : Spends R n (.block ps)) :
    Spends R n (.block (p :: ps)) := mono hR (block_cons hR hp hps) (Nat.zero_add n).le

theorem ite_cond (hb : Spends R m b) (hp : Spends R n p) (hq : Spends R n q) :
    Spends R (m + n) (.ite b p q) := by
  intro c s
  refine bind hR (hb c.guard s) ?_
  unfold Sh.ite
  rcases b c.guard s with ⟨(_ | _) | _ | _ | _ | _, s'⟩
  · exact .inr (hp c s')
  · exact .inr (hq c s')
  all_goals exact .inl rfl

/-- A choice with a condition that takes no steps. -/
theorem ite (hb : Spends R 0 b) (hp : Spends R n p) (hq : Spends R n q) :
    Spends R n (.ite b p q) := mono hR (ite_cond hR hb hp hq) (Nat.zero_add n).le

/-- The rounds of a loop add up. -/
theorem forIn {xs : List α} {p : α → Sh σ} (hp : ∀ x ∈ xs, Spends R n (p x)) :
    Spends R (n * xs.length) (.forIn xs p) := by
  suffices h : ∀ c s status, R (n * xs.length) s (Sh.forFrom p status xs c s).2 from
    fun c s => h c s 0
  induction xs with
  | nil => exact fun _ s _ => hR.refl s
  | cons x xs ih =>
    intro c s status
    rw [List.length_cons, Nat.mul_succ, Nat.add_comm]
    refine bind hR (hp x List.mem_cons_self c s) ?_
    rw [Sh.forFrom]
    rcases p x c s with ⟨status' | _ | _ | _ | _, s'⟩
    · exact .inr (ih (fun y hy => hp y (List.mem_cons_of_mem _ hy)) c s' status')
    · exact .inr (hR.mono (Nat.zero_le _) (hR.refl s'))
    all_goals exact .inl rfl

/-- A loop whose rounds take `k` steps each takes as many rounds as its variant `v` says. -/
theorem whileDo {t : σ → Bool} {v : σ → ℕ} (hv : ∀ s, t s = true → 0 < v s)
    (hp : ∀ c s, t s = true → R k s (p c s).2)
    (hdown : ∀ c s n s', t s = true → p c s = (.next n, s') → v s' < v s) (fuel : ℕ) (c : Ctx)
    (s : σ) : R (k * v s) s (Sh.whileDo (.test t) p fuel c s).2 := by
  have hdone (s : σ) : R (k * v s) s s := hR.mono (Nat.zero_le _) (hR.refl s)
  induction fuel generalizing s with
  | zero => exact hdone s
  | succ fuel ih =>
    rw [← wp_always (P := R (k * v s) s), wp_whileDo_succ, wp_test_guard]
    split
    · next ht =>
      have hround := hp c s ht
      have hone : k ≤ k * v s := Nat.le_mul_of_pos_right k (hv s ht)
      have hwp : wp p c ⟨fun n s' => p c s = (.next n, s'), fun s' => p c s = (.brk, s'),
          fun n s' => p c s = (.ret n, s'), fun n s' => p c s = (.exit n, s'),
          fun s' => p c s = (.stuck, s')⟩ s := by
        unfold wp
        rcases p c s with ⟨_ | _ | _ | _ | _, s'⟩ <;> rfl
      refine wp_mono hwp (fun n s' hr => ?_) (fun s' hr => ?_) (fun n s' hr => ?_)
        (fun n s' hr => ?_) fun s' hr => ?_
      · rw [hr] at hround
        -- The rounds that are left are paid by what the variant has gone down.
        have hless : v s' + 1 ≤ v s := hdown c s n s' ht hr
        have hle : k + k * v s' ≤ k * v s := by
          calc k + k * v s' = k * (v s' + 1) := by rw [Nat.mul_succ, Nat.add_comm]
            _ ≤ k * v s := Nat.mul_le_mul_left k hless
        exact wp_always.2 (hR.mono hle (hR.trans hround (ih s')))
      all_goals
        rw [hr] at hround
        exact hR.mono hone hround
    · exact hdone s

end Spends

end Shell
