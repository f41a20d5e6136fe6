import LfsBuilder.Library.Arithmetic

/-!
# Traps, and programs on a part of the state

A shell may have a trap for errors: where a command of the script itself fails,
and errexit is not ignored, the trap runs before the shell exits. It is not
inherited by functions, so a failure inside one exits the shell at once.

* `Sh.cmdTrap`, `Sh.callTrap`: a command, and the call of a function, where such a
  trap may be set;
* `Sh.zoom`: a program on a part of the state, run on the whole;
* `Flow.status?`: the status that a script ends with;
* `Checks`: the programs that, where errexit is ignored, succeed exactly under a
  condition, and whose failure may end the shell.
-/

namespace Shell

variable {σ τ : Type*}

/-- The status with which the shell exits at the end of a script. -/
def Flow.status? : Flow → Option ℕ
  | .next n => some n
  | .exit n => some n
  | _ => none

namespace Sh

/-- How a command with the status `n` ends, where the trap for errors is `trap n`. -/
def finishTrap (trap : ℕ → Sh σ) (c : Ctx) (n : ℕ) (s : σ) : Flow × σ :=
  if n = 0 ∨ c.ignored = true then (.next n, s) else trap n c s

/-- A simple command of the script. -/
def cmdTrap (trap : ℕ → Sh σ) (f : σ → ℕ × σ) : Sh σ := fun c s =>
  finishTrap trap c (f s).1 (f s).2

/-- The call of a function with the body `p` in the script. -/
def callTrap (trap : ℕ → Sh σ) (p : Sh σ) : Sh σ := fun c s =>
  match p c.enter s with
  | (.next n, s') => finishTrap trap c n s'
  | (.ret n, s') => finishTrap trap c n s'
  | (.brk, s') => (.next 0, s')
  | r => r

/-- A program on the part `get s` of the state `s`. -/
def zoom (get : σ → τ) (set : σ → τ → σ) (p : Sh τ) : Sh σ := fun c s =>
  ((p c (get s)).1, set s (p c (get s)).2)

end Sh

/-- The postcondition on the status of a command, where the trap for errors is `trap n`. -/
def Post.finishTrap (trap : ℕ → Sh σ) (c : Ctx) (Q : Post σ) (n : ℕ) (s : σ) : Prop :=
  if n = 0 ∨ c.ignored = true then Q.next n s else wp (trap n) c Q s

/-- To end in a part of a state so that the whole is as `Q` says. -/
def Post.zoom (set : τ → σ) (Q : Post σ) : Post τ where
  next n t := Q.next n (set t)
  brk t := Q.brk (set t)
  ret n t := Q.ret n (set t)
  exit n t := Q.exit n (set t)
  stuck t := Q.stuck (set t)

section

variable {trap : ℕ → Sh σ} {c : Ctx} {Q : Post σ} {s : σ} {p q b : Sh σ} {n : ℕ}

theorem Post.at_finishTrap : Q.at (Sh.finishTrap trap c n s) ↔ Q.finishTrap trap c n s := by
  rw [Sh.finishTrap, Post.finishTrap]
  split <;> rfl

@[simp] theorem Post.finishTrap_zero : Q.finishTrap trap c 0 s ↔ Q.next 0 s := by
  simp [Post.finishTrap]

theorem Post.finishTrap_succ (h : c.ignored = false) :
    Q.finishTrap trap c (n + 1) s ↔ wp (trap (n + 1)) c Q s := by
  simp [Post.finishTrap, h]

@[simp] theorem wp_cmdTrap {f : σ → ℕ × σ} :
    wp (.cmdTrap trap f) c Q s ↔ Q.finishTrap trap c (f s).1 (f s).2 := Post.at_finishTrap

@[simp] theorem wp_callTrap : wp (.callTrap trap p) c Q s ↔
    wp p c.enter
      { Q with next := Q.finishTrap trap c, ret := Q.finishTrap trap c, brk := Q.next 0 } s := by
  unfold wp Sh.callTrap
  rcases p c.enter s with ⟨_ | _ | _ | _ | _, s'⟩
  · exact Post.at_finishTrap
  · rfl
  · exact Post.at_finishTrap
  · rfl
  · rfl

@[simp] theorem wp_zoom {get : σ → τ} {set : σ → τ → σ} {p : Sh τ} :
    wp (.zoom get set p) c Q s ↔ wp p c (Q.zoom (set s)) (get s) := by
  unfold wp Sh.zoom
  rcases p c (get s) with ⟨_ | _ | _ | _ | _, t⟩ <;> rfl

/-- To end a script with the status zero. -/
def Post.success : Post σ := { next := fun n _ => n = 0, exit := fun n _ => n = 0 }

/-- To end a script with another status. -/
def Post.failure : Post σ := { next := fun n _ => n ≠ 0, exit := fun n _ => n ≠ 0 }

theorem status?_of_success (h : wp p c .success s) : (p c s).1.status? = some 0 := by
  unfold wp at h
  rcases hr : p c s with ⟨n | _ | n | n | _, s'⟩ <;> rw [hr] at h
  · exact congrArg some h
  · exact h.elim
  · exact h.elim
  · exact congrArg some h
  · exact h.elim

theorem status?_of_failure (h : wp p c .failure s) : (p c s).1.status? ≠ some 0 := by
  unfold wp at h
  rcases hr : p c s with ⟨n | _ | n | n | _, s'⟩ <;> rw [hr] at h
  · exact fun e => h (Option.some_inj.1 e)
  · exact h.elim
  · exact h.elim
  · exact fun e => h (Option.some_inj.1 e)
  · exact h.elim

end

/-- A loop goes on exactly if `t` holds of all elements of its list, when each round goes on if
    `t` holds of its element, and otherwise returns a failure or exits. -/
theorem wp_forIn_of_all {α : Type*} {xs : List α} {p : α → Sh σ} {t : α → Prop} {I : σ → Prop}
    {c : Ctx} {Q : Post σ} {s : σ} (hs : I s)
    (hp : ∀ x (Q : Post σ) s, I s → (t x → ∀ s', I s' → Q.next 0 s') →
      (¬t x → ∀ s', Q.ret 1 s' ∧ Q.exit 1 s') → wp (p x) c Q s)
    (hok : (∀ x ∈ xs, t x) → ∀ s', I s' → Q.next 0 s')
    (hbad : ¬(∀ x ∈ xs, t x) → ∀ s', Q.ret 1 s' ∧ Q.exit 1 s') : wp (.forIn xs p) c Q s := by
  -- What is left of the list decides, as long as the loop goes on.
  refine wp_forIn_of_ok (fun rest s => I s ∧ ((∀ x ∈ rest, t x) ↔ ∀ x ∈ xs, t x))
    (fun x rest s hI => ?_) (fun s' hI => hok (hI.2.1 (by simp)) s' hI.1) ⟨hs, Iff.rfl⟩
  obtain ⟨hs, hall⟩ := hI
  rw [List.forall_mem_cons] at hall
  refine hp x _ s hs (fun hx s' hs' => ⟨rfl, hs', ?_⟩) fun hx s' => ?_
  · rw [← hall, and_iff_right hx]
  · exact hbad (fun h => hx (hall.2 h).1) s'

/-! ## Conditions -/

section

variable {β : Type*} (keep : σ → β)

/-- Where errexit is ignored, the program `p` succeeds if `P` holds, and otherwise fails or
    ends the shell. It leaves `keep` as it is. -/
def Checks (p : Sh σ) (P : Prop) : Prop :=
  ∀ (c : Ctx) (Q : Post σ) (s : σ), c.ignored = true →
    (P → ∀ s', keep s' = keep s → Q.next 0 s') →
    (¬P → ∀ s', keep s' = keep s → Q.next 1 s' ∧ Q.exit 1 s') → wp p c Q s

/-- A command in the body of a function, which goes on if `P` holds, and otherwise returns a
    failure or ends the shell. -/
def Demands (p : Sh σ) (P : Prop) : Prop :=
  ∀ (c : Ctx) (Q : Post σ) (s : σ), c.ignored = true →
    (P → ∀ s', keep s' = keep s → Q.next 0 s') →
    (¬P → ∀ s', keep s' = keep s → Q.ret 1 s' ∧ Q.exit 1 s') → wp p c Q s

/-- The body of a function, which returns a success if `P` holds, and otherwise a failure, or
    ends the shell. -/
def Answers (p : Sh σ) (P : Prop) : Prop :=
  ∀ (c : Ctx) (Q : Post σ) (s : σ), c.ignored = true →
    (P → ∀ s', keep s' = keep s → Q.ret 0 s') →
    (¬P → ∀ s', keep s' = keep s → Q.ret 1 s' ∧ Q.exit 1 s') → wp p c Q s

variable {keep} {p q : Sh σ} {ps : List (Sh σ)} {P R : Prop}

theorem Checks.congr (h : Checks keep p P) (hPR : P ↔ R) : Checks keep p R := propext hPR ▸ h

theorem Demands.congr (h : Demands keep p P) (hPR : P ↔ R) : Demands keep p R := propext hPR ▸ h

/-- A function is called for what its body answers. -/
theorem Answers.call (h : Answers keep p P) : Checks keep (.call p) P := by
  intro c Q s hc hok hbad
  refine wp_call.2 (h c.enter _ s hc ?_ ?_)
  · intro hP s' hs'
    change Q.finish c 0 s'
    exact Post.finish_zero.2 (hok hP s' hs')
  · intro hP s' hs'
    obtain ⟨hnext, hexit⟩ := hbad hP s' hs'
    exact ⟨(Post.finish_of_ignored hc).2 hnext, hexit⟩

theorem Answers.ret : Answers keep (.block [.ret 0]) True := fun _ _ _ _ hok _ =>
  wp_block_singleton.2 (hok trivial _ rfl)

/-- What comes after a command is for the case that `P` holds. -/
theorem Demands.wp_block (hp : Demands keep p P) {c : Ctx} {Q : Post σ} {s : σ}
    (hc : c.ignored = true)
    (hnext : P → ∀ s', keep s' = keep s → wp (.block (q :: ps)) c Q s')
    (hbad : ¬P → ∀ s', keep s' = keep s → Q.ret 1 s' ∧ Q.exit 1 s') :
    wp (.block (p :: q :: ps)) c Q s :=
  wp_block_cons.2 (hp c _ s hc hnext hbad)

/-- A body goes on with what comes after a command. -/
theorem Answers.cons (hp : Demands keep p P) (hps : Answers keep (.block (q :: ps)) R) :
    Answers keep (.block (p :: q :: ps)) (P ∧ R) := by
  intro c Q s hc hok hbad
  refine hp.wp_block hc (fun hP s' hs' => ?_) fun hP => hbad fun h => hP h.1
  exact hps c Q s' hc (fun hR s'' hs'' => hok ⟨hP, hR⟩ s'' (hs''.trans hs'))
    fun hR s'' hs'' => hbad (fun h => hR h.2) s'' (hs''.trans hs')

namespace Demands

theorem skip : Demands keep .skip True := fun _ _ _ _ hok _ => wp_skip.2 (hok trivial _ rfl)

theorem assign {f : σ → σ} (hf : ∀ s, keep (f s) = keep s) :
    Demands keep (.assign f) True := fun _ _ _ _ hok _ => wp_assign.2 (hok trivial _ (hf _))

/-- The return of a failure. -/
theorem ret : Demands keep (.block [.ret 1]) False := fun _ _ _ _ _ hbad =>
  wp_block_singleton.2 (hbad not_false _ rfl).1

/-- The end of the shell. -/
theorem exit : Demands keep (.exit 1) False := fun _ _ _ _ _ hbad =>
  wp_exit.2 (hbad not_false _ rfl).2

theorem cons (hp : Demands keep p P) (hps : Demands keep (.block (q :: ps)) R) :
    Demands keep (.block (p :: q :: ps)) (P ∧ R) := by
  intro c Q s hc hok hbad
  refine hp.wp_block hc (fun hP s' hs' => ?_) fun hP => hbad fun h => hP h.1
  exact hps c Q s' hc (fun hR s'' hs'' => hok ⟨hP, hR⟩ s'' (hs''.trans hs'))
    fun hR s'' hs'' => hbad (fun h => hR h.2) s'' (hs''.trans hs')

theorem ite {t : Bool} (hp : Demands keep p P) (hq : Demands keep q R) :
    Demands keep (.ite (.test fun _ => t) p q) (if t then P else R) := by
  intro c Q s hc hok hbad
  rw [wp_ite_test]
  cases t
  · exact hq c Q s hc hok hbad
  · exact hp c Q s hc hok hbad

/-- A test that ends the shell without a result. -/
theorem ite_compare {o : Option Bool} (hp : Demands keep p P) (hq : Demands keep q R) :
    Demands keep (.ite (.compare o) p q) (o.elim False fun t => if t then P else R) := by
  intro c Q s hc hok hbad
  rw [wp_ite_compare]
  cases o with
  | none => exact (hbad not_false s rfl).2
  | some t =>
    cases t
    · exact hq c Q s hc hok hbad
    · exact hp c Q s hc hok hbad

theorem expand {n : Option ℤ} {set : ℤ → σ → σ} (hset : ∀ n s, keep (set n s) = keep s) :
    Demands keep (.expand n set) (n ≠ none) := by
  intro c Q s hc hok hbad
  cases n with
  | none => exact (hbad (fun h => h rfl) s rfl).2
  | some n => exact hok (Option.some_ne_none n) _ (hset n s)

/-- A loop of rounds that demand nothing. -/
theorem forIn {α : Type*} {xs : List α} {p : α → Sh σ} (hp : ∀ x, Demands keep (p x) True) :
    Demands keep (.forIn xs p) True := by
  intro c Q s hc hok hbad
  refine wp_forIn_of_ok (fun _ s' => keep s' = keep s) (fun x _ s' hs' => ?_)
    (fun s' hs' => hok trivial s' hs') rfl
  exact hp x c _ s' hc (fun _ s'' hs'' => ⟨rfl, hs''.trans hs'⟩) fun h => absurd trivial h

end Demands

end

end Shell
