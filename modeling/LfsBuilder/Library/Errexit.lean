import LfsBuilder.Library.Traps

/-!
# Scripts that stop at the first failure

Programs under errexit whose failures are all fatal: such a program goes on under a
condition, and otherwise exits the shell with a failure.

* `Proceeds E I p P J`: from a state with `I` the program `p` goes on exactly if `P` holds,
  and then in a state with `J`; otherwise the shell exits in a state with `E`. There is
  a rule for each command;
* `Proceeds.status_iff`: a script that is such a program ends with status zero exactly if
  its condition holds.
-/

namespace Shell

variable {σ τ α : Type*}

/-- A command that leaves the state as it is, with its status. -/
def Sh.external (status : String → ℕ) (command : String) : Sh σ := .cmd fun _ s =>
  (status command, s)

/-- Where errexit is not ignored, from a state with `I` the program `p` goes on if `P` holds, in
    a state with `J`, and otherwise exits the shell with a failure, in a state with `E`. -/
def Proceeds (E I : σ → Prop) (p : Sh σ) (P : Prop) (J : σ → Prop) : Prop :=
  ∀ (c : Ctx) (Q : Post σ) (s : σ), c.ignored = false → I s →
    (P → ∀ s', J s' → Q.next 0 s') → (¬P → ∀ n s', n ≠ 0 → E s' → Q.exit n s') → wp p c Q s

namespace Proceeds

variable {E I J K : σ → Prop} {p q : Sh σ} {ps : List (Sh σ)} {P R : Prop} {s : σ}

theorem congr (h : Proceeds E I p P J) (hPR : P ↔ R) : Proceeds E I p R J := propext hPR ▸ h

/-- The rule of consequence. -/
theorem mono {E' I' J' : σ → Prop} (h : Proceeds E I p P J) (hE : ∀ s, E s → E' s)
    (hI : ∀ s, I' s → I s) (hJ : ∀ s, J s → J' s) : Proceeds E' I' p P J' :=
  fun c Q s hc hs hok hbad => h c Q s hc (hI s hs) (fun hP s' hs' => hok hP s' (hJ s' hs'))
    fun hP n s' hn hs' => hbad hP n s' hn (hE s' hs')

theorem skip : Proceeds E I .skip True I := fun _ _ s _ hI hok _ => hok trivial s hI

theorem assign {f : σ → σ} (hf : ∀ s, I s → J (f s)) : Proceeds E I (.assign f) True J :=
  fun _ _ s _ hI hok _ => hok trivial _ (hf s hI)

/-- A command that goes on exactly with the status zero. -/
theorem cmd {f : Ctx → σ → ℕ × σ} (hstatus : ∀ c s, I s → ((f c s).1 = 0 ↔ P))
    (hJ : ∀ c s, I s → P → J (f c s).2) (hE : ∀ c s, I s → ¬P → E (f c s).2) :
    Proceeds E I (.cmd f) P J := by
  intro c Q s hc hI hok hbad
  rw [wp_cmd]
  by_cases hP : P
  · rw [(hstatus c s hI).2 hP, Post.finish_zero]
    exact hok hP _ (hJ c s hI hP)
  · obtain ⟨n, hn⟩ := Nat.exists_eq_succ_of_ne_zero (mt (hstatus c s hI).1 hP)
    rw [hn, Post.finish_succ hc]
    exact hbad hP _ _ n.succ_ne_zero (hE c s hI hP)

theorem external {status : String → ℕ} (hIE : ∀ s, I s → E s) (command : String) :
    Proceeds E I (.external status command) (status command = 0) I :=
  .cmd (fun _ _ _ => Iff.rfl) (fun _ _ hI _ => hI) fun _ s hI _ => hIE s hI

theorem read {f : σ → Sh σ} (h : ∀ s, I s → Proceeds E I (f s) P J) : Proceeds E I (.read f) P J :=
  fun c Q s hc hI hok hbad => h s hI c Q s hc hI hok hbad

theorem exit {n : ℕ} (hn : n ≠ 0) (hIE : ∀ s, I s → E s) : Proceeds E I (.exit n) False J :=
  fun _ _ s _ hI _ hbad => hbad not_false n s hn (hIE s hI)

theorem call (hp : Proceeds E I p P J) : Proceeds E I (.call p) P J := by
  intro c Q s hc hI hok hbad
  refine wp_call.2 (hp c.enter _ s hc hI (fun hP s' hs' => ?_) hbad)
  change Q.finish c 0 s'
  exact Post.finish_zero.2 (hok hP s' hs')

theorem block_nil : Proceeds E I (.block []) True I := skip

theorem block_cons (hp : Proceeds E I p P J) (hps : Proceeds E J (.block ps) R K) :
    Proceeds E I (.block (p :: ps)) (P ∧ R) K := by
  intro c Q s hc hI hok hbad
  refine wp_block_of_ok (hp c _ s hc hI (fun hP s' hs' => ⟨rfl, ?_⟩) fun hP => ?_)
  · exact hps c Q s' hc hs' (fun hR => hok ⟨hP, hR⟩) fun hR => hbad fun h => hR h.2
  · exact hbad fun h => hP h.1

/-- A block is over with a command that never goes on. -/
theorem block_stop (hp : Proceeds E I p False J) : Proceeds E I (.block (p :: ps)) False K := by
  intro c Q s hc hI _ hbad
  exact wp_block_of_ok (hp c _ s hc hI (fun h => h.elim) hbad)

theorem externals {status : String → ℕ} (hIE : ∀ s, I s → E s) (commands : List String) :
    Proceeds E I (.block (commands.map (.external status))) (∀ x ∈ commands, status x = 0) I := by
  induction commands with
  | nil => exact block_nil.congr (by simp)
  | cons x xs ih => exact (block_cons (external hIE x) ih).congr (by rw [List.forall_mem_cons])

/-- A test that has the same outcome in all states with `I`. -/
theorem ite_eq {t : σ → Bool} {b : Bool} (ht : ∀ s, I s → t s = b) (hp : Proceeds E I p P J)
    (hq : Proceeds E I q R J) : Proceeds E I (.ite (.test t) p q) (if b then P else R) J := by
  intro c Q s hc hI hok hbad
  rw [wp_ite_test, ht s hI]
  cases b
  · exact hq c Q s hc hI hok hbad
  · exact hp c Q s hc hI hok hbad

theorem ite {t : Bool} (hp : Proceeds E I p P J) (hq : Proceeds E I q R J) :
    Proceeds E I (.ite (.test fun _ => t) p q) (if t then P else R) J := ite_eq (fun _ _ => rfl) hp hq

theorem ite_not {t : Bool} (hp : Proceeds E I p P J) (hq : Proceeds E I q R J) :
    Proceeds E I (.ite (.not (.test fun _ => t)) p q) (if t then R else P) J := by
  intro c Q s hc hI hok hbad
  rw [wp_ite_not_test]
  cases t
  · exact hp c Q s hc hI hok hbad
  · exact hq c Q s hc hI hok hbad

theorem ite_compare {o : Option Bool} (hp : Proceeds E I p P J) (hq : Proceeds E I q R J)
    (hIE : ∀ s, I s → E s) :
    Proceeds E I (.ite (.compare o) p q) (o.elim False fun t => if t then P else R) J := by
  intro c Q s hc hI hok hbad
  rw [wp_ite_compare]
  cases o with
  | none => exact hbad not_false 1 s one_ne_zero (hIE s hI)
  | some t =>
    cases t
    · exact hq c Q s hc hI hok hbad
    · exact hp c Q s hc hI hok hbad

theorem forIn {xs : List α} {p : α → Sh σ} {P : α → Prop}
    (hp : ∀ x, Proceeds E I (p x) (P x) I) : Proceeds E I (.forIn xs p) (∀ x ∈ xs, P x) I := by
  intro c Q s hc hI hok hbad
  -- What is left of the list decides, as long as the loop goes on.
  refine wp_forIn_of_ok (fun rest s => I s ∧ ((∀ x ∈ rest, P x) ↔ ∀ x ∈ xs, P x))
    (fun x rest s h => ?_) (fun s' h => hok (h.2.1 (by simp)) s' h.1) ⟨hI, Iff.rfl⟩
  obtain ⟨hI, hall⟩ := h
  rw [List.forall_mem_cons] at hall
  refine hp x c _ s hc hI (fun hx s' hs' => ⟨rfl, hs', ?_⟩) fun hx => ?_
  · rw [← hall, and_iff_right hx]
  · exact hbad fun h => hx (hall.2 h).1

/-- A program on a part of the state. -/
theorem zoom {get : σ → τ} {set : σ → τ → σ} {p : Sh τ} {E' I' J' : τ → Prop}
    (hp : Proceeds E' I' p P J') (hI : ∀ s, I s → I' (get s))
    (hJ : ∀ s t, I s → J' t → J (set s t)) (hE : ∀ s t, I s → E' t → E (set s t)) :
    Proceeds E I (.zoom get set p) P J := by
  intro c Q s hc hIs hok hbad
  refine wp_zoom.2 (hp c _ (get s) hc (hI s hIs) (fun hP t ht => ?_) fun hP n t hn ht => ?_)
  · exact hok hP _ (hJ s t hIs ht)
  · exact hbad hP n _ hn (hE s t hIs ht)

/-- A script ends with the status zero exactly if its condition holds. -/
theorem status_iff (h : Proceeds E I p P J) (hI : I s) :
    (p Ctx.top s).1.status? = some 0 ↔ P := by
  by_cases hP : P
  · have hwp : wp p Ctx.top .success s := h _ _ s rfl hI (fun _ _ _ => rfl) (absurd hP)
    exact iff_of_true (status?_of_success hwp) hP
  · have hwp : wp p Ctx.top .failure s :=
      h _ _ s rfl hI (fun h => absurd h hP) fun _ _ _ hn _ => hn
    exact iff_of_false (status?_of_failure hwp) hP

theorem leaves (h : Proceeds E I p P J) (hI : I s) (hP : P) : J (p Ctx.top s).2 := by
  have hwp : wp p Ctx.top (.always J) s := h _ _ s rfl hI (fun _ _ hs' => hs') (absurd hP)
  exact wp_always.1 hwp

theorem leaves_not (h : Proceeds E I p P J) (hI : I s) (hP : ¬P) : E (p Ctx.top s).2 := by
  have hwp : wp p Ctx.top (.always E) s :=
    h _ _ s rfl hI (fun h => absurd h hP) fun _ _ _ _ hs' => hs'
  exact wp_always.1 hwp

end Proceeds

end Shell
