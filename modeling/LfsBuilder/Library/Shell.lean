import Mathlib

/-!
# Shell programs under errexit

Shell programs as functions on a state `σ`, with the control flow of bash:
every command ends with a status, a function returns one, a loop can be left,
and the shell exits. Under `set -e` a command that fails makes the shell exit,
unless errexit is *ignored* where it runs: in the condition of an `if`, on the
left of `||` or `&&`, after `!`, and in the whole body of a function called in
such a place. Whether a failure stops a script is thus a matter of the calls
that are active, carried by the context (`Ctx`).

* `Sh.cmd`, `Sh.block`, `Sh.orElse`, `Sh.ite`, `Sh.call`, `Sh.forIn`, …: the
  commands, run in a context;
* `wp p c Q s`: the program `p`, run from the state `s` in the context `c`, ends
  as `Q` says. Each command has an equation for it (`wp_cmd`, `wp_seq`, …), and
  loops have an invariant rule (`wp_forIn_of_inv`).
-/

namespace Shell

variable {σ α : Type*}

/-- How a command ends: with a status, leaving a loop, returning from a
    function, exiting the shell, or out of fuel in a loop. -/
inductive Flow
  | next (status : ℕ)
  | brk
  | ret (status : ℕ)
  | exit (status : ℕ)
  | stuck
  deriving DecidableEq

/-- The kinds of messages of a script. -/
inductive Level
  | info
  | success
  | warning
  | error
  deriving DecidableEq

/-- Where a command runs: whether errexit is ignored there, and whether the
    text around it, in the same function, handles its failure. -/
structure Ctx where
  ignored : Bool
  guarded : Bool
  deriving DecidableEq

/-- The context of a script under `set -e`. -/
def Ctx.top : Ctx := ⟨false, false⟩

/-- The context of a condition. -/
def Ctx.guard (_ : Ctx) : Ctx := ⟨true, true⟩

/-- The context of the body of a function called in `c`. -/
def Ctx.enter (c : Ctx) : Ctx := ⟨c.ignored, false⟩

@[simp] theorem Ctx.guard_ignored (c : Ctx) : c.guard.ignored = true := rfl
@[simp] theorem Ctx.guard_guarded (c : Ctx) : c.guard.guarded = true := rfl
@[simp] theorem Ctx.enter_ignored (c : Ctx) : c.enter.ignored = c.ignored := rfl
@[simp] theorem Ctx.top_enter : Ctx.top.enter = Ctx.top := rfl
@[simp] theorem Ctx.enter_guarded (c : Ctx) : c.enter.guarded = false := rfl

/-- A shell program on the state `σ`. -/
def Sh (σ : Type*) := Ctx → σ → Flow × σ

namespace Sh

/-- How a command with the status `n` ends: a failure exits the shell, where
    errexit is not ignored. -/
def finish (c : Ctx) (n : ℕ) : Flow := if n = 0 ∨ c.ignored = true then .next n else .exit n

/-- A simple command: it changes the state and ends with a status. -/
def cmd (f : Ctx → σ → ℕ × σ) : Sh σ := fun c s => (finish c (f c s).1, (f c s).2)

/-- The command that does nothing, successfully. -/
def skip : Sh σ := fun _ s => (.next 0, s)

/-- A change of the state that cannot fail. -/
def assign (f : σ → σ) : Sh σ := fun _ s => (.next 0, f s)

/-- A program that depends on the state. -/
def read (f : σ → Sh σ) : Sh σ := fun c s => f s c s

/-- A test: a command that fails unless `b` holds. -/
def test (b : σ → Bool) : Sh σ := cmd fun _ s => (if b s then 0 else 1, s)

/-- `p; q` -/
def seq (p q : Sh σ) : Sh σ := fun c s =>
  match p c s with
  | (.next _, s') => q c s'
  | r => r

/-- The commands of a block, one after the other. -/
def block : List (Sh σ) → Sh σ
  | [] => skip
  | [p] => p
  | p :: q :: ps => seq p (block (q :: ps))

/-- `p || q` -/
def orElse (p q : Sh σ) : Sh σ := fun c s =>
  match p c.guard s with
  | (.next 0, s') => (.next 0, s')
  | (.next _, s') => q c s'
  | r => r

/-- `p && q` -/
def andThen (p q : Sh σ) : Sh σ := fun c s =>
  match p c.guard s with
  | (.next 0, s') => q c s'
  | r => r

/-- `if b; then p; else q; fi` -/
def ite (b p q : Sh σ) : Sh σ := fun c s =>
  match b c.guard s with
  | (.next 0, s') => p c s'
  | (.next _, s') => q c s'
  | r => r

/-- `! p`, as a condition -/
def not (p : Sh σ) : Sh σ := fun c s =>
  match p c.guard s with
  | (.next 0, s') => (.next 1, s')
  | (.next _, s') => (.next 0, s')
  | r => r

/-- The call of a function with the body `p`. -/
def call (p : Sh σ) : Sh σ := fun c s =>
  match p c.enter s with
  | (.next n, s') => (finish c n, s')
  | (.ret n, s') => (finish c n, s')
  | (.brk, s') => (.next 0, s')
  | r => r

/-- `return n` -/
def ret (n : ℕ) : Sh σ := fun _ s => (.ret n, s)

/-- `exit n` -/
def exit (n : ℕ) : Sh σ := fun _ s => (.exit n, s)

/-- `break` -/
def brk : Sh σ := fun _ s => (.brk, s)

/-- `for x in xs; do p x; done`, after a body with the status `n`. -/
def forFrom (p : α → Sh σ) : ℕ → List α → Sh σ
  | n, [], _, s => (.next n, s)
  | _, x :: xs, c, s =>
    match p x c s with
    | (.next n, s') => forFrom p n xs c s'
    | (.brk, s') => (.next 0, s')
    | r => r

/-- `for x in xs; do p x; done` -/
def forIn (xs : List α) (p : α → Sh σ) : Sh σ := forFrom p 0 xs

/-- The rounds of `for x in xs; do p x; done` that begin, each with the state in which it
    does. -/
def rounds (p : α → Sh σ) (c : Ctx) : List α → σ → List (α × σ)
  | [], _ => []
  | x :: xs, s =>
    (x, s) :: match p x c s with
      | (.next _, s') => rounds p c xs s'
      | _ => []

/-- `while b; do p; done`, for as many rounds as the fuel allows. -/
def whileDo (b p : Sh σ) : ℕ → Sh σ
  | 0, _, s => (.stuck, s)
  | fuel + 1, c, s =>
    match b c.guard s with
    | (.next 0, s') =>
      match p c s' with
      | (.next _, s'') => whileDo b p fuel c s''
      | (.brk, s'') => (.next 0, s'')
      | r => r
    | (.next _, s') => (.next 0, s')
    | r => r

end Sh

/-! ## Postconditions -/

/-- What holds when a program ends, for each way to end. -/
structure Post (σ : Type*) where
  next : ℕ → σ → Prop
  brk : σ → Prop := fun _ => False
  ret : ℕ → σ → Prop := fun _ _ => False
  exit : ℕ → σ → Prop := fun _ _ => False
  stuck : σ → Prop := fun _ => False

/-- The postcondition at a given end. -/
def Post.at (Q : Post σ) : Flow × σ → Prop
  | (.next n, s) => Q.next n s
  | (.brk, s) => Q.brk s
  | (.ret n, s) => Q.ret n s
  | (.exit n, s) => Q.exit n s
  | (.stuck, s) => Q.stuck s

/-- A postcondition on the status of a command. -/
def Post.finish (c : Ctx) (Q : Post σ) (n : ℕ) (s : σ) : Prop :=
  if n = 0 ∨ c.ignored = true then Q.next n s else Q.exit n s

/-- The program `p`, run from the state `s` in the context `c`, ends as `Q` says. -/
def wp (p : Sh σ) (c : Ctx) (Q : Post σ) (s : σ) : Prop := Q.at (p c s)

/-- To end in `r`. -/
def Post.is (r : Flow × σ) : Post σ where
  next n s := (.next n, s) = r
  brk s := (.brk, s) = r
  ret n s := (.ret n, s) = r
  exit n s := (.exit n, s) = r
  stuck s := (.stuck, s) = r

/-- To end in a state with `P`, in whichever way. -/
def Post.always (P : σ → Prop) : Post σ := ⟨fun _ => P, P, fun _ => P, fun _ => P, P⟩

/-- To end with the status zero. -/
def Post.ok : Post σ := { next := fun n _ => n = 0 }

section

variable {c : Ctx} {Q R : Post σ} {s : σ} {p q b : Sh σ}

theorem wp_of_eq {r : Flow × σ} (h : p c s = r) : wp p c Q s ↔ Q.at r := by rw [wp, h]

theorem Post.at_is {r x : Flow × σ} : (Post.is r).at x ↔ x = r := by
  rcases x with ⟨_ | _ | _ | _ | _, s'⟩ <;> rfl

@[simp] theorem wp_is {r : Flow × σ} : wp p c (.is r) s ↔ p c s = r := Post.at_is

theorem wp_always {P : σ → Prop} : wp p c (.always P) s ↔ P (p c s).2 := by
  unfold wp
  rcases p c s with ⟨_ | _ | _ | _ | _, s'⟩ <;> rfl

/-- A program goes on with `P`, and ends in no other way. -/
theorem wp_next_iff {P : ℕ → σ → Prop} :
    wp p c { next := P } s ↔ ∃ n s', p c s = (.next n, s') ∧ P n s' := by
  constructor
  · intro h
    rw [wp] at h
    rcases hr : p c s with ⟨n | _ | _ | _ | _, s'⟩ <;> rw [hr] at h
    · exact ⟨n, s', rfl, h⟩
    all_goals exact h.elim
  · rintro ⟨n, s', hr, h⟩
    rw [wp, hr]
    exact h

theorem Post.at_finish {n : ℕ} : Q.at (Sh.finish c n, s) ↔ Q.finish c n s := by
  rw [Sh.finish, Post.finish]
  split <;> rfl

theorem Post.finish_intro {n : ℕ} (hn : Q.next n s) (he : Q.exit n s) : Q.finish c n s := by
  rw [Post.finish]
  split
  · exact hn
  · exact he

theorem Post.finish_is {r : Flow × σ} {n : ℕ} :
    (Post.is r).finish c n s ↔ (Sh.finish c n, s) = r := by
  rw [← Post.at_finish, Post.at_is]

@[simp] theorem Post.finish_zero : Q.finish c 0 s ↔ Q.next 0 s := by simp [Post.finish]

theorem Post.finish_of_ignored (h : c.ignored = true) {n : ℕ} : Q.finish c n s ↔ Q.next n s := by
  simp [Post.finish, h]

theorem Post.finish_succ (h : c.ignored = false) {n : ℕ} :
    Q.finish c (n + 1) s ↔ Q.exit (n + 1) s := by
  simp [Post.finish, h]

@[simp] theorem Post.finish_guard {n : ℕ} : Q.finish c.guard n s ↔ Q.next n s :=
  Post.finish_of_ignored rfl

@[simp] theorem Post.ok_next {n : ℕ} : Post.ok.next n s ↔ n = 0 := Iff.rfl

@[simp] theorem Post.ok_exit {n : ℕ} : Post.ok.exit n s ↔ False := Iff.rfl

@[simp] theorem Post.finish_ok {n : ℕ} : Post.ok.finish c n s ↔ n = 0 := by
  rw [Post.finish]
  split
  · rfl
  · next h => exact iff_of_false id fun hn => h (.inl hn)

theorem wp_ok : wp p c .ok s ↔ ∃ s', p c s = (.next 0, s') := by
  refine wp_next_iff.trans ?_
  constructor
  · rintro ⟨n, s', hrun, rfl⟩
    exact ⟨s', hrun⟩
  · rintro ⟨s', hrun⟩
    exact ⟨0, s', hrun, rfl⟩

theorem Post.at_mono (hn : ∀ n s, Q.next n s → R.next n s) (hb : ∀ s, Q.brk s → R.brk s)
    (hr : ∀ n s, Q.ret n s → R.ret n s) (he : ∀ n s, Q.exit n s → R.exit n s)
    (hs : ∀ s, Q.stuck s → R.stuck s) : ∀ r, Q.at r → R.at r
  | (.next n, s) => hn n s
  | (.brk, s) => hb s
  | (.ret n, s) => hr n s
  | (.exit n, s) => he n s
  | (.stuck, s) => hs s

theorem wp_mono (h : wp p c Q s) (hn : ∀ n s, Q.next n s → R.next n s)
    (hb : ∀ s, Q.brk s → R.brk s) (hr : ∀ n s, Q.ret n s → R.ret n s)
    (he : ∀ n s, Q.exit n s → R.exit n s) (hs : ∀ s, Q.stuck s → R.stuck s) : wp p c R s :=
  Post.at_mono hn hb hr he hs _ h

@[simp] theorem wp_cmd {f : Ctx → σ → ℕ × σ} :
    wp (.cmd f) c Q s ↔ Q.finish c (f c s).1 (f c s).2 := Post.at_finish

@[simp] theorem wp_skip : wp .skip c Q s ↔ Q.next 0 s := Iff.rfl

@[simp] theorem wp_assign {f : σ → σ} : wp (.assign f) c Q s ↔ Q.next 0 (f s) := Iff.rfl

@[simp] theorem wp_read {f : σ → Sh σ} : wp (.read f) c Q s ↔ wp (f s) c Q s := Iff.rfl

@[simp] theorem wp_ret {n : ℕ} : wp (.ret n) c Q s ↔ Q.ret n s := Iff.rfl

@[simp] theorem wp_exit {n : ℕ} : wp (.exit n) c Q s ↔ Q.exit n s := Iff.rfl

@[simp] theorem wp_brk : wp .brk c Q s ↔ Q.brk s := Iff.rfl

@[simp] theorem wp_test_guard {t : σ → Bool} :
    wp (.test t) c.guard Q s ↔ if t s then Q.next 0 s else Q.next 1 s := by
  cases h : t s <;> simp [Sh.test, h]

@[simp] theorem wp_seq : wp (.seq p q) c Q s ↔
    wp p c { Q with next := fun _ s' => wp q c Q s' } s := by
  unfold wp Sh.seq
  rcases p c s with ⟨_ | _ | _ | _ | _, s'⟩ <;> rfl

theorem seq_assoc {r : Sh σ} : Sh.seq (.seq p q) r = .seq p (.seq q r) := by
  funext c s
  simp only [Sh.seq]
  rcases p c s with ⟨_ | _ | _ | _ | _, s'⟩ <;> rfl

@[simp] theorem wp_block_nil : wp (.block []) c Q s ↔ Q.next 0 s := Iff.rfl

@[simp] theorem wp_block_singleton : wp (.block [p]) c Q s ↔ wp p c Q s := Iff.rfl

@[simp] theorem wp_block_cons {ps : List (Sh σ)} : wp (.block (p :: q :: ps)) c Q s ↔
    wp p c { Q with next := fun _ s' => wp (.block (q :: ps)) c Q s' } s := wp_seq

/-- A block goes on after a command that succeeds, or is over with that. -/
theorem wp_block_of_ok {ps : List (Sh σ)}
    (h : wp p c { Q with next := fun n s' => n = 0 ∧ wp (.block ps) c Q s' } s) :
    wp (.block (p :: ps)) c Q s := by
  match ps with
  | [] =>
    exact wp_mono h (fun _ _ h => h.1 ▸ h.2) (fun _ => id) (fun _ _ => id) (fun _ _ => id)
      fun _ => id
  | _ :: _ =>
    exact wp_block_cons.2 (wp_mono h (fun _ _ h => h.2) (fun _ => id) (fun _ _ => id)
      (fun _ _ => id) fun _ => id)

@[simp] theorem wp_orElse : wp (.orElse p q) c Q s ↔
    wp p c.guard { Q with next := fun n s' => if n = 0 then Q.next 0 s' else wp q c Q s' } s := by
  unfold wp Sh.orElse
  rcases p c.guard s with ⟨(_ | n) | _ | _ | _ | _, s'⟩ <;> rfl

@[simp] theorem wp_andThen : wp (.andThen p q) c Q s ↔
    wp p c.guard { Q with next := fun n s' => if n = 0 then wp q c Q s' else Q.next n s' } s := by
  unfold wp Sh.andThen
  rcases p c.guard s with ⟨(_ | n) | _ | _ | _ | _, s'⟩ <;> rfl

@[simp] theorem wp_ite : wp (.ite b p q) c Q s ↔
    wp b c.guard { Q with next := fun n s' => if n = 0 then wp p c Q s' else wp q c Q s' } s := by
  unfold wp Sh.ite
  rcases b c.guard s with ⟨(_ | n) | _ | _ | _ | _, s'⟩ <;> rfl

@[simp] theorem wp_not : wp (.not p) c Q s ↔
    wp p c.guard { Q with next := fun n s' => Q.next (if n = 0 then 1 else 0) s' } s := by
  unfold wp Sh.not
  rcases p c.guard s with ⟨(_ | n) | _ | _ | _ | _, s'⟩ <;> rfl

theorem wp_ite_cmd {f : Ctx → σ → ℕ × σ} : wp (.ite (.cmd f) p q) c Q s ↔
    if (f c.guard s).1 = 0 then wp p c Q (f c.guard s).2 else wp q c Q (f c.guard s).2 := by
  rw [wp_ite, wp_cmd, Post.finish_guard]

@[simp] theorem wp_ite_test {t : σ → Bool} :
    wp (.ite (.test t) p q) c Q s ↔ if t s then wp p c Q s else wp q c Q s := by
  cases h : t s <;> simp [h]

@[simp] theorem wp_ite_not_test {t : σ → Bool} :
    wp (.ite (.not (.test t)) p q) c Q s ↔ if t s then wp q c Q s else wp p c Q s := by
  rw [wp_ite, wp_not]
  cases h : t s <;> simp [h]

@[simp] theorem wp_call : wp (.call p) c Q s ↔
    wp p c.enter { Q with next := Q.finish c, ret := Q.finish c, brk := Q.next 0 } s := by
  unfold wp Sh.call
  rcases p c.enter s with ⟨_ | _ | _ | _ | _, s'⟩
  · exact Post.at_finish
  · rfl
  · exact Post.at_finish
  · rfl
  · rfl

/-- A function that fails, and does not exit the shell, is called where errexit is ignored. -/
theorem ignored_of_call {s' : σ} {n : ℕ} (hn : n ≠ 0) (h : Sh.call p c s = (.next n, s')) :
    c.ignored = true := by
  have hfinish {m : ℕ} {s'' : σ} (hf : (Sh.finish c m, s'') = (.next n, s')) :
      c.ignored = true := by
    rw [Sh.finish] at hf
    split at hf
    · next hm =>
      cases hf
      exact hm.resolve_left hn
    · cases hf
  rw [Sh.call] at h
  rcases hp : p c.enter s with ⟨m | _ | m | _ | _, s''⟩ <;> rw [hp] at h
  · exact hfinish h
  · cases h
    exact absurd rfl hn
  · exact hfinish h
  all_goals cases h

/-- A function leaves its state to the caller. -/
theorem call_snd : (Sh.call p c s).2 = (p c.enter s).2 := by
  rw [Sh.call]
  rcases p c.enter s with ⟨_ | _ | _ | _ | _, s'⟩ <;> rfl

/-- A call neither leaves a loop around it nor returns from the function around it. -/
theorem call_fst_ne : (Sh.call p c s).1 ≠ .brk ∧ ∀ n, (Sh.call p c s).1 ≠ .ret n := by
  have hfinish (n : ℕ) : Sh.finish c n ≠ .brk ∧ ∀ m, Sh.finish c n ≠ .ret m := by
    rw [Sh.finish]
    split <;> simp
  rw [Sh.call]
  rcases p c.enter s with ⟨m | _ | m | _ | _, s'⟩
  · exact hfinish m
  · simp
  · exact hfinish m
  all_goals simp

/-! ## Loops -/

@[simp] theorem wp_forIn_nil {p : α → Sh σ} : wp (.forIn [] p) c Q s ↔ Q.next 0 s := Iff.rfl

theorem wp_forFrom_cons {p : α → Sh σ} {n : ℕ} {x : α} {xs : List α} :
    wp (Sh.forFrom p n (x :: xs)) c Q s ↔
      wp (p x) c
        { Q with next := fun n s' => wp (Sh.forFrom p n xs) c Q s', brk := Q.next 0 } s := by
  simp only [wp, Sh.forFrom]
  rcases p x c s with ⟨_ | _ | _ | _ | _, s'⟩ <;> rfl

/-- A loop keeps an invariant on what is left of its list, if each round does. -/
theorem wp_forIn_of_inv {xs : List α} {p : α → Sh σ} (I : List α → σ → Prop)
    (hstep : ∀ x rest s, I (x :: rest) s →
      wp (p x) c { Q with next := fun _ s' => I rest s', brk := Q.next 0 } s)
    (hend : ∀ n s, I [] s → Q.next n s) (hs : I xs s) : wp (.forIn xs p) c Q s := by
  suffices h : ∀ n, wp (Sh.forFrom p n xs) c Q s from h 0
  induction xs generalizing s with
  | nil => exact fun n => hend n s hs
  | cons x xs ih =>
    intro n
    rw [wp_forFrom_cons]
    exact wp_mono (hstep x xs s hs) (fun _ _ hI => ih hI _) (fun _ => id) (fun _ _ => id)
      (fun _ _ => id) (fun _ => id)

/-- A loop succeeds, if each round does. -/
theorem wp_forIn_of_ok {xs : List α} {p : α → Sh σ} (I : List α → σ → Prop)
    (hstep : ∀ x rest s, I (x :: rest) s →
      wp (p x) c { Q with next := fun n s' => n = 0 ∧ I rest s', brk := Q.next 0 } s)
    (hend : ∀ s, I [] s → Q.next 0 s) (hs : I xs s) : wp (.forIn xs p) c Q s := by
  suffices h : wp (Sh.forFrom p 0 xs) c Q s from h
  induction xs generalizing s with
  | nil => exact hend s hs
  | cons x xs ih =>
    rw [wp_forFrom_cons]
    exact wp_mono (hstep x xs s hs) (fun _ _ h => h.1 ▸ ih h.2) (fun _ => id) (fun _ _ => id)
      (fun _ _ => id) (fun _ => id)

/-- A loop that ends at the first element with `t`. -/
theorem wp_forIn_find {xs : List α} {t : α → Bool} {f : α → σ → σ} :
    wp (.forIn xs fun x => .ite (.test fun _ => t x) (.block [.assign (f x), .brk]) .skip) c Q s ↔
      Q.next 0 ((xs.find? t).elim s (f · s)) := by
  rw [Sh.forIn]
  induction xs with
  | nil => rfl
  | cons x xs ih =>
    rw [wp_forFrom_cons, wp_ite_test]
    cases hx : t x with
    | true => simp [hx]
    | false => simpa [hx] using ih

/-- A loop that returns at the first element with `t`. -/
theorem wp_forIn_return {xs : List α} {t : α → Bool} {f : α → σ → σ} {n : ℕ} :
    wp (.forIn xs fun x => .ite (.test fun _ => t x) (.block [.assign (f x), .ret n]) .skip) c Q s ↔
      (xs.find? t).elim (Q.next 0 s) fun x => Q.ret n (f x s) := by
  rw [Sh.forIn]
  induction xs with
  | nil => rfl
  | cons x xs ih =>
    rw [wp_forFrom_cons, wp_ite_test]
    cases hx : t x with
    | true => simp [hx]
    | false => simpa [hx] using ih

/-- A loop of rounds that succeed goes through its list. -/
theorem wp_forIn_foldl {xs : List α} {p : α → Sh σ} {f : σ → α → σ}
    (hp : ∀ x (Q : Post σ) s, wp (p x) c Q s ↔ Q.next 0 (f s x)) :
    wp (.forIn xs p) c Q s ↔ Q.next 0 (xs.foldl f s) := by
  rw [Sh.forIn]
  induction xs generalizing s with
  | nil => rfl
  | cons x xs ih => rw [wp_forFrom_cons, hp, List.foldl_cons, ← ih]

/-- What goes up at each element with `t` counts them. -/
theorem foldl_count {f : σ → α → σ} {g : σ → ℕ} {t : α → Bool}
    (hf : ∀ s x, g (f s x) = g s + if t x then 1 else 0) (xs : List α) (s : σ) :
    g (xs.foldl f s) = g s + xs.countP t := by
  induction xs generalizing s with
  | nil => rfl
  | cons x xs ih =>
    rw [List.foldl_cons, ih, hf, List.countP_cons]
    omega

/-- A loop that changes the state at each element without `t`. -/
theorem wp_forIn_collect {xs : List α} {t : α → Bool} {f : α → σ → σ} :
    wp (.forIn xs fun x => .ite (.not (.test fun _ => t x)) (.assign (f x)) .skip) c Q s ↔
      Q.next 0 ((xs.filter fun x => !t x).foldl (fun s x => f x s) s) := by
  rw [List.foldl_filter]
  refine wp_forIn_foldl fun x Q s => ?_
  rw [wp_ite_not_test]
  cases t x <;> simp

/-- A loop that exits the shell at the first element without `t`. -/
theorem wp_forIn_all {xs : List α} {p : α → Sh σ} {t : α → Bool} {s' : σ}
    (hok : ∀ x, t x = true → p x c s = (.next 0, s))
    (hbad : ∀ x, t x = false → p x c s = (.exit 1, s')) :
    wp (.forIn xs p) c Q s ↔ if xs.all t then Q.next 0 s else Q.exit 1 s' := by
  rw [Sh.forIn]
  induction xs with
  | nil => rfl
  | cons x xs ih =>
    rw [wp_forFrom_cons, List.all_cons]
    cases hx : t x with
    | true => rw [wp_of_eq (hok x hx), Bool.true_and, ← ih]; rfl
    | false => rw [wp_of_eq (hbad x hx)]; rfl

/-- A loop goes through its list, if each round leaves the state as it is. -/
theorem forIn_of_skip {xs : List α} {p : α → Sh σ} (h : ∀ x ∈ xs, p x c s = (.next 0, s)) :
    Sh.forIn xs p c s = (.next 0, s) := by
  rw [Sh.forIn]
  induction xs with
  | nil => rfl
  | cons x xs ih =>
    rw [Sh.forFrom, h x List.mem_cons_self]
    exact ih fun y hy => h y (List.mem_cons_of_mem _ hy)

theorem rounds_of_skip {xs : List α} {p : α → Sh σ} (h : ∀ x ∈ xs, p x c s = (.next 0, s)) :
    Sh.rounds p c xs s = xs.map (·, s) := by
  induction xs with
  | nil => rfl
  | cons x xs ih =>
    rw [Sh.rounds, h x List.mem_cons_self, List.map_cons]
    exact congrArg _ (ih fun y hy => h y (List.mem_cons_of_mem _ hy))

theorem wp_whileDo_succ {fuel : ℕ} :
    wp (Sh.whileDo b p (fuel + 1)) c Q s ↔
      wp b c.guard
        { Q with
          next := fun n s' =>
            if n = 0 then
              wp p c { Q with next := fun _ => wp (Sh.whileDo b p fuel) c Q, brk := Q.next 0 } s'
            else Q.next 0 s' } s := by
  simp only [wp, Sh.whileDo]
  rcases b c.guard s with ⟨(_ | n) | _ | _ | _ | _, s'⟩
  · rcases h : p c s' with ⟨_ | _ | _ | _ | _, s''⟩ <;> simp [Post.at, h, wp]
  all_goals rfl

end

end Shell
