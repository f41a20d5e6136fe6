import LfsBuilder.Scripts.LfsBuildFixed.Script

/-!
# Failures that the checked build script reports

Which failures of a stage command `main` of `lfs-build-fixed.sh` reports. For every
statement of a stage there is the list of the commands whose failure ends the
stage, and the list of those that nothing guards (`Leaves`, and `Returns` for the
call of a function); the lists of a stage are put together from those of its
statements.

* `returns_buildGlibc`, `returns_createBootableIso`, …: what each stage checks,
  and what it does not;
* `main_runs`: how the script ends;
* `main_complete_iff`: a finished build is reported only if all stage commands have
  succeeded, just if a checked command fails or no unchecked one does.
-/

namespace LfsBuilder.LfsBuildFixed

open Shell Coreutils

/-- All stage commands so far have succeeded that nothing guards. -/
def Clean (s : State) : Prop := ∀ r ∈ s.log, r.2 = 0

/-- All commands of a list succeed. -/
def Ok (a : Site → ℕ) (xs : List Site) : Prop := ∀ x ∈ xs, a x = 0

/-- The context of the statements of a function that is called where errexit is ignored. -/
def inner : Ctx := ⟨true, false⟩

/-- What the end of a statement says: the script goes on if the commands in
    `checked` succeed, and otherwise fails; what is not guarded is clean if the
    commands in `unchecked` succeed. `I` is about `CREATE_ISO`. -/
def after (a : Site → ℕ) (c : Ctx) (I : Bool → Prop) (checked unchecked : List Site) (s : State) :
    Post State where
  next _ s' := Ok a checked ∧ I s'.createIso ∧ (Clean s' ↔ Clean s ∧ Ok a unchecked)
  ret n _ := n = 1 ∧ ¬Ok a checked
  exit n _ := c.ignored = false ∧ n ≠ 0 ∧ ¬Ok a checked

/-- A statement of a function ends so in the context `c`. -/
def Leaves (a : Site → ℕ) (c : Ctx) (I I' : Bool → Prop) (p : Sh State)
    (checked unchecked : List Site) : Prop :=
  ∀ s, I s.createIso → wp p c (after a c I' checked unchecked s) s

/-- The same for the call of a function, which ends with a status. -/
def Returns (a : Site → ℕ) (I I' : Bool → Prop) (p : Sh State) (checked unchecked : List Site) :
    Prop :=
  ∀ c s, c.ignored = true → I s.createIso → wp p c
    { next := fun n s' => (n = 0 ∧ Ok a checked ∧ I' s'.createIso ∧
        (Clean s' ↔ Clean s ∧ Ok a unchecked)) ∨ n ≠ 0 ∧ ¬Ok a checked } s

variable {a : Site → ℕ} {I I' I'' : Bool → Prop} {p q : Sh State} {ps : List (Sh State)}
  {C C' U U' : List Site} {c : Ctx} {s : State}

@[simp] theorem ok_nil : Ok a [] := fun _ h => absurd h List.not_mem_nil

@[simp] theorem ok_singleton {x : Site} : Ok a [x] ↔ a x = 0 := List.forall_mem_singleton

@[simp] theorem ok_append : Ok a (C ++ C') ↔ Ok a C ∧ Ok a C' := List.forall_mem_append

@[simp] theorem ok_flatMap {α : Type} {xs : List α} {f : α → List Site} :
    Ok a (xs.flatMap f) ↔ ∀ x ∈ xs, Ok a (f x) := by
  simp only [Ok, List.mem_flatMap]
  exact ⟨fun h x hx y hy => h y ⟨x, hx, hy⟩, fun h y ⟨x, hx, hy⟩ => h x hx y hy⟩

@[simp] theorem ok_map {α : Type} {xs : List α} {f : α → Site} :
    Ok a (xs.map f) ↔ ∀ x ∈ xs, a (f x) = 0 := List.forall_mem_map

theorem clean_record {x : Site} {n : ℕ} :
    Clean { s with log := s.log ++ [(x, n)] } ↔ Clean s ∧ n = 0 := by
  rw [Clean, List.forall_mem_append, List.forall_mem_singleton, Clean]

/-! ### Statements of a stage -/

theorem leaves_skip : Leaves a c I I .skip [] [] := fun s hs =>
  ⟨ok_nil, hs, by simp⟩

theorem leaves_record (x : Site) (n : ℕ) (h : n = 0 ↔ Ok a U) :
    Leaves a inner I I (record x n) [] U := by
  intro s hs
  rw [record, wp_cmd]
  refine (Post.finish_of_ignored (c := inner) rfl).2 ⟨ok_nil, hs, ?_⟩
  exact clean_record.trans (and_congr_right' h)

theorem leaves_run (x : Site) : Leaves a inner I I (run a x) [] [x] :=
  leaves_record x (a x) ok_singleton.symm

/-- A command that is guarded leaves nothing but its status. -/
theorem wp_run_guard {x : Site} {Q : Post State} :
    wp (run a x) c.guard Q s ↔ Q.next (a x) s := by
  rw [run, record, wp_cmd, Post.finish_guard]
  rfl

theorem leaves_orReturn (x : Site) : Leaves a c I I (orReturn (run a x)) [x] [] := by
  intro s hs
  rw [orReturn, wp_orElse, wp_run_guard]
  by_cases h : a x = 0
  · simp only [h, ↓reduceIte]
    exact ⟨ok_singleton.2 h, hs, by simp⟩
  · simp only [h, ↓reduceIte, wp_ret]
    exact ⟨rfl, fun hx => h (ok_singleton.1 hx)⟩

theorem leaves_orTrue (x : Site) : Leaves a c I I (orTrue (run a x)) [] [] := by
  intro s hs
  rw [orTrue, wp_orElse, wp_run_guard]
  dsimp only
  split <;> exact leaves_skip s hs

/-- A branch on a test. -/
theorem Leaves.ite {x : Site} (hp : Leaves a c I I' p C U) (hq : Leaves a c I I' q C' U') :
    Leaves a c I I' (.ite (run a x) p q) (if a x = 0 then C else C')
      (if a x = 0 then U else U') := by
  intro s hs
  rw [wp_ite, wp_run_guard]
  by_cases h : a x = 0
  · simpa only [h, ↓reduceIte] using hp s hs
  · simpa only [h, ↓reduceIte] using hq s hs

/-- A branch on a setting. -/
theorem Leaves.setting {b : Bool} (hp : Leaves a c I I' p C U) (hq : Leaves a c I I' q C' U') :
    Leaves a c I I' (.ite (.test fun _ => b) p q) (if b then C else C') (if b then U else U') := by
  intro s hs
  rw [wp_ite_test]
  cases b
  · exact hq s hs
  · exact hp s hs

theorem leaves_nil : Leaves a c I I (.block []) [] [] := leaves_skip

/-- One statement after another. -/
theorem after_append {s' : State} (hc : Ok a C) (hu : Clean s' ↔ Clean s ∧ Ok a U)
    {r : Flow × State} (h : (after a c I C' U' s').at r) :
    (after a c I (C ++ C') (U ++ U') s).at r := by
  have hfail (h : ¬Ok a C') : ¬Ok a (C ++ C') := fun hok => h (ok_append.1 hok).2
  rcases r with ⟨n | _ | n | n | _, s''⟩
  · obtain ⟨hc', hi', hu'⟩ := h
    exact ⟨ok_append.2 ⟨hc, hc'⟩, hi', by rw [hu', hu, ok_append, and_assoc]⟩
  · exact h
  · exact ⟨h.1, hfail h.2⟩
  · exact ⟨h.1, h.2.1, hfail h.2.2⟩
  · exact h

/-- A statement that fails is the last one. -/
theorem wp_append {Q : Post State} (hp : wp p c (after a c I' C U s) s)
    (hnext : ∀ n s', Ok a C → I' s'.createIso → (Clean s' ↔ Clean s ∧ Ok a U) → Q.next n s')
    (hret : ∀ s', ¬Ok a (C ++ C') → Q.ret 1 s')
    (hexit : ∀ n s', c.ignored = false ∧ n ≠ 0 ∧ ¬Ok a (C ++ C') → Q.exit n s') : wp p c Q s := by
  have hfail (h : ¬Ok a C) : ¬Ok a (C ++ C') := fun hok => h (ok_append.1 hok).1
  exact wp_mono hp (fun n s' ⟨hc, hi, hu⟩ => hnext n s' hc hi hu) (fun _ => False.elim)
    (fun _ s' ⟨hn, hc⟩ => hn ▸ hret s' (hfail hc))
    (fun n s' ⟨hi, hn, hc⟩ => hexit n s' ⟨hi, hn, hfail hc⟩) fun _ => False.elim

theorem Leaves.cons (hp : Leaves a c I I' p C U) (hps : Leaves a c I' I'' (.block ps) C' U') :
    Leaves a c I I'' (.block (p :: ps)) (C ++ C') (U ++ U') := by
  intro s hs
  match ps with
  | [] =>
    exact wp_append (hp s hs) (fun _ s' hc hi hu => after_append hc hu (hps s' hi))
      (fun _ h => ⟨rfl, h⟩) fun _ _ => id
  | _ :: _ =>
    rw [wp_block_cons]
    exact wp_append (hp s hs) (fun _ s' hc hi hu => after_append hc hu (hps s' hi))
      (fun _ h => ⟨rfl, h⟩) fun _ _ => id

/-- A loop checks what its rounds check. -/
theorem Leaves.forIn {α : Type} {xs : List α} {p : α → Sh State} {C U : α → List Site}
    (h : ∀ x, Leaves a c I I (p x) (C x) (U x)) :
    Leaves a c I I (.forIn xs p) (xs.flatMap C) (xs.flatMap U) := by
  suffices hfrom : ∀ n, Leaves a c I I (Sh.forFrom p n xs) (xs.flatMap C) (xs.flatMap U) from
    hfrom 0
  induction xs with
  | nil => exact fun n s hs => ⟨ok_nil, hs, by simp⟩
  | cons x xs ih =>
    intro n s hs
    rw [wp_forFrom_cons]
    exact wp_append (h x s hs) (fun _ s' hc hi hu => after_append hc hu (ih _ s' hi))
      (fun _ h => ⟨rfl, h⟩) fun _ _ => id

/-- A function that returns 0 at its end has checked what its statements check. -/
theorem Leaves.function (h : Leaves a inner I I' (.block ps) C U) :
    Returns a I I' (function ps) C U := by
  intro c s hc hs
  have henter : c.enter = inner := by rw [Ctx.enter, hc, inner]
  rw [LfsBuildFixed.function, wp_call, wp_seq, henter]
  refine wp_mono (h s hs) (fun n s' h => ?_) (fun _ => False.elim) (fun n s' ⟨hn, hn'⟩ => ?_)
    (fun _ _ h => nomatch h.1) fun _ => False.elim
  · simp only [wp_ret, Post.finish_zero]
    exact .inl ⟨trivial, h⟩
  · dsimp only
    rw [Post.finish_of_ignored hc]
    exact .inr ⟨hn ▸ Nat.one_ne_zero, hn'⟩

/-- `f || return 1` -/
theorem Returns.orReturn (h : Returns a I I' p C U) : Leaves a c I I' (orReturn p) C U := by
  intro s hs
  rw [LfsBuildFixed.orReturn, wp_orElse]
  refine wp_mono (h c.guard s rfl hs) (fun n s' h => ?_) (fun _ => id) (fun _ _ => False.elim)
    (fun _ _ => False.elim) fun _ => id
  rcases h with ⟨rfl, h⟩ | ⟨hn, hc⟩
  · exact h
  · simp only [hn, ↓reduceIte, wp_ret]
    exact ⟨rfl, hc⟩

/-- `if ! f; then return 1; fi` -/
theorem Returns.check (h : Returns a I I' p C U) :
    Leaves a c I I' (.ite (.not p) (.ret 1) .skip) C U := by
  intro s hs
  rw [wp_ite, wp_not]
  refine wp_mono (h _ s rfl hs) (fun n s' h => ?_) (fun _ => id) (fun _ _ => False.elim)
    (fun _ _ => False.elim) fun _ => id
  rcases h with ⟨rfl, h⟩ | ⟨hn, hc⟩
  · exact h
  · simp only [hn, ↓reduceIte, wp_ret]
    exact ⟨rfl, hc⟩

/-- A stage function that is called without a guard is a stage command itself. -/
theorem Returns.called {x : Site} (h : Returns a I I' p C U) :
    Leaves a inner I (fun _ => True) (called x p) [] (C ++ U) := by
  intro s hs
  have hp := h inner s rfl hs
  rw [wp] at hp ⊢
  rw [LfsBuildFixed.called]
  rcases hrun : p inner s with ⟨n | _ | _ | _ | _, s'⟩ <;> rw [hrun] at hp
  · refine (Post.at_finish (c := ⟨true, false⟩)).2 ((Post.finish_of_ignored rfl).2 ?_)
    show Ok a [] ∧ True ∧
      (Clean { s' with log := s'.log ++ [(x, n)] } ↔ Clean s ∧ Ok a (C ++ U))
    refine ⟨ok_nil, trivial, ?_⟩
    rw [clean_record, ok_append]
    rcases hp with ⟨rfl, hc, _, hu⟩ | ⟨hn, hc⟩
    · simp [hu, hc]
    · simp [hn, hc]
  all_goals exact hp.elim

theorem leaves_test {x : Site} : Leaves a c I I (.ite (.not (run a x)) (.ret 1) .skip) [x] [] := by
  intro s hs
  rw [wp_ite, wp_not, wp_run_guard]
  by_cases h : a x = 0
  · simp only [h, ↓reduceIte, Nat.one_ne_zero, wp_skip]
    exact ⟨ok_singleton.2 h, hs, by simp⟩
  · simp only [h, ↓reduceIte, wp_ret]
    exact ⟨rfl, fun hx => h (ok_singleton.1 hx)⟩

/-- A branch on the failure of a test. -/
theorem Leaves.iteNot {x : Site} (hp : Leaves a c I I' p C U) (hq : Leaves a c I I' q C' U') :
    Leaves a c I I' (.ite (.not (run a x)) p q) (if a x = 0 then C' else C)
      (if a x = 0 then U' else U) := by
  intro s hs
  rw [wp_ite, wp_not, wp_run_guard]
  by_cases h : a x = 0
  · simpa only [h, ↓reduceIte, Nat.one_ne_zero] using hq s hs
  · simpa only [h, ↓reduceIte] using hp s hs

/-- `if x; then p; else return 1; fi` -/
theorem Leaves.iteRet {x : Site} (hp : Leaves a c I I' p C U) :
    Leaves a c I I' (.ite (run a x) p (.ret 1)) (x :: C) U := by
  intro s hs
  rw [wp_ite, wp_run_guard]
  by_cases h : a x = 0
  · simp only [h, ↓reduceIte]
    exact after_append (C := [x]) (U := []) (ok_singleton.2 h) (by simp) (hp s hs)
  · simp only [h, ↓reduceIte, wp_ret]
    exact ⟨rfl, fun hx => h (hx x List.mem_cons_self)⟩

/-! ### The functions that several stages call -/

theorem leaves_piped (x : Site) : Leaves a inner I I (piped a x) [] [x] := by
  intro s hs
  rw [piped, wp_cmd]
  refine (Post.finish_of_ignored (c := inner) rfl).2 ⟨ok_nil, hs, ?_⟩
  exact clean_record.trans (and_congr_right' ok_singleton.symm)

/-- What `make_build` checks. -/
def makeChecked (x : Site) : List Site := [x ++ ["-f Makefile"], x ++ ["make"]]

theorem returns_makeBuild {h : Host} (x : Site) :
    Returns a I I (makeBuild a h x) (makeChecked x) [x ++ ["make"]] := by
  have hmake : Leaves a inner I I (.ite (.test fun _ => h.verbose) (piped a (x ++ ["make"]))
      (run a (x ++ ["make"]))) [] [x ++ ["make"]] := by
    intro s hs
    rw [wp_ite_test]
    split
    · exact leaves_piped _ s hs
    · exact leaves_run _ s hs
  have hstatus : Leaves a inner I I (.ite (.test fun _ => a (x ++ ["make"]) == 124) (.ret 1)
      (.ite (.test fun _ => a (x ++ ["make"]) != 0) (.ret 1) .skip)) [x ++ ["make"]] [] := by
    intro s hs
    rw [wp_ite_test, wp_ite_test]
    split_ifs with h124 hne
    · exact ⟨rfl, fun hx => by simp [ok_singleton.1 hx] at h124⟩
    · exact ⟨rfl, fun hx => by simp [ok_singleton.1 hx] at hne⟩
    · exact ⟨ok_singleton.2 (by simpa using hne), hs, by simp⟩
  exact Leaves.function (.cons leaves_test (.cons hmake (.cons hstatus leaves_nil)))

/-- A function that ends with the status of a single command. -/
theorem returns_call {x : Site} (f : Ctx → State → ℕ × State)
    (hf : ∀ s, (f inner s).2 = { s with log := s.log ++ [(x, a x)] })
    (hn : ∀ s, (f inner s).1 = 0 ↔ Ok a C) :
    Returns a I I (.call (.cmd f)) C [x] := by
  intro c s hc hs
  have henter : c.enter = inner := by rw [Ctx.enter, hc, inner]
  rw [wp_call, henter, wp_cmd, Post.finish_of_ignored rfl]
  dsimp only
  rw [Post.finish_of_ignored hc, hf]
  by_cases h : Ok a C
  · exact .inl ⟨(hn s).2 h, h, hs, clean_record.trans (and_congr_right' ok_singleton.symm)⟩
  · exact .inr ⟨fun h0 => h ((hn s).1 h0), h⟩

/-- A function that does one thing or another, by a setting. -/
theorem Returns.setting {b : Bool} (hp : Returns a I I' (.call p) C U)
    (hq : Returns a I I' (.call q) C' U') :
    Returns a I I' (.call (.ite (.test fun _ => b) p q)) (if b then C else C')
      (if b then U else U') := by
  intro c s hc hs
  rw [wp_call, wp_ite_test]
  cases b
  · exact wp_call.1 (hq c s hc hs)
  · exact wp_call.1 (hp c s hc hs)

theorem returns_call_run (x : Site) : Returns a I I (.call (run a x)) [x] [x] :=
  returns_call _ (fun _ => rfl) fun _ => ok_singleton.symm

theorem returns_wgetDownload {h : Host} (x : Site) :
    Returns a I I (wgetDownload a h x) (if h.verbose then [x, x ++ ["tee"]] else [x])
      (if h.verbose then [x] else [x]) := by
  refine .setting (returns_call _ (fun _ => rfl) fun s => ?_)
    (returns_call_run x)
  by_cases h : a (x ++ ["tee"]) = 0 <;> simp [Ok, h]

/-- With `VERBOSE`, the status of the command is lost. -/
theorem returns_runVerbose {h : Host} (x : Site) :
    Returns a I I (runVerbose a h x) (if h.verbose then [] else [x])
      (if h.verbose then [x] else [x]) := by
  refine .setting ?_ (returns_call_run x)
  intro c s hc hs
  have henter : c.enter = inner := by rw [Ctx.enter, hc, inner]
  rw [wp_call, henter, wp_block_cons]
  refine wp_mono (leaves_run x s hs) (fun n s' h => ?_) (fun _ => False.elim)
    (fun _ _ h => absurd ok_nil h.2) (fun _ _ h => nomatch h.1) fun _ => False.elim
  simp only [wp_block_singleton, wp_skip, Post.finish_zero]
  exact .inl ⟨trivial, h⟩

theorem Returns.congr (h : Returns a I I' p C U) (hC : Ok a C ↔ Ok a C') (hU : Ok a U ↔ Ok a U') :
    Returns a I I' p C' U' := by
  simpa only [Returns, hC, hU] using h

theorem Leaves.congr (h : Leaves a c I I' p C U) (hC : Ok a C ↔ Ok a C') (hU : Ok a U ↔ Ok a U') :
    Leaves a c I I' p C' U' := by
  simpa only [Leaves, after, hC, hU] using h

/-- A branch on `CREATE_ISO`. -/
theorem Leaves.iteIso {i : Bool} (hp : i = true → Leaves a c (· = i) I' p C U)
    (hq : i = false → Leaves a c (· = i) I' q C' U') :
    Leaves a c (· = i) I' (.ite (.test fun s => s.createIso) p q) (if i then C else C')
      (if i then U else U') := by
  intro s hs
  rw [wp_ite_test, hs]
  cases i
  · exact hq rfl s hs
  · exact hp rfl s hs

/-! ## The commands of every stage -/

section

variable (a : Site → ℕ) (h : Host)

/-- What `CREATE_ISO` is after `validate_environment`. -/
def isoEnabled : Bool :=
  h.createIso && (a ["validate_environment", "command -v xorriso"] == 0 ||
    a ["validate_environment", "command -v genisoimage"] == 0)

def validateChecked : List Site :=
  (if a ["validate_environment", "-f /.dockerenv"] = 0 then []
    else [["validate_environment", "available_space -ge required_space"]]) ++
  requiredTools.map fun tool => ["validate_environment", "command -v", tool]

def setupUnchecked : List Site := [
  ["setup_lfs_environment", "mkdir -p $LFS"],
  ["setup_lfs_environment", "mkdir -p $LFS/{etc,var,usr,tools,home,mnt,proc,sys,dev}"],
  ["setup_lfs_environment", "mkdir -p $LFS/usr/{bin,lib,sbin}"],
  ["setup_lfs_environment", "mkdir -p $LFS/var/{log,mail,spool}"],
  ["setup_lfs_environment", "mkdir -p $LFS/etc/sysconfig"],
  ["setup_lfs_environment", "mkdir -p $LFS/usr/share"],
  ["setup_lfs_environment", "echo > $LFS/usr/share/config.site"],
  ["setup_lfs_environment", "mkdir -p $LFS_WORKSPACE/sources"],
  ["setup_lfs_environment", "cd $LFS_WORKSPACE/sources"]]

/-- The call of wget, where the file is missing, with tee in a verbose run. -/
def downloadChecked : List Site :=
  packages.flatMap fun url =>
    if a ["download_packages", url, "-f $filename"] = 0 then []
    else if h.verbose then
      [["download_packages", url, "wget"], ["download_packages", url, "wget", "tee"]]
    else [["download_packages", url, "wget"]]

def downloadUnchecked : List Site :=
  ["download_packages", "cd $LFS_WORKSPACE/sources"] :: packages.flatMap fun url =>
    if a ["download_packages", url, "-f $filename"] = 0 then []
    else [["download_packages", url, "wget"]]

def crossToolsChecked : List Site :=
  ["binutils", "gcc"].flatMap fun name =>
    ["build_cross_tools", name, "../configure"] :: makeChecked ["build_cross_tools", name] ++
      [["build_cross_tools", name, "make install"]]

def crossToolsUnchecked : List Site := [
  ["build_cross_tools", "cd $LFS_WORKSPACE/sources"],
  ["build_cross_tools", "binutils", "tar -xf binutils-2.42.tar.xz"],
  ["build_cross_tools", "binutils", "cd binutils-2.42"],
  ["build_cross_tools", "binutils", "mkdir -v build"],
  ["build_cross_tools", "binutils", "cd build"],
  ["build_cross_tools", "binutils", "make"],
  ["build_cross_tools", "binutils", "cd $LFS_WORKSPACE/sources"],
  ["build_cross_tools", "binutils", "rm -rf binutils-2.42"],
  ["build_cross_tools", "gcc", "tar -xf gcc-13.2.0.tar.xz"],
  ["build_cross_tools", "gcc", "cd gcc-13.2.0"],
  ["build_cross_tools", "gcc", "mkdir -v build"],
  ["build_cross_tools", "gcc", "cd build"],
  ["build_cross_tools", "gcc", "make"],
  ["build_cross_tools", "gcc", "cd $LFS_WORKSPACE/sources"],
  ["build_cross_tools", "gcc", "rm -rf gcc-13.2.0"]]

/-- In a verbose run, run_verbose loses the status of `make headers`. -/
def kernelHeadersChecked : List Site :=
  ["build_kernel_headers", "make mrproper"] ::
    (if h.verbose then [] else [["build_kernel_headers", "make headers"]]) ++
    [["build_kernel_headers", "cp -rv usr/include $LFS/usr"]]

def kernelHeadersUnchecked : List Site := [
  ["build_kernel_headers", "cd $LFS_WORKSPACE/sources"],
  ["build_kernel_headers", "tar -xf linux-6.7.4.tar.xz"],
  ["build_kernel_headers", "cd linux-6.7.4"],
  ["build_kernel_headers", "make headers"],
  ["build_kernel_headers", "find usr/include -type f ! -name '*.h' -delete"],
  ["build_kernel_headers", "linux", "cd $LFS_WORKSPACE/sources"],
  ["build_kernel_headers", "rm -rf linux-6.7.4"]]

def glibcChecked : List Site := [
  ["build_glibc", "-d $LFS/usr/include/linux"],
  ["build_glibc", "-d $LFS/tools"],
  ["build_glibc", "tar -xf glibc-2.39.tar.xz"],
  ["build_glibc", "../configure"]] ++ makeChecked ["build_glibc"] ++
  [["build_glibc", "make install"]]

def configparmsUnchecked (machine : String) : List Site :=
  if isI86 machine then [["build_glibc", "echo march > configparms"]]
  else if machine = "x86_64" then [["build_glibc", "echo mtune > configparms"]]
  else []

def glibcUnchecked : List Site := [
  ["build_glibc", "cd $LFS_WORKSPACE/sources"],
  ["build_glibc", "clean", "rm -rf glibc-2.39"],
  ["build_glibc", "cd glibc-2.39"],
  ["build_glibc", "mkdir -v build"],
  ["build_glibc", "cd build"]] ++ configparmsUnchecked h.machine ++ [
  ["build_glibc", "echo rootsbindir >> configparms"],
  ["build_glibc", "make"],
  ["build_glibc", "glibc", "cd $LFS_WORKSPACE/sources"],
  ["build_glibc", "rm -rf glibc-2.39"]]

def coreToolsChecked : List Site :=
  tools.flatMap fun tool =>
    [["build_core_tools", tool, "tar -xf"], ["build_core_tools", tool, "./configure"]] ++
      makeChecked ["build_core_tools", tool] ++ [["build_core_tools", tool, "make install"]]

def coreToolsUnchecked : List Site :=
  ["build_core_tools", "cd $LFS_WORKSPACE/sources"] :: tools.flatMap fun tool => [
    ["build_core_tools", tool, "cd"],
    ["build_core_tools", tool, "make"],
    ["build_core_tools", tool, "cd $LFS_WORKSPACE/sources"],
    ["build_core_tools", tool, "rm -rf"]]

def configureSystemUnchecked : List Site := [
  ["configure_system", "cat > $LFS/etc/passwd"],
  ["configure_system", "cat > $LFS/etc/group"],
  ["configure_system", "cat > $LFS/etc/fstab"],
  ["configure_system", "echo > $LFS/etc/hostname"],
  ["configure_system", "cat > $LFS/etc/hosts"]]

def networkingUnchecked : List Site :=
  if h.networkingEnabled then [
    ["install_networking", "mkdir -p $LFS/etc/sysconfig"],
    ["install_networking", "cat > $LFS/etc/sysconfig/ifconfig.eth0"],
    ["install_networking", "cat > $LFS/etc/resolv.conf"]]
  else []

def gnomeUnchecked : List Site :=
  if h.gnomeEnabled then [
    ["install_gnome", "mkdir -p $LFS/etc/X11/xorg.conf.d"],
    ["install_gnome", "mkdir -p $LFS/usr/share/xsessions"],
    ["install_gnome", "cat > $LFS/usr/share/xsessions/gnome.desktop"]]
  else []

def bootConfigUnchecked : List Site := [
  ["create_boot_config", "mkdir -p $LFS/boot"],
  ["create_boot_config", "mkdir -p $LFS/boot/grub"],
  ["create_boot_config", "cat > $LFS/boot/grub/grub.cfg"],
  ["create_boot_config", "mkdir -p $LFS/etc/mkinitcpio.d"]]

def finalizeUnchecked : List Site := [
  ["finalize_system", "echo > $LFS/etc/lfs-release"],
  ["finalize_system", "cat > $LFS/etc/motd"],
  ["finalize_system", "chmod 644 $LFS/etc/passwd $LFS/etc/group"],
  ["finalize_system", "chmod 600 $LFS/etc/fstab"]]

def systemImageUnchecked : List Site := [
  ["create_system_image", "cd $LFS"],
  ["create_system_image", "tar -czf $LFS_WORKSPACE/lfs-system.tar.gz ."]]

/-- The commands that the status of `create_iso_image` depends on. -/
def isoImageChecked : List Site :=
  ["create_iso_image", "-d $build_root"] ::
  (if a ["create_iso_image", "-n $boot_cfg && -f $boot_cfg"] = 0 then
    [["create_iso_image", "cp $boot_cfg $build_root/boot/"]] else []) ++
  (if a ["create_iso_image", "command -v xorriso"] = 0 then [["create_iso_image", "xorriso"]]
    else [["create_iso_image", "command -v genisoimage"], ["create_iso_image", "genisoimage"]]) ++
  [["create_iso_image", "-f $output_path"]]

def isoImageUnchecked : List Site :=
  (if a ["create_iso_image", "compgen -G $build_root/boot/vmlinuz*"] = 0 then [] else [
    ["create_iso_image", "kernel", "mkdir -p $build_root/boot"],
    ["create_iso_image", "echo > $build_root/boot/kernel_info.txt"]]) ++
  (if a ["create_iso_image", "-n $boot_cfg && -f $boot_cfg"] = 0 then
    [["create_iso_image", "bootloader", "mkdir -p $build_root/boot"]] else []) ++
  [["create_iso_image", "mkdir -p $(dirname $output_path)"]]

/-- Nobody looks at the status of `create_iso_image` itself. -/
def bootableIsoUnchecked : List Site :=
  if isoEnabled a h ∧ a ["create_bootable_iso", "-f $iso_creator"] = 0 then
    ["create_bootable_iso", "source $iso_creator"] :: isoImageChecked a ++ isoImageUnchecked a
  else []

/-- The messages that the end of the script prints. -/
def endChecked : List Site :=
  (completeMessages.map fun m => ["main", m]) ++
  (if a ["main", "CREATE_ISO == true && -f $ISO_OUTPUT"] = 0 then [["main", "Bootable ISO"]]
    else []) ++
  [["main", "echo before the next steps"], ["main", "Next steps"]] ++
  (if a ["main", "-f $ISO_OUTPUT"] = 0 then isoMessages.map fun m => ["main", m]
    else imageMessages.map fun m => ["main", m]) ++
  [["main", "echo at the end"]]

/-- The commands whose failure ends the script. -/
def mainChecked : List Site :=
  (openingMessages.map fun m => ["main", m]) ++ validateChecked a ++ downloadChecked a h ++
  crossToolsChecked ++ kernelHeadersChecked h ++ (debugMessages.map fun m => ["main", m]) ++
  glibcChecked ++ coreToolsChecked ++ endChecked a

/-- The stage commands that nothing guards. -/
def mainUnchecked : List Site :=
  setupUnchecked ++ downloadUnchecked a ++ crossToolsUnchecked ++ kernelHeadersUnchecked ++
  glibcUnchecked h ++ coreToolsUnchecked ++ configureSystemUnchecked ++ networkingUnchecked h ++
  gnomeUnchecked h ++ bootConfigUnchecked ++ finalizeUnchecked ++ systemImageUnchecked ++
  bootableIsoUnchecked a h

end

/-! ## The stages -/

variable {h : Host}

theorem leaves_checkIso (hi : h.createIso = true) :
    Leaves a c (· = h.createIso) (· = isoEnabled a h)
      (.ite (.not (run a ["validate_environment", "command -v xorriso"]))
        (.ite (.not (run a ["validate_environment", "command -v genisoimage"]))
          (.assign fun s => { s with createIso := false }) .skip)
        .skip) [] [] := by
  intro s hs
  rw [wp_ite, wp_not, wp_run_guard]
  by_cases hx : a ["validate_environment", "command -v xorriso"] = 0
  · simp only [hx, ↓reduceIte, Nat.one_ne_zero, wp_skip]
    exact ⟨ok_nil, by simp [isoEnabled, hs, hi, hx], by simp⟩
  · simp only [hx, ↓reduceIte]
    rw [wp_ite, wp_not, wp_run_guard]
    by_cases hg : a ["validate_environment", "command -v genisoimage"] = 0
    · simp only [hg, ↓reduceIte, Nat.one_ne_zero, wp_skip]
      exact ⟨ok_nil, by simp [isoEnabled, hs, hi, hg], by simp⟩
    · simp only [hg, ↓reduceIte, wp_assign]
      exact ⟨ok_nil, by simp [isoEnabled, hx, hg], by simp [Clean]⟩

theorem returns_validateEnvironment : Returns a (· = h.createIso) (· = isoEnabled a h)
    (validateEnvironment a) (validateChecked a) [] := by
  have hskip (hi : h.createIso = false) :
      Leaves a inner (· = h.createIso) (· = isoEnabled a h) .skip [] [] := fun s hs =>
    ⟨ok_nil, by simp [isoEnabled, hs, hi], by simp⟩
  refine Returns.congr (Leaves.function <| .cons (.ite leaves_skip leaves_test) <|
    .cons (.forIn fun _ => leaves_test) <| .cons (.iteIso leaves_checkIso hskip) leaves_nil) ?_ ?_
  · simp [validateChecked]
  · simp

theorem returns_setupLfsEnvironment :
    Returns a I I (setupLfsEnvironment a) [] setupUnchecked :=
  Leaves.function <| .cons (leaves_run _) <| .cons (leaves_run _) <| .cons (leaves_run _) <|
    .cons (leaves_run _) <| .cons (leaves_run _) <| .cons (leaves_run _) <| .cons (leaves_run _) <|
    .cons (leaves_run _) <| .cons (leaves_run _) leaves_nil

theorem returns_downloadPackages :
    Returns a I I (downloadPackages a h) (downloadChecked a h) (downloadUnchecked a) := by
  refine Returns.congr (Leaves.function <| .cons (leaves_run _) <|
    .cons (.forIn fun _ => .iteNot (returns_wgetDownload _).check leaves_skip) leaves_nil) ?_ ?_
  · simp [downloadChecked]
  · simp [downloadUnchecked]

theorem returns_buildCrossTools :
    Returns a I I (buildCrossTools a h) crossToolsChecked crossToolsUnchecked :=
  Leaves.function <| .cons (leaves_run _) <| .cons (leaves_run _) <| .cons (leaves_run _) <|
    .cons (leaves_run _) <| .cons (leaves_run _) <| .cons (leaves_orReturn _) <|
    .cons (returns_makeBuild _).orReturn <| .cons (leaves_orReturn _) <| .cons (leaves_run _) <|
    .cons (leaves_run _) <| .cons (leaves_run _) <| .cons (leaves_run _) <|
    .cons (leaves_orTrue _) <| .cons (leaves_orTrue _) <| .cons (leaves_orTrue _) <|
    .cons (leaves_orTrue _) <| .cons (leaves_orTrue _) <| .cons (leaves_orTrue _) <|
    .cons (leaves_run _) <| .cons (leaves_run _) <| .cons (leaves_orReturn _) <|
    .cons (returns_makeBuild _).orReturn <| .cons (leaves_orReturn _) <| .cons (leaves_run _) <|
    .cons (leaves_run _) leaves_nil

theorem returns_buildKernelHeaders :
    Returns a I I (buildKernelHeaders a h) (kernelHeadersChecked h) kernelHeadersUnchecked := by
  refine Returns.congr (Leaves.function <| .cons (leaves_run _) <| .cons (leaves_run _) <|
    .cons (leaves_run _) <| .cons (leaves_orReturn _) <| .cons (returns_runVerbose _).orReturn <|
    .cons (leaves_run _) <| .cons (leaves_orReturn _) <| .cons (leaves_run _) <|
    .cons (leaves_run _) leaves_nil) ?_ ?_
  · simp [kernelHeadersChecked]
  · simp [kernelHeadersUnchecked]

theorem leaves_configparms (machine : String) :
    Leaves a inner I I (configparms a machine) [] (configparmsUnchecked machine) := by
  unfold configparms configparmsUnchecked
  split_ifs
  · exact leaves_run _
  · exact leaves_run _
  · exact leaves_skip

theorem returns_buildGlibc : Returns a I I (buildGlibc a h) glibcChecked (glibcUnchecked h) := by
  -- The handler of configure shows the end of its log, and returns 1.
  have hconfigure : Leaves a inner I I (.orElse (run a ["build_glibc", "../configure"])
      (.block [
        .ite (run a ["build_glibc", "-f config.log"]) (run a ["build_glibc", "tail -50 config.log"])
          .skip,
        .ret 1])) [["build_glibc", "../configure"]] [] := by
    intro s hs
    rw [wp_orElse, wp_run_guard]
    by_cases hx : a ["build_glibc", "../configure"] = 0
    · simp only [hx, ↓reduceIte]
      exact ⟨ok_singleton.2 hx, hs, by simp⟩
    · have hret s : wp (.ret 1) inner (after a inner I [["build_glibc", "../configure"]] [] s) s :=
        ⟨rfl, fun h => hx (ok_singleton.1 h)⟩
      simp only [hx, ↓reduceIte, wp_block_cons, wp_block_singleton]
      rw [wp_ite, wp_run_guard]
      dsimp only
      split
      · rw [run, record, wp_cmd, Post.finish_of_ignored rfl]
        exact hret s
      · exact hret s
  refine Returns.congr (Leaves.function <| .cons (leaves_run _) <| .cons leaves_test <|
    .cons leaves_test <| .cons (leaves_run _) <| .cons (leaves_orReturn _) <|
    .cons (leaves_run _) <| .cons (leaves_run _) <| .cons (leaves_run _) <|
    .cons (leaves_configparms _) <| .cons (leaves_run _) <| .cons hconfigure <|
    .cons (returns_makeBuild _).check <|
    .cons leaves_test <| .cons (leaves_orTrue _) <| .cons (leaves_run _) <|
    .cons (leaves_run _) leaves_nil) ?_ ?_
  · simp [glibcChecked]
  · simp [glibcUnchecked]

theorem returns_buildCoreTools :
    Returns a I I (buildCoreTools a h) coreToolsChecked coreToolsUnchecked := by
  refine Returns.congr (Leaves.function <| .cons (leaves_run _) <|
    .cons (.forIn fun _ => .cons (leaves_orReturn _) <| .cons (leaves_run _) <|
      .cons (leaves_orReturn _) <| .cons (returns_makeBuild _).orReturn <|
      .cons (leaves_orReturn _) <| .cons (leaves_run _) <| .cons (leaves_run _) leaves_nil)
    leaves_nil) ?_ ?_
  · simp [coreToolsChecked]
  · simp [coreToolsUnchecked]

theorem returns_configureSystem :
    Returns a I I (configureSystem a) [] configureSystemUnchecked :=
  Leaves.function <| .cons (leaves_run _) <| .cons (leaves_run _) <| .cons (leaves_run _) <|
    .cons (leaves_run _) <| .cons (leaves_run _) leaves_nil

theorem returns_installNetworking :
    Returns a I I (installNetworking a h) [] (networkingUnchecked h) := by
  refine Returns.congr (Leaves.function <| .cons (.setting (.cons (leaves_run _) <|
    .cons (leaves_run _) <| .cons (leaves_run _) leaves_nil) leaves_skip) leaves_nil) ?_ ?_
  · simp
  · simp [networkingUnchecked]

theorem returns_installGnome : Returns a I I (installGnome a h) [] (gnomeUnchecked h) := by
  refine Returns.congr (Leaves.function <| .cons (.setting (.cons (leaves_run _) <|
    .cons (leaves_run _) <| .cons (leaves_run _) leaves_nil) leaves_skip) leaves_nil) ?_ ?_
  · simp
  · simp [gnomeUnchecked]

theorem returns_createBootConfig : Returns a I I (createBootConfig a) [] bootConfigUnchecked :=
  Leaves.function <| .cons (leaves_run _) <| .cons (leaves_run _) <| .cons (leaves_run _) <|
    .cons (leaves_run _) leaves_nil

theorem returns_finalizeSystem : Returns a I I (finalizeSystem a) [] finalizeUnchecked :=
  Leaves.function <| .cons (leaves_run _) <| .cons (leaves_run _) <| .cons (leaves_run _) <|
    .cons (leaves_run _) leaves_nil

theorem returns_createSystemImage :
    Returns a I I (createSystemImage a) [] systemImageUnchecked :=
  Leaves.function <| .cons (leaves_run _) <| .cons (leaves_run _) leaves_nil

theorem returns_createIsoImage :
    Returns a I I (createIsoImage a) (isoImageChecked a) (isoImageUnchecked a) := by
  refine Returns.congr (Leaves.function <| .cons leaves_test <|
    .cons (.iteNot (.cons (leaves_run _) <| .cons (leaves_run _) leaves_nil) leaves_skip) <|
    .cons (.ite (.cons (leaves_run _) <| .cons (leaves_orReturn _) leaves_nil) leaves_skip) <|
    .cons (leaves_run _) <|
    .cons (.ite (leaves_orReturn _) (.iteRet (.cons (leaves_orReturn _) <|
      .cons (.ite (leaves_orTrue _) leaves_skip) leaves_nil))) <|
    .cons (.iteRet leaves_skip) leaves_nil) ?_ ?_
  · simp [isoImageChecked]
  · simp [isoImageUnchecked]

theorem returns_createBootableIso : Returns a (· = isoEnabled a h) (fun _ => True)
    (createBootableIso a) [] (bootableIsoUnchecked a h) := by
  have hsource : Leaves a inner (· = isoEnabled a h) (fun _ => True) (.block [
      run a ["create_bootable_iso", "source $iso_creator"],
      if a ["create_bootable_iso", "source $iso_creator"] = 0 then
        called ["create_bootable_iso", "create_iso_image"] (createIsoImage a)
      else record ["create_bootable_iso", "create_iso_image"] 127]) []
      (["create_bootable_iso", "source $iso_creator"] ::
        isoImageChecked a ++ isoImageUnchecked a) := by
    split
    · refine Leaves.congr (.cons (leaves_run _) (.cons returns_createIsoImage.called leaves_nil))
        ?_ ?_
      · simp
      · simp
    · next hx =>
      have hmissing : Leaves a inner (· = isoEnabled a h) (fun _ => True)
          (record ["create_bootable_iso", "create_iso_image"] 127) []
          (["create_bootable_iso", "source $iso_creator"] ::
            isoImageChecked a ++ isoImageUnchecked a) := by
        intro s _
        rw [record, wp_cmd, Post.finish_of_ignored rfl]
        refine ⟨ok_nil, trivial, ?_⟩
        exact clean_record.trans (and_congr_right' (by simp [Ok, hx]))
      refine Leaves.congr (.cons (leaves_run _) (.cons hmissing leaves_nil)) ?_ ?_
      · simp
      · simp [Ok]
  have hskip : Leaves a inner (· = isoEnabled a h) (fun _ => True) .skip [] [] := fun s _ =>
    ⟨ok_nil, trivial, by simp⟩
  refine Returns.congr (Leaves.function <| .cons (.iteIso (fun _ => .ite hsource hskip)
    fun _ => hskip) leaves_nil) ?_ ?_
  · simp
  · simp only [bootableIsoUnchecked, List.append_nil, ite_and]

/-! ## The whole script -/

theorem leaves_say (x : Site) : Leaves a Ctx.top I I (say a x) [x] [] := by
  intro s hs
  rw [say, wp_cmd]
  by_cases h : a x = 0
  · rw [h, Post.finish_zero]
    exact ⟨ok_singleton.2 h, hs, by simp⟩
  · obtain ⟨n, hn⟩ := Nat.exists_eq_succ_of_ne_zero h
    rw [hn, Post.finish_succ rfl]
    exact ⟨rfl, Nat.succ_ne_zero n, fun hx => h (ok_singleton.1 hx)⟩

theorem leaves_sayAll (messages : List String) :
    Leaves a Ctx.top I I (sayAll a messages) (messages.map fun m => ["main", m]) [] := by
  refine Leaves.congr (Leaves.forIn fun _ => leaves_say _) ?_ ?_
  · simp
  · simp

/-- A stage that fails ends the script. -/
theorem Returns.stage (h : Returns a I I' p C U) (messages : List String) :
    Leaves a Ctx.top I I' (stage a p messages) C U := by
  intro s hs
  rw [LfsBuildFixed.stage, wp_ite, wp_not]
  refine wp_mono (h Ctx.top.guard.guard s rfl hs) (fun n s' h => ?_) (fun _ => id)
    (fun _ _ => False.elim) (fun _ _ => False.elim) fun _ => id
  rcases h with ⟨rfl, h⟩ | ⟨hn, hc⟩
  · exact h
  · simp only [hn, ↓reduceIte, wp_block_cons, wp_block_singleton]
    refine wp_mono (leaves_sayAll (I := fun _ => True) messages s' trivial) (fun _ _ _ => ⟨rfl, hc⟩)
      (fun _ => id) (fun _ _ h => ⟨h.1, hc⟩) (fun _ _ h => ⟨h.1, h.2.1, hc⟩) fun _ => id

theorem main_runs : wp (main a h) Ctx.top
    { next := fun n s => n = 0 ∧ Ok a (mainChecked a h) ∧ (Clean s ↔ Ok a (mainUnchecked a h))
      exit := fun n _ => n ≠ 0 ∧ ¬Ok a (mainChecked a h) }
    { createIso := h.createIso } := by
  rw [main, function, wp_call, wp_seq]
  refine wp_mono (Q := after a Ctx.top (fun _ => True) (mainChecked a h) (mainUnchecked a h) _)
    (Leaves.congr (.cons (leaves_sayAll _) <|
    .cons (returns_validateEnvironment.stage _) <| .cons (returns_setupLfsEnvironment.stage _) <|
    .cons (returns_downloadPackages.stage _) <| .cons (returns_buildCrossTools.stage _) <|
    .cons (returns_buildKernelHeaders.stage _) <| .cons (leaves_sayAll _) <|
    .cons (returns_buildGlibc.stage _) <| .cons (returns_buildCoreTools.stage _) <|
    .cons (returns_configureSystem.stage _) <| .cons (returns_installNetworking.stage _) <|
    .cons (returns_installGnome.stage _) <| .cons (returns_createBootConfig.stage _) <|
    .cons (returns_finalizeSystem.stage _) <| .cons (returns_createSystemImage.stage _) <|
    .cons (returns_createBootableIso.stage _) <| .cons (leaves_sayAll _) <|
    .cons (.ite (leaves_say _) leaves_skip) <| .cons (leaves_sayAll _) <|
    .cons (.ite (leaves_sayAll _) (leaves_sayAll _)) <| .cons (leaves_say _) leaves_nil)
    ?_ ?_ _ rfl) ?_ ?_ ?_ ?_ ?_
  · simp [mainChecked, endChecked]
  · simp [mainUnchecked]
  · rintro n s ⟨hc, _, hu⟩
    simp only [wp_ret, Post.finish_zero]
    exact ⟨trivial, hc, by simpa [Clean] using hu⟩
  · exact fun _ => False.elim
  · rintro n s ⟨hn, hc⟩
    obtain rfl : n = 0 + 1 := hn
    dsimp only
    rw [Post.finish_succ rfl]
    exact ⟨Nat.succ_ne_zero 0, hc⟩
  · exact fun n s h => h.2
  · exact fun _ => False.elim

/-- The script reports a finished build and every stage command that nothing guards
    has succeeded, just if a checked command fails or no unchecked one does. -/
theorem main_complete_iff (a : Site → ℕ) (h : Host) :
    (∀ s, main a h Ctx.top { createIso := h.createIso } = (.next 0, s) → ∀ r ∈ s.log, r.2 = 0) ↔
      (∃ x ∈ mainChecked a h, a x ≠ 0) ∨ ∀ x ∈ mainUnchecked a h, a x = 0 := by
  have hrun := main_runs (a := a) (h := h)
  rw [wp] at hrun
  have hfail : (∃ x ∈ mainChecked a h, a x ≠ 0) ↔ ¬Ok a (mainChecked a h) := by simp [Ok]
  rw [hfail]
  rcases heq : main a h Ctx.top { createIso := h.createIso } with ⟨n | _ | _ | n | _, s⟩ <;>
    rw [heq] at hrun
  · obtain ⟨rfl, hc, hu⟩ := hrun
    constructor
    · exact fun hall => .inr (hu.1 (hall s rfl))
    · rintro (hn | hok) s' hs'
      · exact absurd hc hn
      · cases hs'
        exact hu.2 hok
  · exact hrun.elim
  · exact hrun.elim
  · exact ⟨fun _ => .inl hrun.2, fun _ _ h => by cases h⟩
  · exact hrun.elim

/-- A script that cannot write the passwd file. -/
def noPasswd (x : Site) : ℕ := if x = ["configure_system", "cat > $LFS/etc/passwd"] then 1 else 0

/-- It reports a finished build. -/
theorem main_notComplete :
    let r := main noPasswd ⟨false, true, false, true, "x86_64"⟩ Ctx.top { createIso := true }
    r.1 = .next 0 ∧ (["configure_system", "cat > $LFS/etc/passwd"], 1) ∈ r.2.log := by
  decide +kernel

end LfsBuilder.LfsBuildFixed
