import LfsBuilder.Scripts.ValidationMain

/-!
# The validators

`dependency_checker.sh` and `package_tester.sh` of `src/validators/`, with the
files that they source: `logging.sh`, `error_handling.sh`, which sets the traps,
`package_management.sh`, and the validation suite, which defines some of the same
functions again, and runs its own `main` at its end.

* `requires_prelude`: sourcing the files succeeds exactly on a `Ready` host;
* `exitStatus_dependencyChecker_iff`, `exitStatus_packageTester_iff`: the verdicts;
* `verdicts_iff`: when they are those about the tools, and the packages;
* `independent_iff`: when nothing else of the host could change them.
-/

namespace LfsBuilder.Validators

open Shell ValidationSuite

/-- `handle_error` -/
def handleError (msg : String) : Sh State := .call (.block [logLine .error msg, .exit 1])

/-- What becomes of a failure with the status `n` on a line: the trap for errors, if it is set. -/
def onError (line n : ℕ) : Sh State := .read fun s =>
  if s.traps then handleError ("An error occurred on line " ++ toString line) else .exit n

/-- `on_exit`, if the traps are set. -/
def onExit (n : ℕ) (s : State) : State :=
  if s.traps then
    if n = 0 then s.tell .success "Script completed successfully"
    else s.tell .error ("Script aborted with status " ++ toString n)
  else s

/-- A run of a script under `set -e`: its status, and what it leaves. -/
def run (script : Sh State) : Option ℕ × State :=
  let r := script Ctx.top {}
  (r.1.status?, r.1.status?.elim r.2 (onExit · r.2))

/-- The status of a run. -/
def exitStatus (script : Sh State) : Option ℕ := (run script).1

/-- `mkdir -p`, on a line -/
def mkdirs (h : Host) (line : ℕ) (dirs : List String) : Sh State :=
  .cmdTrap (onError line) fun s => (if dirs.all h.makesDir then 0 else 1, s)

/-- `source path`: the commands of the file. Without it the shell exits, and no trap for
    errors runs. -/
def sourceFile (h : Host) (path : String) (commands : Sh State) : Sh State :=
  if h.readable path then commands else .exit 1

/-- `logging.sh` -/
def logging (h : Host) : Sh State := mkdirs h 8 [orDefault h.logDir "logs"]

/-- `error_handling.sh` -/
def errorHandling : Sh State := .assign fun s => { s with traps := true }

/-- `package_management.sh` -/
def packageManagement (h : Host) : Sh State := .block [
  mkdirs h 9 [orDefault h.packagesDir "packages", orDefault h.buildDir "build"],
  .assign fun s => { s with helpers := some .common }]

/-- `validation_suite.sh` -/
def validationSuite (h : Host) : Sh State := .block [
  .assign fun s => { s with helpers := some .suite },
  .callTrap (onError 337) (suiteMain h)]

/-- The first lines of the validators. -/
def prelude (h : Host) : Sh State := .block [
  sourceFile h "src/common/logging.sh" (logging h),
  sourceFile h "src/common/error_handling.sh" errorHandling,
  sourceFile h "src/common/package_management.sh" (packageManagement h),
  sourceFile h "generated/validation_suite.sh" (validationSuite h)]

/-- `check_binary_exists`, as it is defined last. -/
def checkBinary (h : Host) (bin msg : String) : Sh State := .read fun s =>
  match s.helpers with
  | none => .cmd fun _ s => (127, s)
  | some .common => .call (.orElse (.test fun _ => h.onPath bin) (handleError msg))
  | some .suite => inSuite (checkBinaryExists h.onPath bin msg "")

/-! ## The dependency checker -/

/-- The table of `check_dependencies`. -/
def deps : List String := ["wget", "tar", "gcc", "make"]

/-- `check_dependencies` -/
def checkDependencies (h : Host) : Sh State :=
  .call <| .forIn deps fun bin => .orElse (checkBinary h bin (bin ++ " not found")) (.ret 1)

/-- The body of `main` of `dependency_checker.sh`. -/
def checkerMain (h : Host) : Sh State := .block [
  logLine .info "Checking build dependencies",
  checkDependencies h,
  logLine .success "Dependency check complete"]

/-- `dependency_checker.sh` -/
def dependencyChecker (h : Host) : Sh State :=
  .block [prelude h, .callTrap (onError 26) (checkerMain h)]

/-! ## The package tester -/

/-- `test_package` -/
def testPackage (h : Host) (pkg : String) : Sh State :=
  .call <| .block [
    .ite (.test fun _ => pkg = "") (.block [logLine .error "No package specified", .ret 1]) .skip,
    .orElse (checkBinary h pkg (pkg ++ " not installed")) (.ret 1),
    .orElse (.test fun _ => h.versionOk pkg)
      (.block [logLine .error (pkg ++ " failed to run"), .ret 1])]

/-- The body of `main` of `package_tester.sh`, with the arguments `args`. -/
def testerMain (h : Host) (args : List String) : Sh State := .block [
  .ite (.test fun _ => args.length = 0) (handleError "No package specified") .skip,
  logLine .info "Testing packages",
  .forIn args (testPackage h),
  logLine .success "Package testing complete"]

/-- `package_tester.sh`, with the arguments `args`. -/
def packageTester (h : Host) (args : List String) : Sh State :=
  .block [prelude h, .callTrap (onError 38) (testerMain h args)]

/-! ## What comes before `main` -/

variable {h : Host} {args : List String}

/-- The four tools are on the path. -/
def Tools (h : Host) : Prop := ∀ bin ∈ deps, h.onPath bin = true

/-- There are packages, all on the path, and their `--version` runs succeed. -/
def Packages (h : Host) (args : List String) : Prop :=
  args ≠ [] ∧ ∀ pkg ∈ args, h.onPath pkg = true ∧ h.versionOk pkg = true

instance : Decidable (Tools h) :=
  inferInstanceAs (Decidable (∀ bin ∈ deps, h.onPath bin = true))

/-- The conditions under which the sourced files leave a validator to go on. -/
structure Ready (h : Host) : Prop where
  logging : h.readable "src/common/logging.sh" = true
  errorHandling : h.readable "src/common/error_handling.sh" = true
  packageManagement : h.readable "src/common/package_management.sh" = true
  validationSuite : h.readable "generated/validation_suite.sh" = true
  logDir : h.makesDir (orDefault h.logDir "logs") = true
  packagesDir : h.makesDir (orDefault h.packagesDir "packages") = true
  buildDir : h.makesDir (orDefault h.buildDir "build") = true
  valid : Valid h

@[simp] theorem wp_handleError {msg : String} {c : Ctx} {Q : Post State} {s : State} :
    wp (handleError msg) c Q s ↔ Q.exit 1 (s.tell .error msg) := Iff.rfl

theorem wp_onError {line n : ℕ} {c : Ctx} {Q : Post State} {s : State} (hn : n ≠ 0)
    (hexit : ∀ n s', n ≠ 0 → Q.exit n s') : wp (onError line n) c Q s := by
  rw [onError, wp_read]
  split
  · exact hexit 1 _ one_ne_zero
  · exact hexit n s hn

/-- Commands of a script that go on if `P` holds, in a state with `R`, and otherwise exit with
    a failure. -/
def Requires (p : Sh State) (P : Prop) (R : State → Prop) : Prop :=
  ∀ (Q : Post State) (s : State), (P → ∀ s', R s' → Q.next 0 s') →
    (¬P → ∀ n s', n ≠ 0 → Q.exit n s') → wp p Ctx.top Q s

namespace Requires

variable {p q : Sh State} {ps : List (Sh State)} {P P' : Prop} {R R' : State → Prop}

theorem congr (hp : Requires p P R) (hPP' : P ↔ P') : Requires p P' R := propext hPP' ▸ hp

theorem cons (hp : Requires p P R) (hps : Requires (.block (q :: ps)) P' R') :
    Requires (.block (p :: q :: ps)) (P ∧ P') R' := by
  intro Q s hok hbad
  refine wp_block_cons.2 (hp _ s (fun hP s' _ => ?_) fun hP => hbad fun h => hP h.1)
  exact hps Q s' (fun hP' => hok ⟨hP, hP'⟩) fun hP' => hbad fun h => hP' h.2

theorem assign {f : State → State} (hf : ∀ s, R (f s)) : Requires (.assign f) True R :=
  fun _ s hok _ => wp_assign.2 (hok trivial _ (hf s))

theorem mkdirs {line : ℕ} {dirs : List String} : Requires (mkdirs h line dirs)
    (∀ dir ∈ dirs, h.makesDir dir = true) fun _ => True := by
  intro Q s hok hbad
  rw [Validators.mkdirs, wp_cmdTrap]
  by_cases hdirs : ∀ dir ∈ dirs, h.makesDir dir = true
  · rw [if_pos (List.all_eq_true.2 hdirs)]
    exact Post.finishTrap_zero.2 (hok hdirs s trivial)
  · rw [if_neg (mt List.all_eq_true.1 hdirs)]
    exact (Post.finishTrap_succ rfl).2 (wp_onError one_ne_zero (hbad hdirs))

theorem source {path : String} (hp : Requires p P R) :
    Requires (sourceFile h path p) (h.readable path = true ∧ P) R := by
  intro Q s hok hbad
  rw [sourceFile]
  split
  · next hpath => exact hp Q s (fun hP => hok ⟨hpath, hP⟩) fun hP => hbad fun h => hP h.2
  · next hpath => exact wp_exit.2 (hbad (fun h => hpath h.1) 1 s one_ne_zero)

/-- The suite leaves its own functions defined. -/
theorem suite : Requires (validationSuite h) (Valid h) fun s => s.helpers = some .suite := by
  intro Q s hok hbad
  rw [validationSuite]
  refine wp_block_cons.2 (wp_assign.2 (wp_block_singleton.2 (wp_callTrap.2 ?_)))
  refine wp_suiteMain (fun hv s' hs' => ?_) fun hv s' => ⟨?_, hbad hv 1 s' one_ne_zero⟩
  · change Q.finishTrap (onError 337) Ctx.top 0 s'
    exact Post.finishTrap_zero.2 (hok hv s' hs')
  · change Q.finishTrap (onError 337) Ctx.top 1 s'
    exact (Post.finishTrap_succ rfl).2 (wp_onError one_ne_zero (hbad hv))

end Requires

/-- The validators go on after the sourced files exactly on a ready host. -/
theorem requires_prelude : Requires (prelude h) (Ready h) fun s => s.helpers = some .suite := by
  have hpackages : Requires (packageManagement h) _ fun _ => True :=
    .cons .mkdirs (.assign fun _ => trivial)
  have hsuite : Requires
      (.block [sourceFile h "generated/validation_suite.sh" (validationSuite h)]) _ _ :=
    .source .suite
  refine (Requires.cons (.source (p := logging h) .mkdirs) <| .cons
    (.source (p := errorHandling) (.assign (R := fun _ => True) fun _ => trivial)) <|
    .cons (.source hpackages) hsuite).congr ?_
  simp only [List.forall_mem_cons, List.not_mem_nil, false_imp_iff, imp_true_iff, and_true]
  constructor
  · rintro ⟨⟨hlogging, hlogDir⟩, herror, ⟨hpackage, hpackages, hbuild⟩, hsuite, hvalid⟩
    exact ⟨hlogging, herror, hpackage, hsuite, hlogDir, hpackages, hbuild, hvalid⟩
  · intro hr
    exact ⟨⟨hr.logging, hr.logDir⟩, hr.errorHandling,
      ⟨hr.packageManagement, hr.packagesDir, hr.buildDir⟩, hr.validationSuite, hr.valid⟩

/-- A script that sources the files and calls a function that requires `P`. -/
theorem exitStatus_eq_zero_iff {body : Sh State} {line : ℕ} {P : Prop}
    (hbody : ∀ s, s.helpers = some .suite → ∀ Q : Post State, (P → ∀ s', Q.next 0 s') →
      (¬P → ∀ s', Q.ret 1 s' ∧ Q.exit 1 s') → wp body Ctx.top Q s) :
    exitStatus (.block [prelude h, .callTrap (onError line) body]) = some 0 ↔ Ready h ∧ P := by
  by_cases hr : Ready h
  · by_cases hP : P
    · refine iff_of_true (status?_of_success ?_) ⟨hr, hP⟩
      refine wp_block_cons.2 (requires_prelude _ _ (fun _ s hs => ?_) (absurd hr))
      refine wp_callTrap.2 (hbody s hs _ (fun _ s' => ?_) (absurd hP))
      change Post.success.finishTrap (onError line) Ctx.top 0 s'
      exact Post.finishTrap_zero.2 rfl
    · refine iff_of_false (status?_of_failure ?_) fun h => hP h.2
      refine wp_block_cons.2 (requires_prelude _ _ (fun _ s hs => ?_) (absurd hr))
      refine wp_callTrap.2 (hbody s hs _ (fun h => absurd h hP) fun _ s' => ⟨?_, one_ne_zero⟩)
      change Post.failure.finishTrap (onError line) Ctx.top 1 s'
      exact (Post.finishTrap_succ rfl).2 (wp_onError one_ne_zero fun _ _ hn => hn)
  · refine iff_of_false (status?_of_failure ?_) fun h => hr h.1
    exact wp_block_cons.2 (requires_prelude _ _ (fun h => absurd h hr) fun _ _ _ hn => hn)

/-! ## The verdicts -/

/-- Once the suite is sourced, its `check_binary_exists` is the one that is called, which fails
    where the other one would exit the shell. -/
theorem wp_checkBinary {bin msg : String} {c : Ctx} {Q : Post State} {s : State}
    (hs : s.helpers = some .suite)
    (hok : h.onPath bin = true → ∀ s', s'.helpers = some .suite → Q.next 0 s')
    (hbad : ¬h.onPath bin = true → ∀ s', Q.next 1 s') : wp (checkBinary h bin msg) c.guard Q s := by
  have hbins : bins "" = [] := rfl
  rw [checkBinary, wp_read, hs]
  dsimp only
  rw [inSuite, wp_zoom, wp_checkBinaryExists, hbins]
  split
  · next hpath => exact hok hpath _ hs
  · next hpath => exact Post.finish_guard.2 (hbad hpath _)

theorem wp_checkDependencies {Q : Post State} {s : State} (hs : s.helpers = some .suite)
    (hok : Tools h → ∀ s', Q.next 0 s') (hbad : ¬Tools h → ∀ s', Q.exit 1 s') :
    wp (checkDependencies h) Ctx.top Q s := by
  refine wp_call.2 (wp_forIn_of_all (t := fun bin => h.onPath bin = true)
    (I := fun s => s.helpers = some .suite) hs (fun bin Q s hs hok hbad => ?_)
    (fun htools s' _ => ?_) fun htools s' => ⟨?_, hbad htools s'⟩)
  · rw [wp_orElse]
    exact wp_checkBinary hs hok fun hpath s' => (hbad hpath s').1
  · change Q.finish Ctx.top 0 s'
    exact Post.finish_zero.2 (hok htools s')
  · change Q.finish Ctx.top 1 s'
    exact (Post.finish_succ rfl).2 (hbad htools s')

/-- The checker passes exactly on a ready host with the four tools. -/
theorem exitStatus_dependencyChecker_iff :
    exitStatus (dependencyChecker h) = some 0 ↔ Ready h ∧ Tools h := by
  refine exitStatus_eq_zero_iff fun s hs Q hok hbad => ?_
  rw [checkerMain]
  refine wp_block_cons.2 (wp_assign.2 (wp_block_cons.2 (wp_checkDependencies hs ?_ ?_)))
  · exact fun htools s' => hok htools _
  · exact fun htools s' => (hbad htools s').2

theorem wp_testPackage {pkg : String} {Q : Post State} {s : State} (hs : s.helpers = some .suite)
    (hok : h.onPath pkg = true ∧ h.versionOk pkg = true → ∀ s', s'.helpers = some .suite →
      Q.next 0 s')
    (hbad : ¬(h.onPath pkg = true ∧ h.versionOk pkg = true) → ∀ s', Q.exit 1 s') :
    wp (testPackage h pkg) Ctx.top Q s := by
  have hfail (hn : ¬(h.onPath pkg = true ∧ h.versionOk pkg = true)) (s' : State) :
      Q.finish Ctx.top 1 s' := (Post.finish_succ rfl).2 (hbad hn s')
  rw [testPackage, wp_call]
  refine wp_block_cons.2 (wp_ite_test.2 ?_)
  split
  · next hempty =>
    refine wp_block_cons.2 (wp_assign.2 (hfail (fun hpkg => ?_) _))
    rw [of_decide_eq_true hempty, h.onPath_empty] at hpkg
    exact absurd hpkg.1 Bool.false_ne_true
  · refine wp_skip.2 (wp_block_cons.2 (wp_orElse.2 (wp_checkBinary hs (fun hpath s' hs' => ?_) ?_)))
    · refine wp_block_singleton.2 (wp_orElse.2 (wp_test_guard.2 ?_))
      split
      · next hversion =>
        change Q.finish Ctx.top 0 s'
        exact Post.finish_zero.2 (hok ⟨hpath, hversion⟩ s' hs')
      · next hversion =>
        dsimp only
        rw [if_neg one_ne_zero]
        refine wp_block_cons.2 (wp_assign.2 ?_)
        exact hfail (fun h => hversion h.2) _
    · exact fun hpath s' => hfail (fun h => hpath h.1) s'

/-- The tester passes exactly on a ready host with the packages. -/
theorem exitStatus_packageTester_iff :
    exitStatus (packageTester h args) = some 0 ↔ Ready h ∧ Packages h args := by
  refine exitStatus_eq_zero_iff fun s hs Q hok hbad => ?_
  rw [testerMain]
  refine wp_block_cons.2 (wp_ite_test.2 ?_)
  split
  · next hempty =>
    have hargs : args = [] := List.length_eq_zero_iff.1 (of_decide_eq_true hempty)
    exact wp_handleError.2 (hbad (fun h => h.1 hargs) _).2
  · next hargs =>
    have hne : args ≠ [] := fun h => hargs (by rw [h]; rfl)
    refine wp_skip.2 (wp_block_cons.2 (wp_assign.2 (wp_block_cons.2 ?_)))
    refine wp_forIn_of_all (t := fun pkg => h.onPath pkg = true ∧ h.versionOk pkg = true)
      (I := fun s => s.helpers = some .suite) hs (fun pkg Q s hs hok hbad => ?_)
      (fun hall s' _ => ?_) fun hall => hbad fun h => hall h.2
    · exact wp_testPackage hs hok fun hpkg s' => (hbad hpkg s').2
    · exact hok ⟨hne, hall⟩ _

/-- The verdicts say what they are about. -/
def Verdicts (h : Host) (args : List String) : Prop :=
  (exitStatus (dependencyChecker h) = some 0 ↔ Tools h) ∧
    (exitStatus (packageTester h args) = some 0 ↔ Packages h args)

/-- The hosts do not differ in the tools, nor in the packages. -/
def Agree (h h' : Host) (args : List String) : Prop :=
  (∀ bin ∈ deps, h'.onPath bin = h.onPath bin) ∧
    ∀ pkg ∈ args, h'.onPath pkg = h.onPath pkg ∧ h'.versionOk pkg = h.versionOk pkg

/-- The verdicts do not depend on anything else of the host. -/
def Independent (h : Host) (args : List String) : Prop :=
  ∀ h', Agree h h' args →
    (exitStatus (dependencyChecker h') = some 0 ↔ exitStatus (dependencyChecker h) = some 0) ∧
    (exitStatus (packageTester h' args) = some 0 ↔ exitStatus (packageTester h args) = some 0)

/-- The verdicts are right on a ready host, and where both are to be failures. -/
theorem verdicts_iff : Verdicts h args ↔ Ready h ∨ ¬Tools h ∧ ¬Packages h args := by
  rw [Verdicts, exitStatus_dependencyChecker_iff, exitStatus_packageTester_iff]
  tauto

/-- The tools of the suite are on the path of a ready host. -/
theorem Ready.onPath (hr : Ready h) {toolInfo : String} (ht : toolInfo ∈ buildTools) :
    h.onPath (toolOf toolInfo) = true := hr.valid.tools toolInfo ht

/-- The host with all that the suite looks for. -/
def Host.furnished (h : Host) : Host :=
  { h with
    os := "Linux"
    lfsWorkspace := some "lfs"
    ci := some "true"
    parallelJobs := some "1"
    availableMemory := Nat.repr 4096
    gccMajor := Nat.repr 13
    canCreate := true
    reaches := fun _ => true
    onPath := fun name => h.onPath name || (buildTools.map toolOf).contains name
    onPath_empty := by
      rw [h.onPath_empty]
      decide +kernel
    readable := fun _ => true
    makesDir := fun _ => true }

theorem Host.less_repr (h : Host) {m : ℕ} (hm : m < 2 ^ 63) (n : ℤ) :
    h.less m.repr n = some (decide ((m : ℤ) < n)) := by
  rw [less, Arith.eval_repr _ hm]
  rfl

theorem Host.inCi_furnished (h : Host) : h.furnished.inCi = true := by
  change decide (orDefault (some "true") "false" = "true") = true
  decide

theorem ready_furnished (h : Host) : Ready h.furnished where
  logging := rfl
  errorHandling := rfl
  packageManagement := rfl
  validationSuite := rfl
  logDir := rfl
  packagesDir := rfl
  buildDir := rfl
  valid := {
    linux := rfl
    workspace := by simp [Host.workspace, Host.furnished]
    space := .inl h.inCi_furnished
    memory := h.furnished.less_repr (by decide) 2048
    tools := fun toolInfo ht => by
      have hmem : (buildTools.map toolOf).contains (toolOf toolInfo) = true := by
        simpa using ⟨toolInfo, ht, rfl⟩
      change (h.onPath (toolOf toolInfo) || _) = true
      rw [hmem, Bool.or_true]
    compiler := fun _ => by
      rw [show h.furnished.gccMajor = Nat.repr 13 from rfl, h.furnished.less_repr (by decide)]
      exact Option.some_ne_none _
    creates := rfl
    user := .inl h.inCi_furnished
    network := fun _ _ => rfl
    jobs := by
      change isNumber "1" = true
      decide }

/-- The dependencies are tools that the suite looks for. -/
theorem exists_tool_of_mem_deps : ∀ bin ∈ deps, ∃ toolInfo ∈ buildTools, toolOf toolInfo = bin := by
  decide +kernel

/-- The verdicts depend on nothing else just where they cannot be successes, since a tool that
    the suite looks for is among the dependencies or the packages, and missing. -/
theorem independent_iff : Independent h args ↔ ∃ toolInfo ∈ buildTools,
    (toolOf toolInfo ∈ deps ∨ toolOf toolInfo ∈ args) ∧ h.onPath (toolOf toolInfo) = false := by
  constructor
  · intro hind
    by_contra hnone
    push Not at hnone
    have hsame {name : String} (hmem : name ∈ deps ∨ name ∈ args) :
        h.furnished.onPath name = h.onPath name := by
      change (h.onPath name || (buildTools.map toolOf).contains name) = h.onPath name
      cases htool : (buildTools.map toolOf).contains name with
      | false => rw [Bool.or_false]
      | true =>
        obtain ⟨toolInfo, ht, rfl⟩ := List.mem_map.1 (List.contains_iff_mem.1 htool)
        rw [Bool.or_true, eq_true_of_ne_false (hnone toolInfo ht hmem)]
    -- With all that the suite looks for, the checker passes; on another system, it does not.
    have htools : Tools h.furnished := fun bin hbin => by
      obtain ⟨toolInfo, ht, rfl⟩ := exists_tool_of_mem_deps bin hbin
      exact (ready_furnished h).onPath ht
    have hpass := exitStatus_dependencyChecker_iff.2 ⟨ready_furnished h, htools⟩
    have hagree : Agree h h.furnished args :=
      ⟨fun bin hbin => hsame (.inl hbin), fun pkg hpkg => ⟨hsame (.inr hpkg), rfl⟩⟩
    have hother := (hind { h with os := "" } ⟨fun _ _ => rfl, fun _ _ => ⟨rfl, rfl⟩⟩).1.2
      ((hind h.furnished hagree).1.1 hpass)
    have hlinux : "" = "Linux" := (exitStatus_dependencyChecker_iff.1 hother).1.valid.linux
    exact absurd hlinux (by decide)
  · rintro ⟨toolInfo, ht, hmem, hmissing⟩ h' ⟨hdeps, hargs⟩
    have hnot : ¬Ready h := fun hr => by
      rw [hr.onPath ht] at hmissing
      cases hmissing
    have hnot' : ¬Ready h' := fun hr => by
      have hsame : h'.onPath (toolOf toolInfo) = h.onPath (toolOf toolInfo) :=
        hmem.elim (hdeps _) fun hpkg => (hargs _ hpkg).1
      rw [hr.onPath ht, hmissing] at hsame
      cases hsame
    simp only [exitStatus_dependencyChecker_iff, exitStatus_packageTester_iff, hnot, hnot',
      false_and, and_self]

/-- The verdicts are right, and about nothing else, exactly where both scripts are to fail. They
    are right on a ready host too, but there other properties of the host could change them. -/
theorem validators_iff :
    (Verdicts h args ∧ Independent h args ↔ ¬Tools h ∧ ¬Packages h args) ∧
    (Verdicts h args ↔ Ready h ∨ ¬Tools h ∧ ¬Packages h args) ∧
    (Independent h args ↔ ∃ toolInfo ∈ buildTools,
      (toolOf toolInfo ∈ deps ∨ toolOf toolInfo ∈ args) ∧
        h.onPath (toolOf toolInfo) = false) := by
  refine ⟨?_, verdicts_iff, independent_iff⟩
  rw [verdicts_iff, independent_iff]
  constructor
  · rintro ⟨hr | hfail, toolInfo, ht, _, hmissing⟩
    · rw [hr.onPath ht] at hmissing
      cases hmissing
    · exact hfail
  · intro hfail
    obtain ⟨bin, hbin, hmissing⟩ : ∃ bin ∈ deps, h.onPath bin ≠ true := by
      by_contra hall
      push Not at hall
      exact hfail.1 hall
    obtain ⟨toolInfo, ht, rfl⟩ := exists_tool_of_mem_deps bin hbin
    exact ⟨.inr hfail, toolInfo, ht, .inl hbin, eq_false_of_ne_true hmissing⟩

/-- A machine with everything, where the documentation system has no command of its name. -/
def workstation : Host where
  os := "Linux"
  arch := "x86_64"
  lfsWorkspace := none
  home := some "/home/lfs"
  ci := none
  buildProfile := none
  parallelJobs := none
  nproc := "8"
  availableSpace := "104857600"
  availableMemory := "16000"
  version := fun tool => tool
  gccMajor := "13"
  canCreate := true
  isRoot := false
  reaches := fun _ => true
  expression := fun _ => .unset
  onPath := fun name => name ≠ "" && name ≠ "texinfo"
  onPath_empty := rfl
  versionOk := fun _ => true
  readable := fun _ => true
  makesDir := fun _ => true
  logDir := none
  packagesDir := none
  buildDir := none

theorem workstation_verdicts : ¬Verdicts workstation ["make"] := by
  intro hv
  have hready := (exitStatus_dependencyChecker_iff.1 (hv.1.2 (by decide +kernel))).1
  have htexinfo : workstation.onPath (toolOf "texinfo:Documentation system") = true :=
    hready.onPath (by decide +kernel)
  exact absurd htexinfo (by decide +kernel)

end LfsBuilder.Validators
