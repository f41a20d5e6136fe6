import LfsBuilder.Library.Arithmetic
import LfsBuilder.Library.Traps
import LfsBuilder.Scripts.ValidationSuite

/-!
# The validation suite

The checks of `generated/validation_suite.sh` and its `main`, which counts those
that fail. Every check is called on the left of `||`, where errexit is ignored,
but the shell can end in one of them: at a name without a value, and at an
expression that is none.

* `checks_…`: what each check decides;
* `wp_main`: `main` succeeds exactly if all of them do (`Valid`).
-/

namespace LfsBuilder.Validators

open Shell ValidationSuite

/-- The machine and the environment, as far as the scripts look at them. -/
structure Host where
  /-- `uname -s` -/
  os : String
  /-- `uname -m` -/
  arch : String
  lfsWorkspace : Option String
  home : Option String
  ci : Option String
  buildProfile : Option String
  parallelJobs : Option String
  nproc : String
  /-- What is cut from the output of df for the workspace, and from that of free. -/
  availableSpace : String
  availableMemory : String
  /-- The first line that a tool prints of its version. -/
  version : String → String
  gccMajor : String
  /-- Whether a directory can be made in the workspace. -/
  canCreate : Bool
  isRoot : Bool
  /-- Whether curl gets the head of a page. -/
  reaches : String → Bool
  /-- The value of a text that is not a numeral. -/
  expression : String → Arith
  /-- What `command -v` finds. -/
  onPath : String → Bool
  onPath_empty : onPath "" = false
  /-- Whether a command succeeds with the argument `--version`. -/
  versionOk : String → Bool
  /-- The files that can be read, and the directories that are there or can be made. -/
  readable : String → Bool
  makesDir : String → Bool
  logDir : Option String
  packagesDir : Option String
  buildDir : Option String

/-- `${name:-default}`, for a name with the value `v`. -/
def orDefault (v : Option String) (default : String) : String :=
  (v.filter (· ≠ "")).getD default

namespace Host

variable (h : Host)

/-- `[[ "${CI:-false}" == "true" ]]` -/
def inCi : Bool := orDefault h.ci "false" = "true"

/-- `${LFS_WORKSPACE:-$HOME/lfs-workspace}`, which has no value without either name. -/
def workspace : Option String :=
  (h.lfsWorkspace.filter (· ≠ "")).or (h.home.map (· ++ "/lfs-workspace"))

/-- `[[ text -lt n ]]` -/
def less (text : String) (n : ℤ) : Option Bool :=
  (Arith.eval h.expression text).compare (fun a b => a < b) (.value n)

/-- `$(( available_space / 1024 / 1024 ))` -/
def gigabytes : Option ℤ :=
  (Arith.eval h.expression h.availableSpace).number?.map fun n => (n.tdiv 1024).tdiv 1024

/-- `${PARALLEL_JOBS:-$(nproc)}` -/
def jobs : String := orDefault h.parallelJobs h.nproc

end Host

/-- Which file has last defined `check_binary_exists`: `package_management.sh`, or the suite. -/
inductive Helpers
  | common
  | suite
  deriving DecidableEq

/-- The variables of the scripts, whether the traps are set, and what is defined. -/
structure State extends ValidationSuite.State where
  errors : ℕ := 0
  failed : ℕ := 0
  traps : Bool := false
  helpers : Option Helpers := none

/-- The state with one more message. -/
def State.tell (s : State) (level : Level) (line : String) : State :=
  { s with toState := s.say level line }

/-- `log_info`, `log_success`, `log_warning`, `log_error`, which print the same messages
    after they are defined again. -/
def logLine (level : Level) (line : String) : Sh State := .assign (·.tell level line)

/-- A function of the suite on its own variables. -/
def inSuite (p : Sh ValidationSuite.State) : Sh State :=
  .zoom State.toState (fun s t => { s with toState := t }) p

/-- A program that needs the workspace: without one, the shell ends. -/
def withWorkspace (h : Host) (p : String → Sh State) : Sh State := h.workspace.elim (.exit 1) p

/-- A message with the available space, in gigabytes. If that is no number, the rest of the file
    is abandoned, which is a failure of the command that sources it, and ends the shell. -/
def logSpace (h : Host) (level : Level) (line : ℤ → String) : Sh State :=
  .expand h.gigabytes fun n s => s.tell level (line n)

/-- The check of the disk space in `check_system_requirements` -/
def checkSpace (h : Host) (workspace : String) : Sh State :=
  .ite (.test fun _ => h.inCi)
    (logLine .warning "CI mode detected - skipping disk space check")
    (.ite (.compare (h.less h.availableSpace 52428800))
      (.block [
        logLine .error ("Insufficient disk space in " ++ workspace),
        logSpace h .error fun n => "Need at least 50GB, have " ++ toString n ++ "GB",
        .ret 1])
      (logSpace h .success fun n =>
        "Sufficient disk space available (" ++ toString n ++ "GB)"))

/-- The check of the memory in `check_system_requirements` -/
def checkMemory (h : Host) : Sh State :=
  .ite (.compare (h.less h.availableMemory 2048))
    (.block [
      logLine .error
        ("Insufficient memory. Need at least 2GB, have " ++ h.availableMemory ++ "MB"),
      .ret 1])
    (.ite (.compare (h.less h.availableMemory 4096))
      (logLine .warning
        ("Low memory (" ++ h.availableMemory ++ "MB). Build may be slow. 4GB+ recommended"))
      (logLine .success ("Sufficient memory available (" ++ h.availableMemory ++ "MB)")))

/-- `check_system_requirements` -/
def checkSystemRequirements (h : Host) : Sh State :=
  .call <| .block [
    logLine .info "Checking system requirements...",
    .ite (.test fun _ => h.os != "Linux")
      (.block [logLine .error "This script requires Linux", .ret 1]) .skip,
    .ite (.test fun _ => h.arch != "x86_64" && h.arch != "aarch64")
      (logLine .warning ("Architecture " ++ h.arch ++ " may not be fully supported")) .skip,
    withWorkspace h (checkSpace h),
    checkMemory h,
    .ret 0]

/-- A tool whose version `check_compiler_versions` prints, and the rest of its block. -/
def logVersion (h : Host) (tool name : String) (rest : Sh State) : Sh State :=
  .ite (.test fun _ => h.onPath tool)
    (.block [logLine .info (name ++ ": " ++ h.version tool), rest]) .skip

/-- `check_compiler_versions` -/
def checkCompilerVersions (h : Host) : Sh State :=
  .call <| .block [
    logLine .info "Checking compiler versions...",
    logVersion h "gcc" "GCC" (.ite (.compare (h.less h.gccMajor 4))
      (logLine .warning "GCC version is quite old. May cause issues.") .skip),
    logVersion h "g++" "G++" .skip,
    logVersion h "make" "Make" .skip,
    .ret 0]

/-- `check_permissions` -/
def checkPermissions (h : Host) : Sh State :=
  .call <| .block [
    logLine .info "Checking file system permissions...",
    withWorkspace h fun workspace =>
      .ite (.test fun _ => h.canCreate)
        (logLine .success "Can create directories in workspace")
        (.block [logLine .error ("Cannot create directories in " ++ workspace), .ret 1]),
    .ite (.test fun _ => h.inCi)
      (logLine .warning "CI mode detected - skipping root user check")
      (.ite (.test fun _ => h.isRoot)
        (.block [
          logLine .error "Running as root. This is not recommended for LFS builds", .ret 1])
        (logLine .success "Not running as root (good)")),
    .ret 0]

/-- The table of `check_network`. -/
def testUrls : List String :=
  ["https://ftp.gnu.org/gnu/", "https://cdn.kernel.org/", "https://github.com/"]

/-- The body of the loop of `check_network`. -/
def checkUrl (h : Host) (url : String) : Sh State :=
  .ite (.test fun _ => h.reaches url)
    (logLine .success ("Can reach " ++ url))
    (.block [
      logLine .error ("Cannot reach " ++ url),
      .assign fun s => { s with failed := s.failed + 1 }])

/-- `check_network` -/
def checkNetwork (h : Host) : Sh State :=
  .call <| .block [
    logLine .info "Checking network connectivity...",
    .assign fun s => { s with failed := 0 },
    .forIn testUrls (checkUrl h),
    .ite (.test fun s => s.failed > 0)
      (.block [
        .read fun s => logLine .warning
          (toString s.failed ++ " package sources unreachable. Build may fail."),
        .ret 1])
      (.block [logLine .success "All package sources reachable", .ret 0])]

/-- The profiles that `check_environment` knows. -/
def profiles : List String := ["desktop_gnome", "minimal", "server", "developer"]

/-- `[[ "$jobs" =~ ^[0-9]+$ ]]` -/
def isNumber (jobs : String) : Bool := jobs ≠ "" && jobs.toList.all Char.isDigit

/-- `check_environment` -/
def checkEnvironment (h : Host) : Sh State :=
  .call <| .block [
    logLine .info "Checking environment configuration...",
    withWorkspace h fun workspace => logLine .info ("LFS_WORKSPACE: " ++ workspace),
    logLine .info ("BUILD_PROFILE: " ++ orDefault h.buildProfile "desktop_gnome"),
    logLine .info ("PARALLEL_JOBS: " ++ h.jobs),
    .ite (.test fun _ => orDefault h.buildProfile "desktop_gnome" ∈ profiles)
      (logLine .success
        ("Valid build profile: " ++ orDefault h.buildProfile "desktop_gnome"))
      (logLine .warning
        ("Unknown build profile: " ++ orDefault h.buildProfile "desktop_gnome")),
    .ite (.test fun _ => isNumber h.jobs)
      (logLine .success ("Valid parallel jobs setting: " ++ h.jobs))
      (.block [logLine .error ("Invalid parallel jobs setting: " ++ h.jobs), .ret 1]),
    .ret 0]

/-- The table of `check_optional_components`. -/
def optionalTools : List String := [
  "ccache:Compiler cache (speeds up builds)", "distcc:Distributed compilation",
  "ninja:Fast build system", "python3:Python interpreter"]

/-- `check_optional_components` -/
def checkOptionalComponents (h : Host) : Sh State :=
  .call <| .block [
    logLine .info "Checking optional components...",
    .forIn optionalTools fun toolInfo =>
      .ite (.test fun _ => h.onPath (toolOf toolInfo))
        (logLine .success (toolOf toolInfo ++ " available (" ++ descOf toolInfo ++ ")"))
        (logLine .info (toolOf toolInfo ++ " not available (" ++ descOf toolInfo ++ ")")),
    .ret 0]

/-- A check of `main`: its failure counts. -/
def count (check : Sh State) : Sh State :=
  .orElse check (.assign fun s => { s with errors := s.errors + 1 })

/-- The body of `main`, without its empty lines. -/
def suiteMain (h : Host) : Sh State := .block [
  logLine .info "Starting Auto-LFS-Builder validation suite...",
  .assign fun s => { s with errors := 0 },
  count (checkSystemRequirements h),
  count (inSuite (checkBuildTools h.onPath)),
  count (checkCompilerVersions h),
  count (checkPermissions h),
  count (checkNetwork h),
  count (checkEnvironment h),
  count (checkOptionalComponents h),
  .ite (.test fun s => s.errors = 0)
    (.block [
      logLine .success "All validation checks passed!",
      logLine .info "Your system is ready for LFS building",
      .ret 0])
    (.block [
      .read fun s => logLine .error
        ("Validation failed with " ++ toString s.errors ++ " error(s)"),
      logLine .error "Please fix the issues above before building",
      .ret 1])]

/-! ## What the checks decide -/

/-- What the checks leave as it is. -/
def keep (s : State) : ℕ × Option Helpers := (s.errors, s.helpers)

variable {h : Host}

/-- There is space enough, or nobody asks. -/
def Host.HasSpace (h : Host) : Prop :=
  h.inCi = true ∨ ∃ n, Arith.eval h.expression h.availableSpace = .value n ∧ 52428800 ≤ n

/-- The conditions of the suite. -/
structure Valid (h : Host) : Prop where
  linux : h.os = "Linux"
  workspace : h.workspace ≠ none
  space : h.HasSpace
  memory : h.less h.availableMemory 2048 = some false
  tools : ∀ toolInfo ∈ buildTools, h.onPath (toolOf toolInfo) = true
  compiler : h.onPath "gcc" = true → h.less h.gccMajor 4 ≠ none
  creates : h.canCreate = true
  user : h.inCi = true ∨ h.isRoot = false
  network : ∀ url ∈ testUrls, h.reaches url = true
  jobs : isNumber h.jobs = true

theorem demands_logLine {level : Level} {line : String} :
    Demands keep (logLine level line) True := .assign fun _ => rfl

theorem demands_withWorkspace {p : String → Sh State} {P : Prop}
    (hp : ∀ workspace, Demands keep (p workspace) P) :
    Demands keep (withWorkspace h p) (h.workspace ≠ none ∧ P) := by
  rw [withWorkspace]
  cases h.workspace with
  | none => exact Demands.exit.congr (by simp)
  | some workspace => exact (hp workspace).congr (by simp)

theorem demands_checkSpace (workspace : String) :
    Demands keep (checkSpace h workspace) h.HasSpace := by
  have hlog (level : Level) (line : ℤ → String) :
      Demands keep (logSpace h level line) (h.gigabytes ≠ none) := .expand fun _ _ => rfl
  refine (Demands.ite demands_logLine (.ite_compare
    (.cons demands_logLine (.cons (hlog _ _) .ret)) (hlog _ _))).congr ?_
  rw [Host.HasSpace, Host.less, Host.gigabytes]
  cases h.inCi with
  | true => simp
  | false =>
    cases Arith.eval h.expression h.availableSpace with
    | unset => simp [Arith.compare]
    | error => simp [Arith.compare, Arith.number?]
    | value n => simp [Arith.compare, Arith.number?]

theorem demands_checkMemory :
    Demands keep (checkMemory h) (h.less h.availableMemory 2048 = some false) := by
  refine (Demands.ite_compare (.cons demands_logLine .ret)
    (.ite_compare demands_logLine demands_logLine)).congr ?_
  rw [Host.less, Host.less]
  cases Arith.eval h.expression h.availableMemory with
  | unset => simp [Arith.compare]
  | error => simp [Arith.compare]
  | value n => simp [Arith.compare]

theorem checks_systemRequirements : Checks keep (checkSystemRequirements h)
    (h.os = "Linux" ∧ h.workspace ≠ none ∧ h.HasSpace ∧
      h.less h.availableMemory 2048 = some false) := by
  refine (Answers.call <| .cons demands_logLine <|
    .cons (.ite (.cons demands_logLine .ret) .skip) <| .cons (.ite demands_logLine .skip) <|
    .cons (demands_withWorkspace demands_checkSpace) <| .cons demands_checkMemory .ret).congr ?_
  simp [and_assoc]

theorem checks_buildTools : Checks keep (inSuite (checkBuildTools h.onPath))
    (∀ toolInfo ∈ buildTools, h.onPath (toolOf toolInfo) = true) := by
  intro c Q s hc hok hbad
  have hmissing : (s.toState.counted h.onPath buildTools).missing = _ :=
    counted_missing buildTools s.toState
  rw [inSuite, wp_zoom, checkBuildTools, wp_checkBuildToolsOf]
  dsimp only
  rw [Post.finish_of_ignored hc, hmissing]
  by_cases htools : ∀ toolInfo ∈ buildTools, h.onPath (toolOf toolInfo) = true
  · rw [List.countP_eq_zero.2 (by simpa using htools)]
    exact hok htools _ rfl
  · rw [if_pos (List.countP_pos_iff.2 (by simpa using htools))]
    refine (hbad htools _ ?_).1
    rfl

theorem demands_logVersion {tool name : String} {rest : Sh State} {P : Prop}
    (hrest : Demands keep rest P) :
    Demands keep (logVersion h tool name rest) (h.onPath tool = true → P) := by
  have hblock : Demands keep (.block [logLine .info (name ++ ": " ++ h.version tool), rest])
      (True ∧ P) := .cons demands_logLine hrest
  refine (Demands.ite hblock .skip).congr ?_
  split <;> simp_all

theorem checks_compilerVersions : Checks keep (checkCompilerVersions h)
    (h.onPath "gcc" = true → h.less h.gccMajor 4 ≠ none) := by
  refine (Answers.call <| .cons demands_logLine <|
    .cons (demands_logVersion (.ite_compare demands_logLine .skip)) <|
    .cons (demands_logVersion .skip) <| .cons (demands_logVersion .skip) .ret).congr ?_
  cases h.less h.gccMajor 4 <;> simp

theorem checks_permissions : Checks keep (checkPermissions h)
    (h.workspace ≠ none ∧ h.canCreate = true ∧ (h.inCi = true ∨ h.isRoot = false)) := by
  refine (Answers.call <| .cons demands_logLine <|
    .cons (demands_withWorkspace fun _ => .ite demands_logLine (.cons demands_logLine .ret)) <|
    .cons (.ite demands_logLine (.ite (.cons demands_logLine .ret) demands_logLine)) .ret).congr ?_
  cases h.inCi <;> cases h.isRoot <;> simp

theorem checks_environment : Checks keep (checkEnvironment h)
    (h.workspace ≠ none ∧ isNumber h.jobs = true) := by
  refine (Answers.call <| .cons demands_logLine <|
    .cons (demands_withWorkspace fun _ => demands_logLine) <| .cons demands_logLine <|
    .cons demands_logLine <| .cons (.ite demands_logLine demands_logLine) <|
    .cons (.ite demands_logLine (.cons demands_logLine .ret)) .ret).congr ?_
  simp

theorem checks_optionalComponents : Checks keep (checkOptionalComponents h) True := by
  refine (Answers.call <| .cons demands_logLine <| .cons (.forIn fun toolInfo =>
    (Demands.ite demands_logLine demands_logLine).congr ?_) .ret).congr ?_
  · simp
  · simp

/-- What a round of the loop of `check_network` does. -/
def State.tried (h : Host) (s : State) (url : String) : State :=
  if h.reaches url then s.tell .success ("Can reach " ++ url)
  else { s.tell .error ("Cannot reach " ++ url) with failed := s.failed + 1 }

theorem wp_checkUrl {c : Ctx} {Q : Post State} {s : State} {url : String} :
    wp (checkUrl h url) c Q s ↔ Q.next 0 (s.tried h url) := by
  simp only [checkUrl, logLine, wp_ite_test, wp_block_cons, wp_block_singleton, wp_assign,
    State.tried]
  split <;> rfl

theorem failed_foldl_tried (urls : List String) (s : State) :
    (urls.foldl (State.tried h) s).failed = s.failed + urls.countP fun url => !h.reaches url := by
  refine foldl_count (g := State.failed) (fun s url => ?_) urls s
  rw [State.tried]
  cases h.reaches url <;> rfl

theorem keep_foldl_tried (urls : List String) (s : State) :
    keep (urls.foldl (State.tried h) s) = keep s := by
  induction urls generalizing s with
  | nil => rfl
  | cons url urls ih =>
    rw [List.foldl_cons, ih, State.tried]
    split <;> rfl

theorem checks_network :
    Checks keep (checkNetwork h) (∀ url ∈ testUrls, h.reaches url = true) := by
  intro c Q s hc hok hbad
  have hfailed := failed_foldl_tried (h := h) testUrls
    { s.tell .info "Checking network connectivity..." with failed := 0 }
  have hkeep := keep_foldl_tried (h := h) testUrls
    { s.tell .info "Checking network connectivity..." with failed := 0 }
  simp only [checkNetwork, logLine, wp_call, wp_block_cons, wp_block_singleton, wp_assign,
    wp_forIn_foldl fun _ _ _ => wp_checkUrl, wp_ite_test, wp_read, wp_ret,
    Post.finish_of_ignored hc, decide_eq_true_eq, hfailed]
  by_cases hurls : ∀ url ∈ testUrls, h.reaches url = true
  · rw [List.countP_eq_zero.2 (by simpa using hurls)]
    exact hok hurls _ hkeep
  · have hpos : 0 < testUrls.countP fun url => !h.reaches url :=
      List.countP_pos_iff.2 (by simpa using hurls)
    rw [if_pos (by omega)]
    refine (hbad hurls _ ?_).1
    exact hkeep

/-! ## The suite -/

/-- The checks so far have not failed exactly if `A` holds. -/
structure Tally (helpers : Option Helpers) (A : Prop) (s : State) : Prop where
  helpers_eq : s.helpers = helpers
  errors_iff : s.errors = 0 ↔ A

/-- A check that fails is counted, or ends the shell. -/
theorem wp_count_block {check q : Sh State} {ps : List (Sh State)} {P A : Prop} {c : Ctx}
    {Q : Post State} {s : State} {helpers : Option Helpers} (hcheck : Checks keep check P)
    (hs : Tally helpers A s)
    (hnext : ∀ s', Tally helpers (A ∧ P) s' → wp (.block (q :: ps)) c Q s')
    (hexit : ¬P → ∀ s', Q.exit 1 s') : wp (.block (count check :: q :: ps)) c Q s := by
  rw [wp_block_cons, count, wp_orElse]
  refine hcheck c.guard _ s rfl (fun hP s' hs' => ?_) fun hP s' hs' => ⟨?_, hexit hP s'⟩
  · obtain ⟨herrors, hhelpers⟩ := Prod.mk.inj hs'
    refine hnext s' ⟨hhelpers.trans hs.helpers_eq, ?_⟩
    rw [herrors, hs.errors_iff, and_iff_left hP]
  · obtain ⟨herrors, hhelpers⟩ := Prod.mk.inj hs'
    refine hnext _ ⟨hhelpers.trans hs.helpers_eq, ?_⟩
    exact iff_of_false (Nat.succ_ne_zero _) fun h => hP h.2

/-- The suite succeeds on a valid host, and on another one it fails or ends the shell. -/
theorem wp_suiteMain {c : Ctx} {Q : Post State} {s : State}
    (hok : Valid h → ∀ s', s'.helpers = s.helpers → Q.ret 0 s')
    (hbad : ¬Valid h → ∀ s', Q.ret 1 s' ∧ Q.exit 1 s') : wp (suiteMain h) c Q s := by
  have hexit {P : Prop} (hP : Valid h → P) (hn : ¬P) (s' : State) : Q.exit 1 s' :=
    (hbad (fun hv => hn (hP hv)) s').2
  rw [suiteMain]
  refine wp_block_cons.2 (wp_assign.2 (wp_block_cons.2 (wp_assign.2 ?_)))
  refine wp_count_block checks_systemRequirements (A := True) ⟨rfl, iff_of_true rfl trivial⟩
    (fun s₁ hs₁ => ?_) (hexit fun hv => ⟨hv.linux, hv.workspace, hv.space, hv.memory⟩)
  refine wp_count_block checks_buildTools hs₁ (fun s₂ hs₂ => ?_) (hexit fun hv => hv.tools)
  refine wp_count_block checks_compilerVersions hs₂ (fun s₃ hs₃ => ?_)
    (hexit fun hv => hv.compiler)
  refine wp_count_block checks_permissions hs₃ (fun s₄ hs₄ => ?_)
    (hexit fun hv => ⟨hv.workspace, hv.creates, hv.user⟩)
  refine wp_count_block checks_network hs₄ (fun s₅ hs₅ => ?_) (hexit fun hv => hv.network)
  refine wp_count_block checks_environment hs₅ (fun s₆ hs₆ => ?_)
    (hexit fun hv => ⟨hv.workspace, hv.jobs⟩)
  refine wp_count_block checks_optionalComponents hs₆ (fun s₇ hs₇ => ?_)
    (hexit fun _ => trivial)
  have hvalid : s₇.errors = 0 ↔ Valid h := by
    refine hs₇.errors_iff.trans ⟨?_, fun hv => ?_⟩
    · rintro ⟨⟨⟨⟨⟨⟨⟨_, hlinux, hworkspace, hspace, hmemory⟩, htools⟩, hcompiler⟩, _, hcreates,
        huser⟩, hnetwork⟩, _, hjobs⟩, _⟩
      exact ⟨hlinux, hworkspace, hspace, hmemory, htools, hcompiler, hcreates, huser, hnetwork,
        hjobs⟩
    · exact ⟨⟨⟨⟨⟨⟨⟨trivial, hv.linux, hv.workspace, hv.space, hv.memory⟩, hv.tools⟩, hv.compiler⟩,
        hv.workspace, hv.creates, hv.user⟩, hv.network⟩, hv.workspace, hv.jobs⟩, trivial⟩
  simp only [logLine, wp_block_singleton, wp_ite_test, wp_block_cons, wp_assign, wp_read, wp_ret,
    decide_eq_true_eq]
  split
  · next hzero => exact hok (hvalid.1 hzero) _ hs₇.helpers_eq
  · next hzero => exact (hbad (mt hvalid.2 hzero) _).1

end LfsBuilder.Validators
