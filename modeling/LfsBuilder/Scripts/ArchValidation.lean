import LfsBuilder.Library.Arithmetic

/-!
# The validation of an Arch host

`run_validation` of `scripts/arch-validation.sh` and the twelve functions that it
calls, on a host given by the outcomes of the probes. What the functions print is
left out, save for the line with which each of them begins.

* `Audits`: what such a function does under errexit: it goes on or is stopped,
  and it has a verdict, kept in `VALIDATION_PASSED`;
* `runValidation_completes_iff`: the validation is completed exactly on the hosts
  where nothing but the verdict can fail, and nothing is to be warned about.
-/

namespace LfsBuilder.ArchValidation

open Shell

/-- The outcomes of the probes: what the commands print, which of them succeed, and the
    variables of the configuration, empty where it does not set them. -/
structure Host where
  isFile : String → Bool
  isLink : String → Bool
  isBlock : String → Bool
  /-- `command -v` -/
  hasCommand : String → Bool
  /-- `pacman -Qi` -/
  installed : String → Bool
  /-- What stat prints for the package database, if it is there. -/
  lastSync : Option String
  currentTime : String
  /-- `uname -r` -/
  release : String
  kernelVersion : String
  /-- Whether zcat, and cat, of a kernel configuration have a feature. -/
  zcatHas : String → String → Bool
  catHas : String → String → Bool
  glibcVersion : String
  hasPthread : Bool
  gccVersion : String
  hasCxx : Bool
  hasLto : Bool
  pythonVersion : String
  availableSpace : String
  availableMemory : String
  cpuCores : String
  hasMultilib : Bool
  rotational : String
  online : Bool
  repositoryFound : Bool
  minKernelVersion : String
  minGlibcVersion : String
  minGccVersion : String
  minDiskSpaceGb : String
  recommendedRamMb : String
  requiredPackagesArch : List String
  optionalPackagesArch : List String
  /-- The value of a text that is not a numeral. -/
  expression : String → Arith
  /-- The names that a pattern stands for. -/
  expandPattern : String → List String

/-- The variables of the script, and the first lines of its functions that it has printed. -/
structure State where
  validationPassed : Bool := true
  validationWarnings : ℕ := 0
  announced : List String := []
  daysSinceSync : ℤ := 0
  kernelConfig : String := ""
  requiredSpaceKb : ℤ := 0
  missingPackages : List String := []
  missingOptional : List String := []
  foundHelper : String := ""

/-- `log_info`, with the first line of a function. -/
def announce (line : String) : Sh State :=
  .assign fun s => { s with announced := s.announced ++ [line] }

/-- `VALIDATION_PASSED=false` -/
def reject : Sh State := .assign fun s => { s with validationPassed := false }

/-- `((VALIDATION_WARNINGS++))`: the status is that of the value before, a failure when it
    is zero. -/
def warn : Sh State :=
  .cmd fun _ s => (if s.validationWarnings = 0 then 1 else 0,
    { s with validationWarnings := s.validationWarnings + 1 })

/-- `${value:-default}` -/
def orDefault (value fallback : String) : String := if value = "" then fallback else value

/-- The words of an unquoted text, for `IFS='.'`. -/
def Host.fields (h : Host) (version : String) : List String :=
  let pieces := version.toList.splitOn '.'
  let pieces := if pieces.getLast? = some [] then pieces.dropLast else pieces
  pieces.flatMap fun piece =>
    if piece.any (· ∈ ['*', '?', '[', '\\']) then h.expandPattern (String.ofList piece)
    else [String.ofList piece]

/-- `${ver[i]:-0}`, as a number -/
def Host.field (h : Host) (ver : List String) (i : ℕ) : Arith :=
  Arith.eval h.expression (orDefault (ver.getD i "") "0")

/-- The body of the loop of `version_compare`. -/
def compareField (h : Host) (ver1 ver2 : List String) (i : ℕ) : Sh State :=
  .block [
    .ite (.compare ((h.field ver1 i).compare (fun a b => a > b) (h.field ver2 i))) (.ret 0) .skip,
    .ite (.compare ((h.field ver1 i).compare (fun a b => a < b) (h.field ver2 i))) (.ret 1) .skip]

/-- `version_compare` -/
def versionCompare (h : Host) (version1 version2 : String) : Sh State :=
  let ver1 := h.fields version1
  let ver2 := h.fields version2
  .call <| .block [
    .ite (.test fun _ => version1 == version2) (.ret 0) .skip,
    .forIn (List.range (max ver1.length ver2.length)) (compareField h ver1 ver2),
    .ret 0]

/-- `check_command` -/
def checkCommand (h : Host) (cmd : String) : Sh State :=
  .call <| .ite (.test fun _ => h.hasCommand cmd) (.ret 0) (.block [reject, .ret 1])

/-- `$(( (current_time - last_sync) / 86400 ))` -/
def Host.daysSinceSync (h : Host) : Option ℤ := do
  let current ← (Arith.eval h.expression h.currentTime).number?
  let last ← (Arith.eval h.expression (h.lastSync.getD "0")).number?
  return (Arith.wrap (current - last)).tdiv 86400

/-- `validate_arch_linux` -/
def validateArchLinux (h : Host) : Sh State :=
  .call <| .block [
    announce "Validating Arch Linux system...",
    .ite (.not (.test fun _ => h.isFile "/etc/arch-release")) (.block [reject, .ret 1]) .skip,
    -- Check if system is up to date
    .expand h.daysSinceSync fun n s => { s with daysSinceSync := n },
    .ite (.test fun s => s.daysSinceSync > 7) warn .skip,
    .ret 0]

/-- The features that `validate_kernel` checks for. -/
def requiredFeatures : List String :=
  ["CONFIG_CGROUPS", "CONFIG_NAMESPACES", "CONFIG_DEVPTS_MULTIPLE_INSTANCES", "CONFIG_FHANDLE"]

/-- The paths of the kernel configuration. -/
def Host.configPaths (h : Host) : List String :=
  ["/proc/config.gz", "/boot/config-" ++ h.release, "/usr/lib/modules/" ++ h.release ++ "/config"]

/-- A comparison with the minimum of the configuration, or that of the script. -/
def requireVersion (h : Host) (version minVersion : String) : Sh State :=
  .ite (versionCompare h version minVersion) .skip reject

/-- The body of the loop over the features. -/
def checkFeature (h : Host) (feature : String) : Sh State :=
  .ite (.orElse (.test fun s => h.zcatHas s.kernelConfig feature)
    (.test fun s => h.catHas s.kernelConfig feature)) .skip warn

/-- `validate_kernel` -/
def validateKernel (h : Host) : Sh State :=
  .call <| .block [
    announce "Validating kernel version...",
    requireVersion h h.kernelVersion (orDefault h.minKernelVersion "5.4"),
    -- Check for required kernel features
    .assign fun s => { s with kernelConfig := "" },
    .forIn h.configPaths fun path =>
      .ite (.test fun _ => h.isFile path)
        (.block [.assign fun s => { s with kernelConfig := path }, .brk]) .skip,
    .ite (.test fun s => s.kernelConfig != "") (.forIn requiredFeatures (checkFeature h)) warn]

/-- `validate_glibc` -/
def validateGlibc (h : Host) : Sh State :=
  .call <| .block [
    announce "Validating glibc version...",
    requireVersion h h.glibcVersion (orDefault h.minGlibcVersion "2.31"),
    -- Check for required glibc features
    .ite (.test fun _ => h.hasPthread) .skip reject]

/-- `validate_gcc` -/
def validateGcc (h : Host) : Sh State :=
  .call <| .block [
    announce "Validating GCC version...",
    .ite (.not (checkCommand h "gcc")) (.ret 1) .skip,
    requireVersion h h.gccVersion (orDefault h.minGccVersion "9.0"),
    -- Check for required GCC features
    .ite (.test fun _ => h.hasCxx) .skip warn,
    -- Check for LTO support
    .ite (.test fun _ => h.hasLto) .skip .skip]

/-- The tools of `validate_build_tools`, each with its package. -/
def requiredTools : List String := [
  "make:make", "ld:binutils", "as:binutils", "strip:binutils", "bison:bison", "flex:flex",
  "gawk:gawk", "m4:m4", "texinfo:texinfo", "patch:patch", "tar:tar", "gzip:gzip", "xz:xz",
  "sed:sed", "grep:grep", "find:findutils", "sort:coreutils", "uniq:coreutils", "head:coreutils",
  "tail:coreutils", "cut:coreutils", "tr:coreutils", "wc:coreutils"]

/-- `${tool_spec%%:*}` -/
def tool (toolSpec : String) : String := String.ofList (toolSpec.toList.takeWhile (· ≠ ':'))

/-- `validate_build_tools` -/
def validateBuildTools (h : Host) : Sh State :=
  .call <| .block [
    announce "Validating build tools...",
    .forIn requiredTools fun toolSpec => checkCommand h (tool toolSpec)]

/-- `validate_python` -/
def validatePython (h : Host) : Sh State :=
  .call <| .block [
    announce "Validating Python installation...",
    .ite (.not (checkCommand h "python")) (.ret 1) .skip,
    requireVersion h h.pythonVersion "3.6",
    -- Check for python3 symlink
    .ite (.orElse (.test fun _ => h.isLink "/usr/bin/python3")
      (.test fun _ => h.isFile "/usr/bin/python3")) .skip warn,
    -- Check for pip
    .ite (checkCommand h "pip") .skip .skip]

/-- `$(( ${MIN_DISK_SPACE_GB:-50} * 1024 * 1024 ))` -/
def Host.requiredSpaceKb (h : Host) : Option ℤ :=
  let gb := orDefault h.minDiskSpaceGb "50"
  (Arith.numeral? gb).elim (h.expression (gb ++ " * 1024 * 1024")).number?
    fun n => some (Arith.wrap (n * 1024 * 1024))

/-- `[[ "$available_space" -gt "$required_space_kb" ]]` -/
def Host.spaceAbove (h : Host) (kb : ℤ) : Option Bool :=
  (Arith.eval h.expression h.availableSpace).compare (fun a b => a > b) (.value kb)

/-- `[[ "$available_memory" -gt "$recommended_memory" ]]` -/
def Host.memoryAboveRecommended (h : Host) : Option Bool :=
  (Arith.eval h.expression h.availableMemory).compare (fun a b => a > b)
    (Arith.eval h.expression (orDefault h.recommendedRamMb "4096"))

/-- `[[ "$cpu_cores" -gt 1 ]]` -/
def Host.multiCore (h : Host) : Option Bool :=
  (Arith.eval h.expression h.cpuCores).compare (fun a b => a > b) (.value 1)

/-- `validate_system_resources` -/
def validateSystemResources (h : Host) : Sh State :=
  .call <| .block [
    announce "Validating system resources...",
    -- Check disk space
    .expand h.requiredSpaceKb fun n s => { s with requiredSpaceKb := n },
    .read fun s => .ite (.compare (h.spaceAbove s.requiredSpaceKb)) .skip reject,
    -- Check memory
    .ite (.compare h.memoryAboveRecommended) .skip warn,
    -- Check CPU cores
    .ite (.compare h.multiCore) .skip warn]

/-- `validate_arch_packages` -/
def validateArchPackages (h : Host) : Sh State :=
  .call <| .block [
    announce "Validating required Arch packages...",
    .assign fun s => { s with missingPackages := [] },
    -- Check required packages
    .forIn h.requiredPackagesArch fun package =>
      .ite (.not (.test fun _ => h.installed package))
        (.assign fun s => { s with missingPackages := s.missingPackages ++ [package] }) .skip,
    .ite (.test fun s => s.missingPackages.length > 0) reject .skip,
    -- Check optional packages
    .assign fun s => { s with missingOptional := [] },
    .forIn h.optionalPackagesArch fun package =>
      .ite (.not (.test fun _ => h.installed package))
        (.assign fun s => { s with missingOptional := s.missingOptional ++ [package] }) .skip,
    .ite (.test fun s => s.missingOptional.length > 0) .skip .skip]

/-- `validate_multilib` -/
def validateMultilib (h : Host) : Sh State :=
  .call <| .block [
    announce "Validating multilib configuration...",
    .ite (.test fun _ => h.hasMultilib)
      (.ite (.test fun _ => h.installed "lib32-glibc") .skip .skip) .skip]

/-- The helpers that `validate_aur_access` looks for. -/
def aurHelpers : List String := ["yay", "paru", "trizen", "yaourt"]

/-- `validate_aur_access` -/
def validateAurAccess (h : Host) : Sh State :=
  .call <| .block [
    announce "Validating AUR access...",
    .assign fun s => { s with foundHelper := "" },
    .forIn aurHelpers fun helper =>
      .ite (.test fun _ => h.hasCommand helper)
        (.block [.assign fun s => { s with foundHelper := helper }, .brk]) .skip,
    .ite (.test fun s => s.foundHelper != "") .skip .skip,
    -- Check for base-devel (required for building AUR packages)
    .ite (.test fun _ => h.installed "base-devel") .skip warn]

/-- `[[ $(cat /sys/block/sda/queue/rotational) -eq 0 ]]` -/
def Host.notRotational (h : Host) : Option Bool :=
  (Arith.eval h.expression h.rotational).compare (fun a b => a = b) (.value 0)

/-- `validate_performance_tools` -/
def validatePerformanceTools (h : Host) : Sh State :=
  .call <| .block [
    announce "Validating performance tools...",
    .ite (.test fun _ => h.hasCommand "ccache") .skip .skip,
    .ite (.test fun _ => h.hasCommand "distcc") .skip .skip,
    -- Check for SSD
    .ite (.test fun _ => h.isBlock "/dev/nvme0n1") .skip
      (.ite (.andThen (.test fun _ => h.isBlock "/dev/sda") (.compare h.notRotational))
        .skip .skip)]

/-- `validate_network` -/
def validateNetwork (h : Host) : Sh State :=
  .call <| .block [
    announce "Validating network connectivity...",
    -- Check internet connectivity
    .ite (.test fun _ => h.online) .skip reject,
    -- Check package repository access
    .ite (.test fun _ => h.repositoryFound) .skip warn]

/-- `run_validation` -/
def runValidation (h : Host) : Sh State :=
  .call <| .block [
    -- Run all validation checks
    validateArchLinux h, validateKernel h, validateGlibc h, validateGcc h, validateBuildTools h,
    validatePython h, validateSystemResources h, validateArchPackages h, validateMultilib h,
    validateAurAccess h, validatePerformanceTools h, validateNetwork h,
    announce "Validation complete",
    -- Summary
    .ite (.test fun s => s.validationPassed)
      (.block [.ite (.test fun s => s.validationWarnings > 0) .skip .skip, .ret 0])
      (.ret 1)]

variable {h : Host} {c : Ctx} {Q : Post State} {s : State}

/-! ## Conditions -/

/-- The condition `b` has the result `o`, and changes nothing; without a result, the shell
    exits. -/
def Decides (b : Sh State) (o : Option Bool) : Prop :=
  ∀ (c : Ctx) (Q : Post State) (s : State),
    wp b c.guard Q s ↔ o.elim (Q.exit 1 s) fun t => Q.next (if t then 0 else 1) s

theorem decides_test (t : Bool) : Decides (.test fun _ => t) (some t) := by
  intro c Q s
  rw [wp_test_guard]
  cases t <;> rfl

theorem decides_compare (o : Option Bool) : Decides (.compare o) o := by
  intro c Q s
  rw [wp_compare_guard]
  rcases o with _ | _ | _ <;> rfl

theorem Decides.orElse {b b' : Sh State} {t t' : Bool} (hb : Decides b (some t))
    (hb' : Decides b' (some t')) : Decides (.orElse b b') (some (t || t')) := by
  intro c Q s
  rw [wp_orElse, hb]
  cases t with
  | true => rfl
  | false => exact hb' c Q s

theorem Decides.andThen {b b' : Sh State} {t : Bool} {o : Option Bool} (hb : Decides b (some t))
    (hb' : Decides b' o) : Decides (.andThen b b') (if t then o else some false) := by
  intro c Q s
  rw [wp_andThen, hb]
  cases t with
  | true => exact hb' c Q s
  | false => rfl

/-- The result of the loop of `version_compare`, from the fields `is` on. -/
def Host.orderFrom (h : Host) (ver1 ver2 : List String) : List ℕ → Option Bool
  | [] => some true
  | i :: is => do
    let greater ← (h.field ver1 i).compare (fun a b => a > b) (h.field ver2 i)
    if greater then some true else
      let less ← (h.field ver1 i).compare (fun a b => a < b) (h.field ver2 i)
      if less then some false else h.orderFrom ver1 ver2 is

/-- Whether a version is at least another one; without a result, the shell exits. -/
def Host.atLeast (h : Host) (version1 version2 : String) : Option Bool :=
  if version1 = version2 then some true
  else h.orderFrom (h.fields version1) (h.fields version2)
    (List.range (max (h.fields version1).length (h.fields version2).length))

theorem wp_compareField {ver1 ver2 : List String} {i : ℕ} :
    wp (compareField h ver1 ver2 i) c Q s ↔
      ((h.field ver1 i).compare (fun a b => a > b) (h.field ver2 i)).elim (Q.exit 1 s)
        fun greater => if greater then Q.ret 0 s else
          ((h.field ver1 i).compare (fun a b => a < b) (h.field ver2 i)).elim (Q.exit 1 s)
            fun less => if less then Q.ret 1 s else Q.next 0 s := by
  simp only [compareField, wp_block_cons, wp_block_singleton, wp_ite_compare, wp_ret, wp_skip]

/-- The loop returns at the first field that differs. -/
theorem wp_compareFields {ver1 ver2 : List String} (is : List ℕ)
    (hend : Q.next 0 s ↔ Q.ret 0 s) : wp (.forIn is (compareField h ver1 ver2)) c Q s ↔
      (h.orderFrom ver1 ver2 is).elim (Q.exit 1 s) fun b => Q.ret (if b then 0 else 1) s := by
  rw [Sh.forIn]
  induction is with
  | nil => exact hend
  | cons i is ih =>
    rw [wp_forFrom_cons, wp_compareField, Host.orderFrom]
    rcases (h.field ver1 i).compare (fun a b => a > b) (h.field ver2 i) with _ | _ | _
    · rfl
    · rcases (h.field ver1 i).compare (fun a b => a < b) (h.field ver2 i) with _ | _ | _
      · rfl
      · exact ih
      · rfl
    · rfl

theorem wp_versionCompare {version1 version2 : String} :
    wp (versionCompare h version1 version2) c Q s ↔
      (h.atLeast version1 version2).elim (Q.exit 1 s) fun b =>
        Q.finish c (if b then 0 else 1) s := by
  simp only [versionCompare, wp_call, wp_block_cons, wp_block_singleton, wp_ite_test, wp_ret,
    wp_skip, Host.atLeast, beq_iff_eq]
  split
  · rfl
  · exact wp_compareFields _ Iff.rfl

theorem decides_versionCompare (h : Host) (version1 version2 : String) :
    Decides (versionCompare h version1 version2) (h.atLeast version1 version2) := by
  intro c Q s
  simp only [wp_versionCompare, Post.finish_guard]

/-! ## Audits -/

theorem wp_checkCommand {cmd : String} : wp (checkCommand h cmd) c Q s ↔
    if h.hasCommand cmd then Q.next 0 s
    else Q.finish c 1 { s with validationPassed := false } := by
  simp only [checkCommand, wp_call, wp_ite_test, wp_ret, wp_block_cons, wp_block_singleton, reject,
    wp_assign, Post.finish_zero]

/-- The first warning exits the shell. -/
theorem wp_warn_top (hw : s.validationWarnings = 0)
    (hexit : Q.exit 1 { s with validationWarnings := 1 }) : wp warn Ctx.top Q s := by
  rw [warn, wp_cmd, if_pos hw, hw, Post.finish_succ rfl]
  exact hexit

/-- The functions whose first lines are `lines` have been called, and have the verdict. -/
structure Advances (lines : List String) (passes : Bool) (s s' : State) : Prop where
  announced : s'.announced = s.announced ++ lines
  warnings : s'.validationWarnings = 0
  passed : s'.validationPassed = (s.validationPassed && passes)

/-- As long as there is no warning, the functions in `p` are all called, if `quiet`, and
    otherwise the shell exits in one of them, or would with its return. -/
def Audits (p : Sh State) (lines : List String) (quiet : Prop) (passes : Bool) : Prop :=
  ∀ (s : State) (Q : Post State), s.validationWarnings = 0 → (∀ s', Q.exit 1 s' → Q.ret 1 s') →
    (quiet → ∀ s', Advances lines passes s s' → Q.next 0 s') →
    (¬quiet → ∀ s' begun, begun <+: lines → s'.announced = s.announced ++ begun → Q.exit 1 s') →
    wp p Ctx.top Q s

namespace Audits

variable {p q b : Sh State} {lines lines' : List String} {quiet quiet' : Prop}
  {passes passes' : Bool}

theorem congr (hp : Audits p lines quiet passes) (hq : quiet ↔ quiet') (hv : passes = passes') :
    Audits p lines quiet' passes' := by
  subst hv
  rwa [← propext hq]

/-- Audits one after the other are an audit. -/
theorem seq (hp : Audits p lines quiet passes) (hq : Audits q lines' quiet' passes') :
    Audits (.seq p q) (lines ++ lines') (quiet ∧ quiet') (passes && passes') := by
  intro s Q hw hret hgo hstop
  rw [wp_seq]
  refine hp s _ hw hret (fun hquiet s₁ h₁ => ?_) fun hquiet s₁ begun hb hs₁ => ?_
  · refine hq s₁ Q h₁.warnings hret (fun hquiet' s₂ h₂ => ?_) fun hquiet' s₂ begun hb hs₂ => ?_
    · refine hgo ⟨hquiet, hquiet'⟩ s₂ ⟨?_, h₂.warnings, ?_⟩
      · rw [h₂.announced, h₁.announced, List.append_assoc]
      · rw [h₂.passed, h₁.passed, Bool.and_assoc]
    · refine hstop (fun h => hquiet' h.2) s₂ (lines ++ begun) ?_ ?_
      · exact (List.prefix_append_right_inj lines).2 hb
      · rw [hs₂, h₁.announced, List.append_assoc]
  · exact hstop (fun h => hquiet h.1) s₁ begun (hb.trans (List.prefix_append _ _)) hs₁

theorem call (hp : Audits p lines quiet passes) : Audits (.call p) lines quiet passes := by
  intro s Q hw _ hgo hstop
  have hret (s' : State) (he : Q.exit 1 s') : Q.finish Ctx.top 1 s' := (Post.finish_succ rfl).2 he
  have hend (s' : State) (hn : Q.next 0 s') : Q.finish Ctx.top 0 s' := Post.finish_zero.2 hn
  rw [wp_call]
  exact hp s _ hw hret (fun hq s' hs' => hend s' (hgo hq s' hs')) hstop

/-- A function that returns at its end. -/
theorem call_ret (hp : Audits p lines quiet passes) :
    Audits (.call (.seq p (.ret 0))) lines quiet passes := by
  intro s Q hw _ hgo hstop
  have hret (s' : State) (he : Q.exit 1 s') : Q.finish Ctx.top 1 s' := (Post.finish_succ rfl).2 he
  have hend (s' : State) (hn : Q.next 0 s') : Q.finish Ctx.top 0 s' := Post.finish_zero.2 hn
  rw [wp_call, wp_seq]
  exact hp s _ hw hret (fun hq s' hs' => hend s' (hgo hq s' hs')) hstop

/-- A command that announces nothing. -/
theorem of_silent (hp : ∀ (s : State) (Q : Post State), s.validationWarnings = 0 →
      (∀ s', Q.exit 1 s' → Q.ret 1 s') →
      (quiet → ∀ s', s'.announced = s.announced → s'.validationWarnings = 0 →
        s'.validationPassed = (s.validationPassed && passes) → Q.next 0 s') →
      (¬quiet → ∀ s', s'.announced = s.announced → Q.exit 1 s') → wp p Ctx.top Q s) :
    Audits p [] quiet passes := by
  intro s Q hw hret hgo hstop
  refine hp s Q hw hret (fun hq s' ha hw' hv => ?_) fun hq s' ha => ?_
  · exact hgo hq s' ⟨by rw [ha, List.append_nil], hw', hv⟩
  · exact hstop hq s' [] List.nil_prefix (by rw [ha, List.append_nil])

theorem of_announce (line : String) : Audits (announce line) [line] True true := by
  intro s Q hw _ hgo _
  exact hgo trivial _ ⟨rfl, hw, (Bool.and_true _).symm⟩

/-- A command that changes neither the verdict nor what is announced. -/
theorem of_keeps {f : State → State} (hf : ∀ s, (f s).announced = s.announced ∧
      (f s).validationWarnings = s.validationWarnings ∧
      (f s).validationPassed = s.validationPassed)
    (hp : ∀ (s : State) (Q : Post State), Q.next 0 (f s) → wp p Ctx.top Q s) :
    Audits p [] True true := by
  refine .of_silent fun s Q hw _ hgo _ => ?_
  obtain ⟨ha, hw', hv⟩ := hf s
  exact hp s Q (hgo trivial _ ha (hw'.trans hw) (by rw [hv, Bool.and_true]))

theorem of_assign {f : State → State} (hf : ∀ s, (f s).announced = s.announced ∧
      (f s).validationWarnings = s.validationWarnings ∧
      (f s).validationPassed = s.validationPassed) : Audits (.assign f) [] True true :=
  of_keeps hf fun _ _ hn => hn

theorem of_skip : Audits .skip [] True true :=
  of_keeps (fun _ => ⟨rfl, rfl, rfl⟩) fun _ _ hn => hn

theorem of_reject : Audits reject [] True false := by
  refine .of_silent fun s Q hw _ hgo _ => ?_
  exact hgo trivial _ rfl hw (Bool.and_false _).symm

theorem of_warn : Audits warn [] False true := by
  refine .of_silent fun s Q hw _ _ hstop => ?_
  exact wp_warn_top hw (hstop id _ rfl)

theorem ite {o : Option Bool} (hp : Audits p lines quiet passes) (hb : Decides b o)
    (hq : Audits q lines quiet' passes') : Audits (.ite b p q) lines
      (o.elim False fun t => if t then quiet else quiet')
      (o.elim true fun t => if t then passes else passes') := by
  intro s Q hw hret hgo hstop
  rw [wp_ite, hb]
  rcases o with _ | _ | _
  · exact hstop id s [] List.nil_prefix (List.append_nil _).symm
  · exact hq s Q hw hret hgo hstop
  · exact hp s Q hw hret hgo hstop

theorem ite_skip {o : Option Bool} (hb : Decides b o) :
    Audits (.ite b .skip .skip) [] (o.isSome = true) true :=
  (ite of_skip hb of_skip).congr (by rcases o with _ | _ | _ <;> simp)
    (by rcases o with _ | _ | _ <;> rfl)

theorem ite_reject {o : Option Bool} (hb : Decides b o) :
    Audits (.ite b .skip reject) [] (o.isSome = true) (o.getD true) :=
  (ite of_skip hb of_reject).congr (by rcases o with _ | _ | _ <;> simp)
    (by rcases o with _ | _ | _ <;> rfl)

theorem ite_warn {o : Option Bool} (hb : Decides b o) :
    Audits (.ite b .skip warn) [] (o = some true) true :=
  (ite of_skip hb of_warn).congr (by rcases o with _ | _ | _ <;> simp)
    (by rcases o with _ | _ | _ <;> rfl)

theorem test_skip (t : State → Bool) : Audits (.ite (.test t) .skip .skip) [] True true :=
  of_keeps (fun _ => ⟨rfl, rfl, rfl⟩) fun s Q hn => by
    rw [wp_ite_test]
    split <;> exact hn

theorem unless_command (h : Host) (cmd : String) :
    Audits (.ite (.not (checkCommand h cmd)) (.ret 1) .skip) [] (h.hasCommand cmd = true) true := by
  refine .of_silent fun s Q hw hret hgo hstop => ?_
  simp only [wp_ite, wp_not, wp_checkCommand, Post.finish_guard]
  split
  · next hcmd => exact hgo hcmd s rfl hw (Bool.and_true _).symm
  · next hcmd => exact hret _ (hstop hcmd _ rfl)

end Audits

/-! ## The functions -/

variable (h)

theorem audits_archRelease : Audits (.ite (.not (.test fun _ => h.isFile "/etc/arch-release"))
    (.block [reject, .ret 1]) .skip) [] (h.isFile "/etc/arch-release" = true) true := by
  refine .of_silent fun s Q hw hret hgo hstop => ?_
  rw [wp_ite_not_test]
  split
  · next hfile => exact hgo hfile s rfl hw (Bool.and_true _).symm
  · next hfile => exact hret _ (hstop hfile _ rfl)

theorem audits_sync : Audits (.seq
    (.expand h.daysSinceSync fun n s => { s with daysSinceSync := n })
    (.ite (.test fun s => s.daysSinceSync > 7) warn .skip)) []
      (∃ days, h.daysSinceSync = some days ∧ days ≤ 7) true := by
  refine .of_silent fun s Q hw _ hgo hstop => ?_
  rw [wp_seq, wp_expand]
  cases hdays : h.daysSinceSync with
  | none => exact hstop (by simp [hdays]) s rfl
  | some days =>
    simp only [Option.elim_some, wp_ite_test, decide_eq_true_eq]
    split
    · next hlt =>
      refine wp_warn_top hw (hstop ?_ _ rfl)
      rintro ⟨days', hdays', hle⟩
      rw [hdays] at hdays'
      cases hdays'
      exact absurd hlt (not_lt.2 hle)
    · next hle =>
      exact hgo ⟨days, hdays, not_lt.1 hle⟩ _ rfl hw (Bool.and_true _).symm

theorem audits_archLinux : Audits (validateArchLinux h) ["Validating Arch Linux system..."]
    (h.isFile "/etc/arch-release" = true ∧ ∃ days, h.daysSinceSync = some days ∧ days ≤ 7)
    true := by
  have hbody := (Audits.of_announce "Validating Arch Linux system...").seq
    ((audits_archRelease h).seq (audits_sync h))
  have heq := hbody.call_ret
  simp only [seq_assoc] at heq
  exact heq.congr (by simp) rfl

/-- The kernel configuration that is checked. -/
def Host.kernelConfig? : Option String := h.configPaths.find? h.isFile

/-- A feature is enabled in a kernel configuration, as far as zcat or cat can tell. -/
def Host.enabled (config feature : String) : Bool :=
  h.zcatHas config feature || h.catHas config feature

variable {h} in
theorem Host.ne_of_mem_configPaths {path : String} (hp : path ∈ h.configPaths) : path ≠ "" := by
  simp only [Host.configPaths, List.mem_cons, List.not_mem_nil, or_false] at hp
  rcases hp with rfl | rfl | rfl
  · decide
  · simp
  · simp

theorem wp_checkFeature {feature : String} : wp (checkFeature h feature) c Q s ↔
    if h.enabled s.kernelConfig feature then Q.next 0 s else wp warn c Q s := by
  simp only [checkFeature, wp_ite, wp_orElse, wp_test_guard, Host.enabled]
  by_cases hz : h.zcatHas s.kernelConfig feature = true
  · simp [hz]
  · by_cases hc : h.catHas s.kernelConfig feature = true
    · simp [hz, hc]
    · simp [hz, hc]

/-- The loop over the features exits the shell at one that is not enabled. -/
theorem wp_checkFeatures_top (hw : s.validationWarnings = 0) (features : List String) :
    wp (.forIn features (checkFeature h)) Ctx.top Q s ↔
      if features.all (h.enabled s.kernelConfig) then Q.next 0 s
      else Q.exit 1 { s with validationWarnings := 1 } := by
  refine wp_forIn_all (fun feature hf => ?_) fun feature hf => ?_
  · rw [← wp_is, wp_checkFeature, if_pos hf]
    rfl
  · rw [← wp_is, wp_checkFeature, if_neg (by rw [hf]; decide)]
    exact wp_warn_top hw rfl

/-- The features are checked in the configuration that was found, which exits the shell if
    there is none. -/
theorem wp_checkConfig_top (hw : s.validationWarnings = 0)
    (hc : h.kernelConfig?.getD "" = s.kernelConfig)
    (hgo : (∃ config, h.kernelConfig? = some config ∧
      requiredFeatures.all (h.enabled config) = true) → Q.next 0 s)
    (hstop : (¬∃ config, h.kernelConfig? = some config ∧
      requiredFeatures.all (h.enabled config) = true) →
        Q.exit 1 { s with validationWarnings := 1 }) :
    wp (.ite (.test fun s => s.kernelConfig != "") (.forIn requiredFeatures (checkFeature h)) warn)
      Ctx.top Q s := by
  rw [wp_ite_test, ← hc]
  cases hconfig : h.kernelConfig? with
  | none => exact wp_warn_top hw (hstop (by simp [hconfig]))
  | some config =>
    rw [hconfig, Option.getD_some] at hc
    have hne := Host.ne_of_mem_configPaths (List.mem_of_find?_eq_some hconfig)
    rw [Option.getD_some, if_pos (bne_iff_ne.2 hne), wp_checkFeatures_top h hw]
    split
    · next hall =>
      rw [← hc] at hall
      exact hgo ⟨config, hconfig, hall⟩
    · next hall =>
      rw [← hc] at hall
      refine hstop ?_
      rintro ⟨config', hconfig', hall'⟩
      rw [hconfig] at hconfig'
      cases hconfig'
      exact hall hall'

theorem audits_features : Audits (.seq (.assign fun s => { s with kernelConfig := "" })
    (.seq (.forIn h.configPaths fun path => .ite (.test fun _ => h.isFile path)
        (.block [.assign fun s => { s with kernelConfig := path }, .brk]) .skip)
      (.ite (.test fun s => s.kernelConfig != "") (.forIn requiredFeatures (checkFeature h)) warn)))
    [] (∃ config, h.kernelConfig? = some config ∧ requiredFeatures.all (h.enabled config) = true)
    true := by
  refine .of_silent fun s Q hw _ hgo hstop => ?_
  rw [wp_seq, wp_assign]
  refine wp_seq.2 (wp_forIn_find.2 (wp_checkConfig_top h ?_ ?_ (fun hq => hgo hq _ ?_ ?_ ?_)
    fun hq => hstop hq _ ?_))
  · cases h.configPaths.find? h.isFile <;> exact hw
  · rw [Host.kernelConfig?]
    cases h.configPaths.find? h.isFile <;> rfl
  · cases h.configPaths.find? h.isFile <;> rfl
  · cases h.configPaths.find? h.isFile <;> exact hw
  · cases h.configPaths.find? h.isFile <;> exact (Bool.and_true _).symm
  · cases h.configPaths.find? h.isFile <;> rfl

theorem audits_kernel : Audits (validateKernel h) ["Validating kernel version..."]
    ((h.atLeast h.kernelVersion (orDefault h.minKernelVersion "5.4")).isSome = true ∧
      ∃ config, h.kernelConfig? = some config ∧ requiredFeatures.all (h.enabled config) = true)
    ((h.atLeast h.kernelVersion (orDefault h.minKernelVersion "5.4")).getD true) := by
  have hversion := decides_versionCompare h h.kernelVersion (orDefault h.minKernelVersion "5.4")
  have hbody := (Audits.of_announce "Validating kernel version...").seq
    ((Audits.ite_reject hversion).seq (audits_features h))
  exact hbody.call.congr (by simp) (by simp)

theorem audits_glibc : Audits (validateGlibc h) ["Validating glibc version..."]
    ((h.atLeast h.glibcVersion (orDefault h.minGlibcVersion "2.31")).isSome = true)
    ((h.atLeast h.glibcVersion (orDefault h.minGlibcVersion "2.31")).getD true &&
      h.hasPthread) := by
  have hversion := decides_versionCompare h h.glibcVersion (orDefault h.minGlibcVersion "2.31")
  have hbody := (Audits.of_announce "Validating glibc version...").seq
    ((Audits.ite_reject hversion).seq (Audits.ite_reject (decides_test h.hasPthread)))
  exact hbody.call.congr (by simp) (by simp)

theorem audits_gcc : Audits (validateGcc h) ["Validating GCC version..."]
    (h.hasCommand "gcc" = true ∧
      (h.atLeast h.gccVersion (orDefault h.minGccVersion "9.0")).isSome = true ∧ h.hasCxx = true)
    ((h.atLeast h.gccVersion (orDefault h.minGccVersion "9.0")).getD true) := by
  have hversion := decides_versionCompare h h.gccVersion (orDefault h.minGccVersion "9.0")
  have hbody := (Audits.of_announce "Validating GCC version...").seq
    ((Audits.unless_command h "gcc").seq ((Audits.ite_reject hversion).seq
      ((Audits.ite_warn (decides_test h.hasCxx)).seq (Audits.ite_skip (decides_test h.hasLto)))))
  exact hbody.call.congr (by simp) (by simp)

/-- The loop over the tools exits the shell at one that is missing. -/
theorem wp_checkCommands_top (tools : List String) :
    wp (.forIn tools fun toolSpec => checkCommand h (tool toolSpec)) Ctx.top Q s ↔
      if tools.all (h.hasCommand <| tool ·) then Q.next 0 s
      else Q.exit 1 { s with validationPassed := false } := by
  refine wp_forIn_all (fun toolSpec ht => ?_) fun toolSpec ht => ?_
  · rw [← wp_is, wp_checkCommand, if_pos ht]
    rfl
  · rw [← wp_is, wp_checkCommand, if_neg (by rw [ht]; decide)]
    exact (Post.finish_succ rfl).2 rfl

theorem audits_buildTools : Audits (validateBuildTools h) ["Validating build tools..."]
    (requiredTools.all (h.hasCommand <| tool ·) = true) true := by
  have htools : Audits (.forIn requiredTools fun toolSpec => checkCommand h (tool toolSpec)) []
      (requiredTools.all (h.hasCommand <| tool ·) = true) true := by
    refine .of_silent fun s Q hw _ hgo hstop => ?_
    rw [wp_checkCommands_top]
    split
    · next hall => exact hgo hall s rfl hw (Bool.and_true _).symm
    · next hall => exact hstop hall _ rfl
  exact ((Audits.of_announce "Validating build tools...").seq htools).call.congr (by simp) rfl

theorem audits_python : Audits (validatePython h) ["Validating Python installation..."]
    (h.hasCommand "python" = true ∧ (h.atLeast h.pythonVersion "3.6").isSome = true ∧
      (h.isLink "/usr/bin/python3" || h.isFile "/usr/bin/python3") = true)
    ((h.atLeast h.pythonVersion "3.6").getD true && h.hasCommand "pip") := by
  have hlink := (decides_test (h.isLink "/usr/bin/python3")).orElse
    (decides_test (h.isFile "/usr/bin/python3"))
  have hpip : Audits (.ite (checkCommand h "pip") .skip .skip) [] True (h.hasCommand "pip") := by
    refine .of_silent fun s Q hw _ hgo _ => ?_
    rw [wp_ite, wp_checkCommand]
    split
    · next hcmd => exact hgo trivial s rfl hw (by rw [hcmd, Bool.and_true])
    · next hcmd =>
      refine Post.finish_guard.2 (hgo trivial _ rfl hw ?_)
      rw [Bool.eq_false_iff.2 hcmd, Bool.and_false]
  have hbody := (Audits.of_announce "Validating Python installation...").seq
    ((Audits.unless_command h "python").seq
      ((Audits.ite_reject (decides_versionCompare h h.pythonVersion "3.6")).seq
        ((Audits.ite_warn hlink).seq hpip)))
  exact hbody.call.congr (by simp) (by simp)

theorem audits_diskSpace : Audits
    (.seq (.expand h.requiredSpaceKb fun n s => { s with requiredSpaceKb := n })
      (.read fun s => .ite (.compare (h.spaceAbove s.requiredSpaceKb)) .skip reject)) []
    ((h.requiredSpaceKb.bind h.spaceAbove).isSome = true)
    ((h.requiredSpaceKb.bind h.spaceAbove).getD true) := by
  intro s Q hw hret hgo hstop
  rw [wp_seq, wp_expand]
  cases hkb : h.requiredSpaceKb with
  | none => exact hstop (by simp [hkb]) s [] List.nil_prefix (List.append_nil _).symm
  | some kb =>
    rw [hkb] at hgo hstop
    have hspace := Audits.ite_reject (decides_compare (h.spaceAbove kb))
    exact hspace { s with requiredSpaceKb := kb } Q hw hret
      (fun hq s' hs' => hgo hq s' ⟨hs'.announced, hs'.warnings, hs'.passed⟩) hstop

theorem audits_systemResources : Audits (validateSystemResources h)
    ["Validating system resources..."]
    ((h.requiredSpaceKb.bind h.spaceAbove).isSome = true ∧
      h.memoryAboveRecommended = some true ∧ h.multiCore = some true)
    ((h.requiredSpaceKb.bind h.spaceAbove).getD true) := by
  have hbody := (Audits.of_announce "Validating system resources...").seq
    ((audits_diskSpace h).seq ((Audits.ite_warn (decides_compare h.memoryAboveRecommended)).seq
      (Audits.ite_warn (decides_compare h.multiCore))))
  have hcall := hbody.call
  rw [seq_assoc] at hcall
  exact hcall.congr (by simp) (by simp)

theorem foldl_missingPackages (packages : List String) (s : State) :
    packages.foldl (fun s p => { s with missingPackages := s.missingPackages ++ [p] }) s =
      { s with missingPackages := s.missingPackages ++ packages } := by
  induction packages generalizing s with
  | nil => simp
  | cons p packages ih => rw [List.foldl_cons, ih, List.append_assoc]; rfl

theorem foldl_missingOptional (packages : List String) (s : State) :
    packages.foldl (fun s p => { s with missingOptional := s.missingOptional ++ [p] }) s =
      { s with missingOptional := s.missingOptional ++ packages } := by
  induction packages generalizing s with
  | nil => simp
  | cons p packages ih => rw [List.foldl_cons, ih, List.append_assoc]; rfl

theorem audits_requiredPackages : Audits (.seq (.assign fun s => { s with missingPackages := [] })
    (.seq (.forIn h.requiredPackagesArch fun package =>
        .ite (.not (.test fun _ => h.installed package))
          (.assign fun s => { s with missingPackages := s.missingPackages ++ [package] }) .skip)
      (.ite (.test fun s => s.missingPackages.length > 0) reject .skip)))
    [] True (h.requiredPackagesArch.all h.installed) := by
  refine .of_silent fun s Q hw _ hgo _ => ?_
  rw [wp_seq, wp_assign]
  refine wp_seq.2 (wp_forIn_collect.2 ?_)
  simp only [foldl_missingPackages, wp_ite_test, decide_eq_true_eq, List.nil_append]
  split
  · next hlen =>
    refine hgo trivial _ rfl hw ?_
    obtain ⟨package, hp⟩ := List.exists_mem_of_length_pos hlen
    obtain ⟨hmem, hmissing⟩ := List.mem_filter.1 hp
    have hall : h.requiredPackagesArch.all h.installed = false :=
      List.all_eq_false.2 ⟨package, hmem, by simpa using hmissing⟩
    rw [hall, Bool.and_false]
  · next hlen =>
    refine hgo trivial _ rfl hw ?_
    have hnil := List.eq_nil_of_length_eq_zero (Nat.eq_zero_of_not_pos hlen)
    have hall : h.requiredPackagesArch.all h.installed = true :=
      List.all_eq_true.2 fun package hp => by simpa using List.filter_eq_nil_iff.1 hnil package hp
    rw [hall, Bool.and_true]

theorem audits_archPackages : Audits (validateArchPackages h)
    ["Validating required Arch packages..."] True (h.requiredPackagesArch.all h.installed) := by
  have hreset : Audits (.assign fun s => { s with missingOptional := [] }) [] True true :=
    .of_assign fun _ => ⟨rfl, rfl, rfl⟩
  have hoptional : Audits (.forIn h.optionalPackagesArch fun package =>
      .ite (.not (.test fun _ => h.installed package))
        (.assign fun s => { s with missingOptional := s.missingOptional ++ [package] }) .skip)
      [] True true :=
    .of_keeps (f := fun s => { s with
        missingOptional := s.missingOptional ++ h.optionalPackagesArch.filter (!h.installed ·) })
      (fun _ => ⟨rfl, rfl, rfl⟩) fun s Q hn => wp_forIn_collect.2 (by
        rw [foldl_missingOptional]
        exact hn)
  have hbody := (Audits.of_announce "Validating required Arch packages...").seq
    ((audits_requiredPackages h).seq (hreset.seq (hoptional.seq
      (Audits.test_skip fun s => s.missingOptional.length > 0))))
  have hcall := hbody.call
  simp only [seq_assoc] at hcall
  exact hcall.congr (by simp) (by simp)

theorem audits_multilib :
    Audits (validateMultilib h) ["Validating multilib configuration..."] True true := by
  have hbody := (Audits.of_announce "Validating multilib configuration...").seq
    ((Audits.ite_skip (decides_test (h.installed "lib32-glibc"))).ite (decides_test h.hasMultilib)
      .of_skip)
  exact hbody.call.congr (by simp) (by simp)

theorem audits_aurAccess : Audits (validateAurAccess h) ["Validating AUR access..."]
    (h.installed "base-devel" = true) true := by
  have hreset : Audits (.assign fun s => { s with foundHelper := "" }) [] True true :=
    .of_assign fun _ => ⟨rfl, rfl, rfl⟩
  have hhelper : Audits (.forIn aurHelpers fun helper => .ite (.test fun _ => h.hasCommand helper)
      (.block [.assign fun s => { s with foundHelper := helper }, .brk]) .skip) [] True true :=
    .of_keeps (f := fun s => (aurHelpers.find? h.hasCommand).elim s
        fun helper => { s with foundHelper := helper })
      (fun s => by cases aurHelpers.find? h.hasCommand <;> exact ⟨rfl, rfl, rfl⟩)
      fun _ _ hn => wp_forIn_find.2 hn
  have hbody := (Audits.of_announce "Validating AUR access...").seq
    (hreset.seq (hhelper.seq ((Audits.test_skip fun s => s.foundHelper != "").seq
      (Audits.ite_warn (decides_test (h.installed "base-devel"))))))
  exact hbody.call.congr (by simp) (by simp)

theorem audits_performanceTools : Audits (validatePerformanceTools h)
    ["Validating performance tools..."]
    (h.isBlock "/dev/nvme0n1" = false → h.isBlock "/dev/sda" = true →
      h.notRotational.isSome = true) true := by
  have hssd := (decides_test (h.isBlock "/dev/sda")).andThen (decides_compare h.notRotational)
  have hbody := (Audits.of_announce "Validating performance tools...").seq
    ((Audits.ite_skip (decides_test (h.hasCommand "ccache"))).seq
      ((Audits.ite_skip (decides_test (h.hasCommand "distcc"))).seq
        (Audits.of_skip.ite (decides_test (h.isBlock "/dev/nvme0n1")) (.ite_skip hssd))))
  refine hbody.call.congr ?_ ?_
  · cases h.isBlock "/dev/nvme0n1" <;> cases h.isBlock "/dev/sda" <;> simp
  · simp

theorem audits_network : Audits (validateNetwork h) ["Validating network connectivity..."]
    (h.repositoryFound = true) h.online := by
  have hbody := (Audits.of_announce "Validating network connectivity...").seq
    ((Audits.ite_reject (decides_test h.online)).seq
      (Audits.ite_warn (decides_test h.repositoryFound)))
  exact hbody.call.congr (by simp) (by simp)

/-! ## The validation -/

/-- The first lines of the twelve functions. -/
def firstLines : List String := [
  "Validating Arch Linux system...", "Validating kernel version...", "Validating glibc version...",
  "Validating GCC version...", "Validating build tools...", "Validating Python installation...",
  "Validating system resources...", "Validating required Arch packages...",
  "Validating multilib configuration...", "Validating AUR access...",
  "Validating performance tools...", "Validating network connectivity..."]

/-- Nothing in the host makes a function warn, return early or stop the shell. -/
structure Undisturbed : Prop where
  archRelease : h.isFile "/etc/arch-release" = true
  synced : ∃ days, h.daysSinceSync = some days ∧ days ≤ 7
  kernelVersion : (h.atLeast h.kernelVersion (orDefault h.minKernelVersion "5.4")).isSome = true
  features : ∃ config, h.kernelConfig? = some config ∧
    requiredFeatures.all (h.enabled config) = true
  glibcVersion : (h.atLeast h.glibcVersion (orDefault h.minGlibcVersion "2.31")).isSome = true
  gcc : h.hasCommand "gcc" = true
  gccVersion : (h.atLeast h.gccVersion (orDefault h.minGccVersion "9.0")).isSome = true
  cxx : h.hasCxx = true
  tools : requiredTools.all (h.hasCommand <| tool ·) = true
  python : h.hasCommand "python" = true
  pythonVersion : (h.atLeast h.pythonVersion "3.6").isSome = true
  python3 : (h.isLink "/usr/bin/python3" || h.isFile "/usr/bin/python3") = true
  space : (h.requiredSpaceKb.bind h.spaceAbove).isSome = true
  memory : h.memoryAboveRecommended = some true
  cores : h.multiCore = some true
  baseDevel : h.installed "base-devel" = true
  ssd : h.isBlock "/dev/nvme0n1" = false → h.isBlock "/dev/sda" = true →
    h.notRotational.isSome = true
  repository : h.repositoryFound = true

/-- The twelve functions, one after the other. -/
def checks : Sh State :=
  .block [validateArchLinux h, validateKernel h, validateGlibc h, validateGcc h,
    validateBuildTools h, validatePython h, validateSystemResources h, validateArchPackages h,
    validateMultilib h, validateAurAccess h, validatePerformanceTools h, validateNetwork h]

theorem audits_checks : ∃ passes, Audits (checks h) firstLines (Undisturbed h) passes := by
  have hchecks := (audits_archLinux h).seq ((audits_kernel h).seq ((audits_glibc h).seq
    ((audits_gcc h).seq ((audits_buildTools h).seq ((audits_python h).seq
      ((audits_systemResources h).seq ((audits_archPackages h).seq ((audits_multilib h).seq
        ((audits_aurAccess h).seq ((audits_performanceTools h).seq (audits_network h)))))))))))
  refine ⟨_, hchecks.congr ⟨?_, ?_⟩ rfl⟩
  · rintro ⟨⟨h₁, h₂⟩, ⟨h₃, h₄⟩, h₅, ⟨h₆, h₇, h₈⟩, h₉, ⟨h₁₀, h₁₁, h₁₂⟩, ⟨h₁₃, h₁₄, h₁₅⟩, -, -, h₁₆,
      h₁₇, h₁₈⟩
    exact ⟨h₁, h₂, h₃, h₄, h₅, h₆, h₇, h₈, h₉, h₁₀, h₁₁, h₁₂, h₁₃, h₁₄, h₁₅, h₁₆, h₁₇, h₁₈⟩
  · intro hu
    exact ⟨⟨hu.archRelease, hu.synced⟩, ⟨hu.kernelVersion, hu.features⟩, hu.glibcVersion,
      ⟨hu.gcc, hu.gccVersion, hu.cxx⟩, hu.tools, ⟨hu.python, hu.pythonVersion, hu.python3⟩,
      ⟨hu.space, hu.memory, hu.cores⟩, trivial, trivial, hu.baseDevel, hu.ssd, hu.repository⟩

/-- A validation under errexit calls all the functions and reaches its summary, and succeeds if
    nothing has set `VALIDATION_PASSED` to false. -/
structure Completes : Prop where
  announced : (runValidation h Ctx.top {}).2.announced = firstLines ++ ["Validation complete"]
  returns : (runValidation h Ctx.top {}).1 = .next 0 ↔
    (runValidation h Ctx.top {}).2.validationPassed = true

/-- The end of `run_validation`. -/
def summary : Sh State :=
  .block [
    announce "Validation complete",
    .ite (.test fun s => s.validationPassed)
      (.block [.ite (.test fun s => s.validationWarnings > 0) .skip .skip, .ret 0])
      (.ret 1)]

theorem runValidation_eq : runValidation h = .call (.seq (checks h) summary) := by
  rw [runValidation, checks, summary]
  simp only [Sh.block, seq_assoc]

variable {h}

theorem wp_summary : wp summary c Q s ↔ Q.ret (if s.validationPassed then 0 else 1)
    { s with announced := s.announced ++ ["Validation complete"] } := by
  simp only [summary, announce, wp_block_cons, wp_block_singleton, wp_assign, wp_ite_test, wp_skip,
    wp_ret, ite_self]
  split <;> rfl

/-- A validation is stopped in one of its functions, or ends with its verdict. -/
theorem wp_runValidation
    (hgo : Undisturbed h → ∀ s', s'.announced = firstLines ++ ["Validation complete"] →
      Q.finish Ctx.top (if s'.validationPassed then 0 else 1) s')
    (hstop : ¬Undisturbed h → ∀ s', s'.announced <+: firstLines → Q.exit 1 s') :
    wp (runValidation h) Ctx.top Q {} := by
  obtain ⟨passes, hchecks⟩ := audits_checks h
  have hret (s' : State) (he : Q.exit 1 s') : Q.finish Ctx.top 1 s' := (Post.finish_succ rfl).2 he
  rw [runValidation_eq, wp_call, wp_seq]
  refine hchecks {} _ rfl hret (fun hu s' hs' => wp_summary.2 ?_) fun hu s' begun hb hs' => ?_
  · have ha : s'.announced = firstLines := hs'.announced
    exact hgo hu { s' with announced := s'.announced ++ ["Validation complete"] } (by rw [ha])
  · have ha : s'.announced = begun := hs'
    exact hstop hu s' (ha ▸ hb)

/-- The validation is completed on the hosts where nothing is to be warned about, and nothing
    makes a function return early or stop the shell. -/
theorem runValidation_completes_iff (h : Host) : Completes h ↔ Undisturbed h := by
  constructor
  · intro hc
    by_contra hu
    have hwp : wp (runValidation h) Ctx.top (.always (·.announced <+: firstLines)) {} :=
      wp_runValidation (fun hu' => absurd hu' hu) fun _ _ hb => hb
    have hb := wp_always.1 hwp
    rw [hc.announced] at hb
    exact absurd hb.length_le (by simp)
  · intro hu
    have hwp : wp (runValidation h) Ctx.top
        { next := fun n s => n = 0 ∧ s.validationPassed = true ∧
            s.announced = firstLines ++ ["Validation complete"]
          exit := fun _ s => s.validationPassed = false ∧
            s.announced = firstLines ++ ["Validation complete"] } {} := by
      refine wp_runValidation (fun _ s' ha => ?_) fun hu' => absurd hu hu'
      cases hv : s'.validationPassed with
      | true => exact Post.finish_zero.2 ⟨rfl, hv, ha⟩
      | false => exact (Post.finish_succ rfl).2 ⟨hv, ha⟩
    rw [wp] at hwp
    rcases hrun : runValidation h Ctx.top {} with ⟨n | _ | _ | n | _, s'⟩
    · rw [hrun] at hwp
      obtain ⟨rfl, hv, ha⟩ := hwp
      exact ⟨by rw [hrun]; exact ha, by rw [hrun]; exact iff_of_true rfl hv⟩
    · rw [hrun] at hwp
      exact hwp.elim
    · rw [hrun] at hwp
      exact hwp.elim
    · rw [hrun] at hwp
      obtain ⟨hv, ha⟩ := hwp
      refine ⟨by rw [hrun]; exact ha, ?_⟩
      rw [hrun]
      exact iff_of_false (fun hn => by cases hn) (by rw [hv]; decide)
    · rw [hrun] at hwp
      exact hwp.elim

/-- A host with everything that the script asks for. -/
def equipped : Host where
  isFile path := path ∈ ["/etc/arch-release", "/proc/config.gz", "/usr/bin/python3"]
  isLink _ := false
  isBlock path := path == "/dev/nvme0n1"
  hasCommand _ := true
  installed _ := true
  lastSync := some "1700000000"
  currentTime := "1700086400"
  release := "6.7.4-arch1-1"
  kernelVersion := "6.7.4"
  zcatHas _ _ := true
  catHas _ _ := false
  glibcVersion := "2.39"
  hasPthread := true
  gccVersion := "13.2.1"
  hasCxx := true
  hasLto := true
  pythonVersion := "3.11"
  availableSpace := "104857600"
  availableMemory := "16000"
  cpuCores := "8"
  hasMultilib := false
  rotational := "0"
  online := true
  repositoryFound := true
  minKernelVersion := "5.4"
  minGlibcVersion := "2.31"
  minGccVersion := "9.0"
  minDiskSpaceGb := "50"
  recommendedRamMb := "4096"
  requiredPackagesArch := ["base-devel", "git", "texinfo"]
  optionalPackagesArch := ["ccache"]
  expression _ := .error
  expandPattern pattern := [pattern]

example : (runValidation equipped Ctx.top {}).1 = .next 0 := by decide +kernel

/-- A warning alone, and a tool that is missing, stop the validation. -/
theorem runValidation_stopped :
    ((runValidation { equipped with cpuCores := "1" } Ctx.top {}).1 = .exit 1 ∧
      (runValidation { equipped with cpuCores := "1" } Ctx.top {}).2.validationPassed = true ∧
      ¬Completes { equipped with cpuCores := "1" }) ∧
    (runValidation { equipped with hasCommand := (· != "texinfo") } Ctx.top {}).1 = .exit 1 ∧
      ¬Completes { equipped with hasCommand := (· != "texinfo") } := by
  refine ⟨⟨by decide +kernel, by decide +kernel, fun hc => ?_⟩, by decide +kernel, fun hc => ?_⟩
  · exact absurd hc.announced (by decide +kernel)
  · exact absurd hc.announced (by decide +kernel)

end LfsBuilder.ArchValidation
