import LfsBuilder.Library.Errexit
import LfsBuilder.Scripts.ArchBuildEnv
import LfsBuilder.Scripts.ArchSupport

/-!
# The set-up of Arch hosts

`main` of `scripts/arch-support.sh`, with the functions that it calls for each of its
actions, over the statuses of the commands in them. Messages are left out, and what only
they use.

* `main_completes_iff`: the script ends with status zero exactly if the option loop stops at
  `--help`, or on an Arch host that allows the action;
* `main_setup_fails`: the default action never does on a host with a configuration of
  makepkg, and leaves no configuration behind.
-/

namespace LfsBuilder.ArchSetup

open Text Shell HereDocument

/-- The host, with the outcomes of more probes and commands. -/
structure Host extends ArchSupport.Host where
  /-- `/etc/arch-release` -/
  isArch : Bool
  /-- The status of a command. -/
  status : String → ℕ
  /-- The line that is read after a question, if the input has one. -/
  reply : String → Option String
  /-- The lines of `/etc/makepkg.conf`, if it exists. -/
  makepkgConf : Option (List Str)
  /-- The variables of the script. -/
  meaning : Meaning
  /-- The megabytes in all that free prints. -/
  totalMemory : String
  /-- Whether `USER` is set. -/
  hasUser : Bool

/-- The files in the working directory that the script writes. -/
structure State where
  build : ArchBuildEnv.State := {}
  /-- `lfs-builder-arch.env` -/
  archEnv : Bool := false

/-- A command with its status. -/
def run (h : Host) (command : String) : Sh State := .external h.status command

/-- `read -p question -r`, and the commands for an answer that matches `^[Yy]$`. -/
def ask (h : Host) (question : String) (p : Sh State) : Sh State :=
  (h.reply question).elim (.cmd fun _ s => (1, s)) fun reply =>
    .ite (.test fun _ => reply == "y" || reply == "Y") p .skip

/-- `check_arch_linux` -/
def checkArchLinux (h : Host) : Sh State :=
  .call <| .ite (.not (.test fun _ => h.isArch)) (.exit 1) .skip

/-- `sudo pacman -S --needed --noconfirm` -/
def pacman (deps : List String) : String :=
  "sudo pacman -S --needed --noconfirm " ++ " ".intercalate deps

/-- The lists of `install_arch_dependencies`. -/
def coreDeps : List String := [
  "base-devel", "git", "wget", "curl", "gawk", "m4", "texinfo", "bison", "flex", "bc", "cpio",
  "dosfstools", "parted", "rsync", "unzip", "which", "pkg-config", "autoconf", "automake",
  "libtool", "patch", "python", "python-pip"]

def optionalDeps : List String :=
  ["ccache", "distcc", "ninja", "cmake", "meson", "llvm", "clang", "lld"]

def lfsDeps : List String := [
  "qemu-system-x86_64", "arch-install-scripts", "xorriso", "libisoburn", "squashfs-tools",
  "mtools", "syslinux"]

/-- `install_arch_dependencies` -/
def installArchDependencies (h : Host) : Sh State :=
  .call <| .block [
    run h (pacman coreDeps),
    run h (pacman lfsDeps),
    ask h "Install optional performance dependencies? (y/N): " (run h (pacman optionalDeps))]

/-- `create_arch_lfs_config` -/
def createArchLfsConfig (h : Host) : Sh State :=
  .call <| .cmd fun _ s => (h.status "cat > lfs-builder-arch.env",
    if h.status "cat > lfs-builder-arch.env" = 0 then { s with archEnv := true } else s)

/-- `install_aur_helper` -/
def installAurHelper (h : Host) : Sh State :=
  .call <| .block [
    .ite (.not (.test fun _ => h.hasCommand "git")) (run h (pacman ["git"])) .skip,
    .ite (.not (.test fun _ => h.hasCommand "base-devel")) (run h (pacman ["base-devel"])) .skip,
    -- Install yay
    run h "cd $temp_dir",
    run h "git clone https://aur.archlinux.org/yay.git",
    run h "cd yay",
    run h "makepkg -si --noconfirm",
    -- Cleanup
    run h "cd /",
    run h "rm -rf $temp_dir"]

/-- `[[ "$available_memory" -gt 8192 ]]` -/
def Host.hasMemory (h : Host) : Option Bool :=
  (Arith.eval h.expression h.totalMemory).compare (fun a b => a > b) (.value 8192)

/-- `optimize_arch_performance` -/
def optimizeArchPerformance (h : Host) : Sh State :=
  .call <| .block [
    -- Configure ccache
    .ite (.test fun _ => h.hasCommand "ccache")
      (.block [
        run h "ccache --set-config=max_size=5G",
        run h "ccache --set-config=compression=true",
        run h "ccache --set-config=compression_level=6",
        run h "ccache --set-config=cache_dir=$HOME/.ccache"])
      .skip,
    -- Configure tmpfs for build directory if enough RAM
    .ite (.compare h.hasMemory)
      (.ite (.not (.test fun _ => h.status "mountpoint -q /tmp/lfs-build" = 0))
        (.block [
          run h "sudo mkdir -p /tmp/lfs-build",
          run h "sudo mount -t tmpfs -o size=4G,nodev,nosuid,noexec tmpfs /tmp/lfs-build",
          .ite (.test fun _ => h.hasUser) (run h "sudo chown $USER:$USER /tmp/lfs-build")
            (.exit 1)])
        .skip)
      .skip]

/-- `[[ "$available_space" -lt 52428800 ]]` -/
def Host.lacksSpace (h : Host) : Option Bool :=
  (Arith.eval h.expression h.availableSpace).compare (fun a b => a < b) (.value 52428800)

/-- The commands of `run_arch_troubleshooting` whose failure is not looked at. -/
def diagnostics : List String := [
  "uname -a", "cat /etc/arch-release", "pacman --version", "df -h /", "free -h", "gcc --version",
  "which make", "make --version | head -n1"]

/-- `run_arch_troubleshooting` -/
def runArchTroubleshooting (h : Host) : Sh State :=
  .call <| .block [
    .forIn diagnostics (run h),
    .ite (.compare h.lacksSpace) .skip .skip]

/-- The actions of `main`. -/
inductive Action
  | setup
  | validate
  | optimize
  | troubleshoot
  deriving DecidableEq

/-- Why the loop over the options ends the script. -/
inductive Stop
  | help
  | unknown (option : String)
  deriving DecidableEq

/-- The loop over the arguments of `main`. -/
def parseArguments (action : Action) : List String → Except Stop Action
  | [] => .ok action
  | option :: args =>
    if option = "--validate" then parseArguments .validate args
    else if option = "--optimize" then parseArguments .optimize args
    else if option = "--troubleshoot" then parseArguments .troubleshoot args
    else if option = "--help" then .error .help
    else .error (.unknown option)

/-- The branches of `main` for its actions. -/
def perform (h : Host) : Action → Sh State
  | .setup => .block [
      installArchDependencies h,
      .zoom State.build (fun s t => { s with build := t })
        (ArchBuildEnv.configureArchBuildEnv h.meaning h.makepkgConf),
      createArchLfsConfig h,
      -- Install AUR helper if not present
      .ite (.not (.test fun _ => h.aurHelper?.isSome))
        (ask h "Install AUR helper (yay) for enhanced package management? (y/N): "
          (installAurHelper h))
        .skip,
      optimizeArchPerformance h]
  | .validate => .zoom (fun _ => {}) (fun s _ => s) (ArchSupport.validateArchSystem h.toHost)
  | .optimize => optimizeArchPerformance h
  | .troubleshoot => runArchTroubleshooting h

/-- `main` -/
def main (h : Host) (args : List String) : Sh State :=
  .call <| match parseArguments .setup args with
    | .error .help => .exit 0
    | .error (.unknown _) => .exit 1
    | .ok action => .block [checkArchLinux h, perform h action]

/-! ## When the actions are completed -/

variable {h : Host} {E I : State → Prop} {p : Sh State} {P : Prop}

/-- The script is answered a question, and an answer that agrees needs `P`. -/
def Host.Answers (h : Host) (question : String) (P : Prop) : Prop :=
  ∃ reply, h.reply question = some reply ∧ (reply = "y" ∨ reply = "Y" → P)

theorem proceeds_ask (hIE : ∀ s, I s → E s) (hp : Proceeds E I p P I) (question : String) :
    Proceeds E I (ask h question p) (h.Answers question P) I := by
  rw [ask, Host.Answers]
  cases h.reply question with
  | none =>
    refine .cmd (fun _ _ _ => ?_) (fun _ _ hI _ => hI) fun _ s hI _ => hIE s hI
    simp
  | some reply =>
    refine (Proceeds.ite hp .skip).congr ?_
    by_cases hreply : reply = "y" ∨ reply = "Y"
    · simp [hreply]
    · simp [hreply]

/-- What `install_arch_dependencies` needs. -/
structure Dependencies (h : Host) : Prop where
  core : h.status (pacman coreDeps) = 0
  lfs : h.status (pacman lfsDeps) = 0
  optional : h.Answers "Install optional performance dependencies? (y/N): "
    (h.status (pacman optionalDeps) = 0)

theorem proceeds_installArchDependencies (hIE : ∀ s, I s → E s) :
    Proceeds E I (installArchDependencies h) (Dependencies h) I := by
  refine (Proceeds.call <| .block_cons (.external hIE _) <| .block_cons (.external hIE _) <|
    .block_cons (proceeds_ask hIE (.external hIE _) _) .block_nil).congr ?_
  exact ⟨fun h => ⟨h.1, h.2.1, h.2.2.1⟩, fun h => ⟨h.1, h.2, h.3, trivial⟩⟩

/-- What `install_aur_helper` needs. -/
structure AurHelper (h : Host) : Prop where
  git : h.hasCommand "git" = false → h.status (pacman ["git"]) = 0
  baseDevel : h.hasCommand "base-devel" = false → h.status (pacman ["base-devel"]) = 0
  yay : ∀ x ∈ ["cd $temp_dir", "git clone https://aur.archlinux.org/yay.git", "cd yay",
    "makepkg -si --noconfirm", "cd /", "rm -rf $temp_dir"], h.status x = 0

theorem proceeds_installAurHelper (hIE : ∀ s, I s → E s) :
    Proceeds E I (installAurHelper h) (AurHelper h) I := by
  refine (Proceeds.call <| .block_cons (.ite_not (.external hIE _) .skip) <|
    .block_cons (.ite_not (.external hIE _) .skip) (.externals hIE ["cd $temp_dir",
      "git clone https://aur.archlinux.org/yay.git", "cd yay", "makepkg -si --noconfirm", "cd /",
      "rm -rf $temp_dir"])).congr ?_
  constructor
  · rintro ⟨hgit, hdevel, hyay⟩
    exact ⟨fun h => by rwa [h, if_neg Bool.false_ne_true] at hgit,
      fun h => by rwa [h, if_neg Bool.false_ne_true] at hdevel, hyay⟩
  · intro ha
    refine ⟨?_, ?_, ha.yay⟩
    · cases hc : h.hasCommand "git"
      · exact ha.git hc
      · trivial
    · cases hc : h.hasCommand "base-devel"
      · exact ha.baseDevel hc
      · trivial

/-- What `optimize_arch_performance` needs: where it has to make the file system, a user too. -/
structure Optimizes (h : Host) : Prop where
  ccache : h.hasCommand "ccache" = true → ∀ x ∈ ["ccache --set-config=max_size=5G",
    "ccache --set-config=compression=true", "ccache --set-config=compression_level=6",
    "ccache --set-config=cache_dir=$HOME/.ccache"], h.status x = 0
  memory : h.hasMemory ≠ none
  tmpfs : h.hasMemory = some true → h.status "mountpoint -q /tmp/lfs-build" ≠ 0 →
    h.hasUser = true ∧ ∀ x ∈ ["sudo mkdir -p /tmp/lfs-build",
      "sudo mount -t tmpfs -o size=4G,nodev,nosuid,noexec tmpfs /tmp/lfs-build",
      "sudo chown $USER:$USER /tmp/lfs-build"], h.status x = 0

theorem proceeds_optimizeArchPerformance (hIE : ∀ s, I s → E s) :
    Proceeds E I (optimizeArchPerformance h) (Optimizes h) I := by
  have hchown : Proceeds E I (.ite (.test fun _ => h.hasUser)
      (run h "sudo chown $USER:$USER /tmp/lfs-build") (.exit 1)) _ I :=
    .ite (.external hIE _) (.exit one_ne_zero hIE)
  refine (Proceeds.call <| .block_cons (.ite (.externals hIE [_, _, _, _]) .skip) <|
    .block_cons (.ite_compare (.ite_not (.block_cons (.external hIE _) <|
      .block_cons (.external hIE _) <| .block_cons hchown .block_nil) .skip) .skip hIE)
        .block_nil).congr ?_
  constructor
  · rintro ⟨hccache, htmpfs, -⟩
    refine ⟨fun hc => by rwa [hc, if_pos rfl] at hccache, fun hnone => ?_, fun hsome hmount => ?_⟩
    · rw [hnone] at htmpfs
      exact htmpfs
    · rw [hsome] at htmpfs
      simp only [Option.elim_some, if_true, hmount, decide_false, Bool.false_eq_true,
        if_false] at htmpfs
      obtain ⟨hmkdir, hmnt, hchown, -⟩ := htmpfs
      split at hchown
      · next huser => exact ⟨huser, by simp [hmkdir, hmnt, hchown]⟩
      · exact hchown.elim
  · intro ho
    refine ⟨?_, ?_, trivial⟩
    · split
      · next hc => exact ho.ccache hc
      · trivial
    · cases hm : h.hasMemory with
      | none => exact ho.memory hm
      | some t =>
        cases t
        · trivial
        · simp only [Option.elim_some, if_true, decide_eq_true_eq]
          split
          · trivial
          · next hmount =>
            obtain ⟨huser, hall⟩ := ho.tmpfs hm hmount
            simp only [List.forall_mem_cons] at hall
            exact ⟨hall.1, hall.2.1, by rw [if_pos huser]; exact hall.2.2.1, trivial⟩

/-- What `validate_arch_system` needs. -/
structure Validates (h : Host) : Prop where
  bc : h.hasCommand "bc" = true
  glibc : h.bcTest h.glibcVersion "2.31" = some true
  gcc : h.bcTest h.gccVersion "9.0" = some true
  space : h.spaceTest = some true
  memory : h.memoryTest.isSome

theorem proceeds_validateArchSystem :
    Proceeds (fun _ => True) (fun _ => True) (ArchSupport.validateArchSystem h.toHost)
      (Validates h) fun _ => True := by
  intro c Q s hc _ hok hbad
  by_cases hv : Validates h
  · obtain ⟨s', hrun⟩ := ArchSupport.validateArchSystem_passes_iff.2
      ⟨ArchSupport.versionTest_iff.2 ⟨hv.bc, hv.glibc⟩,
        ArchSupport.versionTest_iff.2 ⟨hv.bc, hv.gcc⟩, hv.space, hv.memory⟩
    exact (wp_of_eq hrun).2 (hok hv s' trivial)
  · -- However the function ends, its status is not zero.
    have hends : wp (ArchSupport.validateArchSystem h.toHost) c
        ⟨fun _ _ => True, fun _ => False, fun _ _ => False, fun n _ => n ≠ 0, fun _ => False⟩
        s := by
      have hfinish (n : ℕ) (s' : ArchSupport.State) : Post.finish c
          ⟨fun _ _ => True, fun _ => False, fun _ _ => False, fun n _ => n ≠ 0, fun _ => False⟩ n
          s' := by
        rw [Post.finish]
        split
        · trivial
        · next hn => exact fun h0 => hn (.inl h0)
      have helim {α : Type} (o : Option α) : (o.elim True fun _ => True) = True := by
        cases o <;> rfl
      simp only [ArchSupport.validateArchSystem, wp_call, wp_block_cons, wp_block_singleton,
        ArchSupport.wp_logLine, wp_assign, ArchSupport.wp_requireVersion, wp_ite_compare,
        wp_expand, wp_read, wp_ite_test, wp_ret, hfinish, ite_self, ne_eq, one_ne_zero,
        not_false_eq_true, helim]
    rcases hrun : ArchSupport.validateArchSystem h.toHost c s with ⟨n | _ | n | n | _, s'⟩
    · cases n with
      | zero =>
        obtain ⟨hglibc, hgcc, hspace, hmemory⟩ :=
          ArchSupport.validateArchSystem_passes_iff.1 ⟨s', hrun⟩
        rw [ArchSupport.versionTest_iff] at hglibc hgcc
        exact absurd ⟨hglibc.1, hglibc.2, hgcc.2, hspace, hmemory⟩ hv
      | succ n =>
        have hignored := ignored_of_call n.succ_ne_zero hrun
        exact absurd (hc.symm.trans hignored) Bool.false_ne_true
    · exact ((wp_of_eq hrun).1 hends).elim
    · exact ((wp_of_eq hrun).1 hends).elim
    · exact (wp_of_eq hrun).2 (hbad hv n s' ((wp_of_eq hrun).1 hends) trivial)
    · exact ((wp_of_eq hrun).1 hends).elim

/-- What `run_arch_troubleshooting` needs. -/
structure Diagnoses (h : Host) : Prop where
  commands : ∀ x ∈ diagnostics, h.status x = 0
  space : h.lacksSpace ≠ none

theorem proceeds_runArchTroubleshooting (hIE : ∀ s, I s → E s) :
    Proceeds E I (runArchTroubleshooting h) (Diagnoses h) I := by
  refine (Proceeds.call <| .block_cons (.forIn (.external hIE)) <|
    .block_cons (.ite_compare .skip .skip hIE) .block_nil).congr ?_
  have hspace : (h.lacksSpace.elim False fun t => if t then True else True) ↔
      h.lacksSpace ≠ none := by
    cases h.lacksSpace <;> simp
  rw [hspace]
  exact ⟨fun h => ⟨h.1, h.2.1⟩, fun h => ⟨h.1, h.2, trivial⟩⟩

/-- What the default action needs. -/
structure SetsUp (h : Host) : Prop where
  dependencies : Dependencies h
  makepkgConf : h.makepkgConf = none
  config : h.status "cat > lfs-builder-arch.env" = 0
  aurHelper : h.aurHelper?.isSome = false →
    h.Answers "Install AUR helper (yay) for enhanced package management? (y/N): " (AurHelper h)
  optimizes : Optimizes h

/-- The configuration is not made yet. -/
def NotMade (s : State) : Prop := s.archEnv = false

theorem proceeds_configure :
    Proceeds NotMade NotMade (.zoom State.build (fun s t => { s with build := t })
      (ArchBuildEnv.configureArchBuildEnv h.meaning h.makepkgConf)) (h.makepkgConf = none)
      NotMade := by
  suffices hbuild : Proceeds (fun _ => True) (fun _ => True)
      (ArchBuildEnv.configureArchBuildEnv h.meaning h.makepkgConf) (h.makepkgConf = none)
      fun _ => True from
    .zoom hbuild (fun _ _ => trivial) (fun _ _ hs _ => hs) fun _ _ hs _ => hs
  intro c Q s _ _ hok hbad
  cases hconf : h.makepkgConf with
  | none => exact hok hconf _ trivial
  | some lines =>
    refine wp_mono ArchBuildEnv.configureArchBuildEnv_exits (fun _ _ h => h.elim)
      (fun _ h => h.elim) (fun _ _ h => h.elim) (fun n s' hexit => ?_) fun _ h => h.elim
    exact hbad (by simp [hconf]) n s' (by rw [hexit.1]; exact one_ne_zero) trivial

theorem proceeds_createArchLfsConfig :
    Proceeds (fun _ => True) NotMade (createArchLfsConfig h)
      (h.status "cat > lfs-builder-arch.env" = 0) fun s => s.archEnv = true := by
  refine .call (.cmd (fun _ _ _ => Iff.rfl) (fun _ s _ hstatus => ?_) fun _ _ _ _ => trivial)
  dsimp only
  rw [if_pos hstatus]

/-- Up to the configuration of the build, the default action leaves no configuration. -/
theorem proceeds_setup (hE : ∀ s, NotMade s → E s) (hconf : h.makepkgConf ≠ none) :
    Proceeds E NotMade (perform h .setup) False fun _ => True := by
  have hstop : Proceeds E NotMade (.zoom State.build (fun s t => { s with build := t })
      (ArchBuildEnv.configureArchBuildEnv h.meaning h.makepkgConf)) False fun _ => True :=
    (proceeds_configure.mono hE (fun _ => id) fun _ _ => trivial).congr
      (iff_false_intro hconf)
  exact (Proceeds.block_cons (proceeds_installArchDependencies hE)
    (Proceeds.block_stop hstop)).congr (iff_of_eq (and_false _))

/-- What an action needs. -/
def Allows (h : Host) : Action → Prop
  | .setup => SetsUp h
  | .validate => Validates h
  | .optimize => Optimizes h
  | .troubleshoot => Diagnoses h

theorem proceeds_perform (action : Action) :
    Proceeds (fun _ => True) NotMade (perform h action) (Allows h action) fun _ => True := by
  have htrue : ∀ s, NotMade s → True := fun _ _ => trivial
  cases action with
  | setup =>
    refine (Proceeds.block_cons (proceeds_installArchDependencies htrue) <|
      .block_cons (proceeds_configure.mono htrue (fun _ => id) fun _ => id) <|
      .block_cons proceeds_createArchLfsConfig <|
      .block_cons (.ite_not (proceeds_ask (fun _ _ => trivial)
        (proceeds_installAurHelper fun _ _ => trivial) _) .skip) <|
      .block_cons (proceeds_optimizeArchPerformance fun _ _ => trivial)
        (Proceeds.block_nil.mono (fun _ => id) (fun _ => id) fun _ _ => trivial)).congr ?_
    constructor
    · rintro ⟨hdeps, hconf, hconfig, haur, hopt, -⟩
      exact ⟨hdeps, hconf, hconfig,
        fun h => by rwa [h, if_neg Bool.false_ne_true] at haur, hopt⟩
    · intro hs
      refine ⟨hs.dependencies, hs.makepkgConf, hs.config, ?_, hs.optimizes, trivial⟩
      cases ha : h.aurHelper?.isSome
      · exact hs.aurHelper ha
      · trivial
  | validate =>
    have hv : Proceeds (fun _ => True) NotMade (.zoom (fun _ => {}) (fun s _ => s)
        (ArchSupport.validateArchSystem h.toHost)) (Validates h) fun _ => True :=
      .zoom proceeds_validateArchSystem (fun _ _ => trivial) (fun _ _ _ _ => trivial)
        fun _ _ _ _ => trivial
    exact hv
  | optimize =>
    exact (proceeds_optimizeArchPerformance htrue).mono (fun _ => id) (fun _ => id)
      fun _ _ => trivial
  | troubleshoot =>
    exact (proceeds_runArchTroubleshooting htrue).mono (fun _ => id) (fun _ => id)
      fun _ _ => trivial

/-- What a run with the given arguments needs. -/
def Completes (h : Host) (args : List String) : Prop :=
  match parseArguments .setup args with
  | .error .help => True
  | .error (.unknown _) => False
  | .ok action => h.isArch = true ∧ Allows h action

theorem proceeds_checkArchLinux (hIE : ∀ s, I s → E s) :
    Proceeds E I (checkArchLinux h) (h.isArch = true) I := by
  refine (Proceeds.call (.ite_not (.exit one_ne_zero hIE) .skip)).congr ?_
  cases h.isArch <;> simp

/-- The status of a run with the given arguments. -/
def exitStatus (h : Host) (args : List String) : Option ℕ := (main h args Ctx.top {}).1.status?

/-- The script ends with the status zero exactly if the arguments stop the loop at `--help`, or
    the host is an Arch host, and allows the last action that they ask for. -/
theorem main_completes_iff (h : Host) (args : List String) :
    exitStatus h args = some 0 ↔ Completes h args := by
  rw [exitStatus, main, Completes]
  rcases parseArguments .setup args with (_ | option) | action
  · exact iff_of_true rfl trivial
  · exact iff_of_false (fun h => by cases h) id
  · have hp : Proceeds (fun _ => True) NotMade
        (.call (.block [checkArchLinux h, perform h action]))
        (h.isArch = true ∧ Allows h action ∧ True) fun _ => True :=
      .call (.block_cons (proceeds_checkArchLinux fun _ _ => trivial)
        (.block_cons (proceeds_perform action) .block_nil))
    have hnot : NotMade {} := rfl
    rw [hp.status_iff hnot, and_true]

/-- On a host with a configuration of makepkg, as pacman brings it, the default action never
    succeeds, and it makes no configuration: the here-document before it does not expand. -/
theorem main_setup_fails {h : Host} (hconf : h.makepkgConf ≠ none) :
    exitStatus h [] ≠ some 0 ∧ (main h [] Ctx.top {}).2.archEnv = false := by
  have hp : Proceeds NotMade NotMade (main h []) False fun _ => True :=
    (Proceeds.call (.block_cons (proceeds_checkArchLinux fun _ => id)
      (.block_stop (proceeds_setup (fun _ => id) hconf)))).congr (iff_of_eq (and_false _))
  have hnot : NotMade {} := rfl
  exact ⟨fun hs => (hp.status_iff hnot).1 hs, hp.leaves_not hnot id⟩

/-- An Arch host on which every command succeeds, and nothing is agreed to. -/
def archHost : Host where
  kernelVersion := "6.7.4-arch1-1"
  glibcVersion := "2.39"
  gccVersion := "13.2"
  availableSpace := "104857600"
  availableMemory := "8192"
  hasMultilib := false
  hasCommand := fun command => ["bc", "git", "yay"].contains command
  expression := fun _ => .error
  isArch := true
  status := fun _ => 0
  reply := fun _ => some "n"
  makepkgConf := some [ArchBuildEnv.assignment "CFLAGS".toList "-O2 -pipe".toList]
  meaning := ⟨fun _ => [], id, fun _ => []⟩
  totalMemory := "16384"
  hasUser := true

theorem main_setup_fails_arch :
    exitStatus archHost [] ≠ some 0 ∧ (main archHost [] Ctx.top {}).2.archEnv = false :=
  main_setup_fails (Option.some_ne_none _)

end LfsBuilder.ArchSetup
