import LfsBuilder.Scripts.ArchSetup
import LfsBuilder.Scripts.InstallOptions

/-!
# The installation

`main` of `install.sh` and the steps that it calls, over the statuses of the commands in
them; on an Arch host one of them is `scripts/arch-support.sh`. Messages are left out, what
only they use, and the texts of the wrapper scripts.

* `install_completes_iff`: when the installation ends with status zero, and where the file of
  the configuration is then;
* `install_arch_fails`: on an Arch host with a configuration of makepkg it never does, and
  nothing is written.
-/

namespace LfsBuilder.Install

open Text Shell HereDocument InstallConfiguration

/-- The host, with the outcomes of the probes and the statuses of the commands. Places are
    given by absolute paths; what is at them is meant once the repository is set up, but for
    the directories. -/
structure Host where
  /-- `$EUID -eq 0` -/
  isRoot : Bool
  /-- `$(uname -s)` is `Linux`. -/
  isLinux : Bool
  /-- The available kilobytes that df prints. -/
  availableSpace : String
  /-- The available megabytes that free prints. -/
  availableMemory : String
  /-- The value of a text that is not a numeral. -/
  expression : String → Arith
  /-- `command -v` -/
  onPath : String → Bool
  /-- The status of a command. -/
  status : String → ℕ
  isDir : Str → Bool
  isFile : Str → Bool
  /-- Whether a file can be opened to write to it. -/
  opens : Str → Bool
  /-- `/etc/arch-release` -/
  isArch : Bool
  /-- What `scripts/arch-support.sh` finds. -/
  support : ArchSetup.Host
  meaning : Meaning
  /-- `$HOME`, which is set: without it, the script ends at its first lines, for all arguments. -/
  home : Str
  /-- `$(nproc)` -/
  cores : Str
  /-- The working directory. -/
  cwd : Str

/-- The variables that the steps share, and the files that they write. -/
structure State where
  options : Options
  cwd : Str
  support : ArchSetup.State := {}
  configuration : Str → Option Str := fun _ => none
  scripts : List Str := []

/-- The place that a path means in a directory. -/
def resolve (cwd path : Str) : Str := if path.head? = some '/' then path else cwd ++ '/' :: path

/-- The place of `"$INSTALL_DIR"name`. -/
def State.place (s : State) (name : String) : Str :=
  resolve s.cwd (s.options.installDir ++ name.toList)

/-- A command with its status. -/
def run (h : Host) (command : String) : Sh State := .external h.status command

/-- `check_root` -/
def checkRoot (h : Host) : Sh State := .call <| .ite (.test fun _ => h.isRoot) (.exit 1) .skip

/-- `[[ "$available_space" -lt "$required_space" ]]`: 50GB in KB -/
def Host.lacksSpace (h : Host) : Option Bool :=
  (Arith.eval h.expression h.availableSpace).compare (fun a b => a < b) (.value 52428800)

/-- `[[ "$available_memory" -lt 4096 ]]` -/
def Host.lacksMemory (h : Host) : Option Bool :=
  (Arith.eval h.expression h.availableMemory).compare (fun a b => a < b) (.value 4096)

/-- `check_system_requirements` -/
def checkSystemRequirements (h : Host) : Sh State :=
  .call <| .block [
    .ite (.not (.test fun _ => h.isLinux)) (.exit 1) .skip,
    .ite (.compare h.lacksSpace) (.exit 1) .skip,
    .ite (.compare h.lacksMemory) .skip .skip]

/-- The package managers that `detect_package_manager` looks for. -/
inductive Manager
  | apt
  | dnf
  | yum
  | zypper
  | pacman
  deriving DecidableEq

/-- The command that shows a package manager. -/
def Manager.command : Manager → String
  | apt => "apt-get"
  | dnf => "dnf"
  | yum => "yum"
  | zypper => "zypper"
  | pacman => "pacman"

/-- `detect_package_manager`, unless it is unknown. -/
def Host.manager? (h : Host) : Option Manager :=
  [Manager.apt, .dnf, .yum, .zypper, .pacman].find? fun m => h.onPath m.command

/-- What all lists of packages have. -/
def commonPackages : String :=
  " bison flex gawk texinfo wget curl git bash binutils coreutils diffutils findutils gawk grep " ++
    "gzip m4 make patch sed tar texinfo "

/-- The commands of `install_system_dependencies` for a package manager. -/
def Manager.installs : Manager → List String
  | apt => ["sudo apt-get update",
      "sudo apt-get install -y build-essential" ++ commonPackages ++ "xz-utils"]
  | dnf => ["sudo dnf install -y @development-tools" ++ commonPackages ++ "xz"]
  | yum => ["sudo yum install -y @development-tools" ++ commonPackages ++ "xz"]
  | zypper => ["sudo zypper install -y patterns-devel-base-devel_basis" ++ commonPackages ++ "xz"]
  | pacman => ["sudo pacman -S --noconfirm base-devel" ++ commonPackages ++ "xz"]

/-- `install_system_dependencies` -/
def installSystemDependencies (h : Host) : Sh State :=
  .call <| h.manager?.elim (.exit 1) fun m => .block (m.installs.map (run h))

/-- `cd "$INSTALL_DIR"` -/
def changeDirectory (h : Host) : Sh State := .cmd fun _ s => (h.status "cd $INSTALL_DIR",
  if h.status "cd $INSTALL_DIR" = 0 then { s with cwd := resolve s.cwd s.options.installDir } else s)

/-- `setup_repository` -/
def setupRepository (h : Host) : Sh State :=
  .call <| .ite (.test fun s => h.isDir (s.place ""))
    (.ite (.test fun s => h.isDir (s.place "/.git"))
      (.block [changeDirectory h, run h "git pull origin main"])
      (.exit 1))
    (.block [run h "git clone $REPO_URL $INSTALL_DIR", changeDirectory h])

/-- `bash "$INSTALL_DIR/scripts/arch-support.sh"` -/
def runSupport (h : Host) : Sh State := .cmd fun _ s =>
  ((ArchSetup.exitStatus h.support []).getD 1,
    { s with support := (ArchSetup.main h.support [] Ctx.top {}).2 })

/-- `setup_arch_linux` -/
def setupArchLinux (h : Host) : Sh State :=
  .call <| .ite (.test fun _ => h.isArch)
    (.ite (.test fun s => h.isFile (s.place "/scripts/arch-support.sh"))
      (.block [
        runSupport h,
        run h "chmod +x $INSTALL_DIR/scripts/arch-support.sh",
        .ite (.test fun s => h.isFile (s.place "/scripts/arch-validation.sh"))
          (run h "chmod +x $INSTALL_DIR/scripts/arch-validation.sh")
          .skip])
      .skip)
    .skip

/-- The here-document of `create_configuration`. -/
def writeConfiguration (h : Host) : Sh State := .read fun s =>
  (createConfiguration h.meaning s.options).elim (.exit 1) fun text => .cmd fun _ s =>
    if h.opens (s.place "/lfs-builder.env") then
      (0, { s with configuration :=
        Function.update s.configuration (s.place "/lfs-builder.env") (some text) })
    else (1, s)

/-- `create_configuration` -/
def makeConfiguration (h : Host) : Sh State :=
  .call <| .block [
    writeConfiguration h,
    run h "mkdir -p $LFS_WORKSPACE",
    run h "mkdir -p $INSTALL_DIR/logs"]

/-- The scripts that `create_scripts` writes. -/
def wrappers : List String := ["/activate", "/lfs-validate", "/lfs-build", "/lfs-test", "/lfs-clean"]

/-- The here-document of a wrapper script. -/
def writeScript (h : Host) (name : String) : Sh State := .cmd fun _ s =>
  if h.opens (s.place name) then (0, { s with scripts := s.scripts ++ [s.place name] }) else (1, s)

/-- `create_scripts` -/
def createScripts (h : Host) : Sh State :=
  .call <| .block [
    .forIn wrappers (writeScript h),
    .forIn wrappers fun name => run h ("chmod +x $INSTALL_DIR" ++ name),
    .ite (.test fun s => h.isFile (s.place "/lfs-build.sh"))
      (run h "chmod +x $INSTALL_DIR/lfs-build.sh")
      .skip]

/-- `create_desktop_entry` -/
def createDesktopEntry (h : Host) : Sh State :=
  .call <| .ite (.test fun _ => h.onPath "xdg-desktop-menu")
    (.block [
      run h "mkdir -p $HOME/.local/share/applications",
      run h "cat > $HOME/.local/share/applications/auto-lfs-builder.desktop"])
    .skip

/-- The variables at the beginning of the script. -/
def defaults (h : Host) : Options where
  installDir := h.home ++ "/auto-lfs-builder".toList
  lfsWorkspace := h.home ++ "/lfs-workspace".toList
  buildProfile := "desktop_gnome".toList
  parallelJobs := h.cores

/-- `main`; `run_validation` and `display_instructions` have nothing but messages, and tests that
    nothing depends on. -/
def main (h : Host) (args : List Str) : Sh State :=
  .call <| match parseOptions (defaults h) args with
    | .error .help => .exit 0
    | .error _ => .exit 1
    | .ok o => .block [
        .assign fun s => { s with options := o },
        checkRoot h,
        checkSystemRequirements h,
        installSystemDependencies h,
        setupRepository h,
        setupArchLinux h,
        makeConfiguration h,
        createScripts h,
        createDesktopEntry h]

/-- A run of the script. -/
def install (h : Host) (args : List Str) : Flow × State :=
  main h args Ctx.top { options := defaults h, cwd := h.cwd }

/-! ## The steps -/

variable {h : Host} {o : Options} {cwd : Str} {E I : State → Prop}

/-- The place of `"$INSTALL_DIR"name` from a directory, with the options `o`. -/
def placeFrom (o : Options) (cwd : Str) (name : String) : Str :=
  resolve cwd (o.installDir ++ name.toList)

/-- The working directory once the repository is set up. -/
def Host.dir (h : Host) (o : Options) : Str := resolve h.cwd o.installDir

/-- The place of `"$INSTALL_DIR"name` once the repository is set up. -/
def Host.place (h : Host) (o : Options) (name : String) : Str := placeFrom o (h.dir o) name

/-- A path from `/` on means the same place everywhere. -/
theorem place_of_absolute (hroot : o.installDir.head? = some '/') (name : String) :
    h.place o name = o.installDir ++ name.toList := by
  rw [Host.place, placeFrom, resolve, List.head?_append, hroot]
  rfl

/-- Another path is followed twice: once to the repository, and from there again. -/
theorem place_of_relative (hne : o.installDir ≠ []) (hroot : o.installDir.head? ≠ some '/')
    (name : String) :
    h.place o name = h.cwd ++ '/' :: o.installDir ++ '/' :: (o.installDir ++ name.toList) := by
  obtain ⟨c, rest, hdir⟩ := List.exists_cons_of_ne_nil hne
  have hc : c ≠ '/' := by simpa [hdir] using hroot
  simp [Host.place, Host.dir, placeFrom, resolve, hdir, hc]

/-- A step is done with the options `o` in the directory `cwd`, and nothing is written yet. -/
structure At (o : Options) (cwd : Str) (s : State) : Prop where
  options : s.options = o
  cwd : s.cwd = cwd
  configuration : s.configuration = fun _ => none
  scripts : s.scripts = []

/-- Nothing is written. -/
def Unwritten (s : State) : Prop := s.configuration = (fun _ => none) ∧ s.scripts = []

theorem At.unwritten {s : State} (hs : At o cwd s) : Unwritten s := ⟨hs.configuration, hs.scripts⟩

theorem At.place {s : State} (hs : At o cwd s) (name : String) :
    s.place name = placeFrom o cwd name := by
  rw [State.place, hs.options, hs.cwd, placeFrom]

theorem At.place_dir {s : State} (hs : At o (h.dir o) s) (name : String) :
    s.place name = h.place o name := hs.place name

/-- What `check_system_requirements` needs. -/
structure Requirements (h : Host) : Prop where
  linux : h.isLinux = true
  space : h.lacksSpace = some false
  memory : h.lacksMemory ≠ none

theorem proceeds_checkRoot (hIE : ∀ s, I s → E s) :
    Proceeds E I (checkRoot h) (h.isRoot = false) I := by
  refine (Proceeds.call (.ite (.exit one_ne_zero hIE) .skip)).congr ?_
  cases h.isRoot <;> simp

theorem proceeds_checkSystemRequirements (hIE : ∀ s, I s → E s) :
    Proceeds E I (checkSystemRequirements h) (Requirements h) I := by
  refine (Proceeds.call <| .block_cons (.ite_not (.exit one_ne_zero hIE) .skip) <|
    .block_cons (.ite_compare (.exit one_ne_zero hIE) .skip hIE) <|
    .block_cons (.ite_compare .skip .skip hIE) .block_nil).congr ?_
  have hlinux : (if h.isLinux then True else False) ↔ h.isLinux = true := by
    cases h.isLinux <;> simp
  have hspace : (h.lacksSpace.elim False fun t => if t then False else True) ↔
      h.lacksSpace = some false := by
    rcases h.lacksSpace with _ | _ | _ <;> simp
  have hmemory : (h.lacksMemory.elim False fun t => if t then True else True) ↔
      h.lacksMemory ≠ none := by
    cases h.lacksMemory <;> simp
  rw [hlinux, hspace, hmemory]
  exact ⟨fun h => ⟨h.1, h.2.1, h.2.2.1⟩, fun h => ⟨h.1, h.2, h.3, trivial⟩⟩

theorem proceeds_installSystemDependencies (hIE : ∀ s, I s → E s) :
    Proceeds E I (installSystemDependencies h)
      (∃ m, h.manager? = some m ∧ ∀ x ∈ m.installs, h.status x = 0) I := by
  rw [installSystemDependencies]
  cases h.manager? with
  | none => exact (Proceeds.call (.exit one_ne_zero hIE)).congr (by simp)
  | some m => exact (Proceeds.call (.externals hIE m.installs)).congr (by simp)

/-- What `setup_repository` needs. -/
structure Repository (h : Host) (o : Options) : Prop where
  cd : h.status "cd $INSTALL_DIR" = 0
  git : h.isDir (placeFrom o h.cwd "") = true → h.isDir (placeFrom o h.cwd "/.git") = true
  pull : h.isDir (placeFrom o h.cwd "") = true → h.status "git pull origin main" = 0
  clone : h.isDir (placeFrom o h.cwd "") = false → h.status "git clone $REPO_URL $INSTALL_DIR" = 0

theorem proceeds_changeDirectory (hE : ∀ s, At o h.cwd s → E s) :
    Proceeds E (At o h.cwd) (changeDirectory h) (h.status "cd $INSTALL_DIR" = 0)
      (At o (h.dir o)) := by
  refine .cmd (fun _ _ _ => Iff.rfl) (fun _ s hs hstatus => ?_) fun _ s hs hstatus => ?_
  · dsimp only
    rw [if_pos hstatus]
    exact ⟨hs.options, by rw [Host.dir, hs.options, hs.cwd], hs.configuration, hs.scripts⟩
  · dsimp only
    rw [if_neg hstatus]
    exact hE s hs

theorem proceeds_setupRepository (hE : ∀ cwd s, At o cwd s → E s) :
    Proceeds E (At o h.cwd) (setupRepository h) (Repository h o) (At o (h.dir o)) := by
  have hcd := proceeds_changeDirectory (h := h) (hE h.cwd)
  refine (Proceeds.call <| .ite_eq (fun s hs => congrArg h.isDir (hs.place "")) (.ite_eq
    (fun s hs => congrArg h.isDir (hs.place "/.git"))
    (.block_cons hcd <| .block_cons (.external (hE _) _) .block_nil)
    (.exit one_ne_zero (hE _)))
    (.block_cons (.external (hE _) _) <| .block_cons hcd .block_nil)).congr ?_
  constructor
  · split
    · next hdir =>
      split
      · next hgit =>
        exact fun hp => ⟨hp.1, fun _ => hgit, fun _ => hp.2.1,
          fun h => absurd (hdir.symm.trans h) (by decide)⟩
      · exact False.elim
    · next hdir =>
      exact fun hp => ⟨hp.2.1, fun h => absurd h hdir, fun h => absurd h hdir, fun _ => hp.1⟩
  · intro hr
    split
    · next hdir =>
      rw [if_pos (hr.git hdir)]
      exact ⟨hr.cd, hr.pull hdir, trivial⟩
    · next hdir => exact ⟨hr.clone (by simpa using hdir), hr.cd, trivial⟩

/-- What `setup_arch_linux` needs. -/
structure ArchLinux (h : Host) (o : Options) : Prop where
  support : ArchSetup.Completes h.support []
  chmod : h.status "chmod +x $INSTALL_DIR/scripts/arch-support.sh" = 0
  chmodValidation : h.isFile (h.place o "/scripts/arch-validation.sh") = true →
    h.status "chmod +x $INSTALL_DIR/scripts/arch-validation.sh" = 0

theorem proceeds_runSupport (hE : ∀ s, At o cwd s → E s) :
    Proceeds E (At o cwd) (runSupport h) (ArchSetup.Completes h.support []) (At o cwd) := by
  have hat (s : State) (hs : At o cwd s) : At o cwd
      { s with support := (ArchSetup.main h.support [] Ctx.top {}).2 } :=
    ⟨hs.options, hs.cwd, hs.configuration, hs.scripts⟩
  refine .cmd (fun _ _ _ => ?_) (fun _ s hs _ => hat s hs) fun _ s hs _ => hE _ (hat s hs)
  rw [← ArchSetup.main_completes_iff]
  cases ArchSetup.exitStatus h.support [] <;> simp

theorem proceeds_setupArchLinux (hE : ∀ s, At o (h.dir o) s → E s) :
    Proceeds E (At o (h.dir o)) (setupArchLinux h)
      (h.isArch = true → h.isFile (h.place o "/scripts/arch-support.sh") = true → ArchLinux h o)
      (At o (h.dir o)) := by
  have hplace (name : String) (s : State) (hs : At o (h.dir o) s) :
      h.isFile (s.place name) = h.isFile (h.place o name) := congrArg h.isFile (hs.place_dir name)
  refine (Proceeds.call <| .ite (.ite_eq (hplace _)
    (.block_cons (proceeds_runSupport hE) <| .block_cons (.external hE _) <|
      .block_cons (.ite_eq (hplace _) (.external hE _) .skip) .block_nil) .skip) .skip).congr ?_
  cases harch : h.isArch
  · simp
  · rw [if_pos rfl]
    cases hfile : h.isFile (h.place o "/scripts/arch-support.sh")
    · simp
    · rw [if_pos rfl]
      constructor
      · rintro ⟨hsupport, hchmod, hvalid, -⟩ - -
        exact ⟨hsupport, hchmod, fun h => by rwa [if_pos h] at hvalid⟩
      · intro ha
        have ha := ha rfl rfl
        refine ⟨ha.support, ha.chmod, ?_, trivial⟩
        split
        · next hf => exact ha.chmodValidation hf
        · trivial

/-- The file of the configuration is written. -/
structure Configured (h : Host) (o : Options) (s : State) : Prop where
  options : s.options = o
  cwd : s.cwd = h.dir o
  file : s.configuration (h.place o "/lfs-builder.env") = createConfiguration h.meaning o

/-- What `create_configuration` needs. -/
structure Configuration (h : Host) (o : Options) : Prop where
  opens : h.opens (h.place o "/lfs-builder.env") = true
  workspace : h.status "mkdir -p $LFS_WORKSPACE" = 0
  logs : h.status "mkdir -p $INSTALL_DIR/logs" = 0

theorem proceeds_makeConfiguration :
    Proceeds (fun _ => True) (At o (h.dir o)) (makeConfiguration h) (Configuration h o)
      (Configured h o) := by
  have hwrite : Proceeds (fun _ => True) (At o (h.dir o)) (writeConfiguration h)
      (h.opens (h.place o "/lfs-builder.env") = true) (Configured h o) := by
    refine .read fun s hs => ?_
    rw [hs.options, createConfiguration_eq, Option.elim_some]
    refine .cmd (fun _ s hs => ?_) (fun _ s hs hopens => ?_) fun _ _ _ _ => trivial
    · rw [hs.place_dir]
      split <;> simp [*]
    · rw [hs.place_dir, if_pos hopens]
      exact ⟨hs.options, hs.cwd,
        (Function.update_self _ _ _).trans (createConfiguration_eq _ _).symm⟩
  refine (Proceeds.call <| .block_cons hwrite <| .block_cons (.external (fun _ _ => trivial) _) <|
    .block_cons (.external (fun _ _ => trivial) _) .block_nil).congr ?_
  exact ⟨fun h => ⟨h.1, h.2.1, h.2.2.1⟩, fun h => ⟨h.1, h.2, h.3, trivial⟩⟩

/-- What `create_scripts` needs. -/
structure Scripts (h : Host) (o : Options) : Prop where
  opens : ∀ name ∈ wrappers, h.opens (h.place o name) = true
  chmod : ∀ name ∈ wrappers, h.status ("chmod +x $INSTALL_DIR" ++ name) = 0
  chmodBuild : h.isFile (h.place o "/lfs-build.sh") = true →
    h.status "chmod +x $INSTALL_DIR/lfs-build.sh" = 0

theorem proceeds_createScripts :
    Proceeds (fun _ => True) (Configured h o) (createScripts h) (Scripts h o)
      (Configured h o) := by
  have hplace (name : String) (s : State) (hs : Configured h o s) :
      s.place name = h.place o name := by
    rw [State.place, hs.options, hs.cwd]
    rfl
  have hwrite (name : String) : Proceeds (fun _ => True) (Configured h o) (writeScript h name)
      (h.opens (h.place o name) = true) (Configured h o) := by
    refine .cmd (fun _ s hs => ?_) (fun _ s hs hopens => ?_) fun _ _ _ _ => trivial
    · rw [hplace name s hs]
      split <;> simp [*]
    · rw [hplace name s hs, if_pos hopens]
      exact ⟨hs.options, hs.cwd, hs.file⟩
  refine (Proceeds.call <| .block_cons (.forIn hwrite) <|
    .block_cons (.forIn fun _ => .external (fun _ _ => trivial) _) <|
    .block_cons (.ite_eq (fun s hs => congrArg h.isFile (hplace _ s hs))
      (.external (fun _ _ => trivial) _) .skip) .block_nil).congr ?_
  constructor
  · rintro ⟨hopens, hchmod, hbuild, -⟩
    exact ⟨hopens, hchmod, fun h => by rwa [if_pos h] at hbuild⟩
  · intro hs
    refine ⟨hs.opens, hs.chmod, ?_, trivial⟩
    split
    · next hf => exact hs.chmodBuild hf
    · trivial

/-- What `create_desktop_entry` needs. -/
def DesktopEntry (h : Host) : Prop :=
  h.onPath "xdg-desktop-menu" = true →
    h.status "mkdir -p $HOME/.local/share/applications" = 0 ∧
      h.status "cat > $HOME/.local/share/applications/auto-lfs-builder.desktop" = 0

theorem proceeds_createDesktopEntry (hIE : ∀ s, I s → E s) :
    Proceeds E I (createDesktopEntry h) (DesktopEntry h) I := by
  refine (Proceeds.call (.ite (.block_cons (.external hIE _) <|
    .block_cons (.external hIE _) .block_nil) .skip)).congr ?_
  rw [DesktopEntry]
  cases h.onPath "xdg-desktop-menu" <;> simp

/-! ## The installation -/

/-- What the installation needs, with the options `o`. -/
structure Installs (h : Host) (o : Options) : Prop where
  notRoot : h.isRoot = false
  requirements : Requirements h
  dependencies : ∃ m, h.manager? = some m ∧ ∀ x ∈ m.installs, h.status x = 0
  repository : Repository h o
  archLinux : h.isArch = true → h.isFile (h.place o "/scripts/arch-support.sh") = true →
    ArchLinux h o
  configuration : Configuration h o
  scripts : Scripts h o
  desktopEntry : DesktopEntry h

/-- What a run with the given arguments needs. -/
def Completes (h : Host) (args : List Str) : Prop :=
  match parseOptions (defaults h) args with
  | .error .help => True
  | .error _ => False
  | .ok o => Installs h o

/-- The state at the beginning. -/
def start (h : Host) : State := { options := defaults h, cwd := h.cwd }

/-- The steps of `main`, with the options `o`. -/
def steps (h : Host) (o : Options) : Sh State := .block [
  .assign fun s => { s with options := o }, checkRoot h, checkSystemRequirements h,
  installSystemDependencies h, setupRepository h, setupArchLinux h, makeConfiguration h,
  createScripts h, createDesktopEntry h]

theorem install_eq {args : List Str} (hargs : parseOptions (defaults h) args = .ok o) :
    install h args = Sh.call (steps h o) Ctx.top (start h) := by
  rw [install, main, hargs]
  rfl

theorem proceeds_options (o : Options) :
    Proceeds E (fun s => s = start h) (.assign fun s => { s with options := o }) True
      (At o h.cwd) :=
  .assign fun s hs => by
    subst hs
    exact ⟨rfl, rfl, rfl, rfl⟩

theorem proceeds_steps (h : Host) (o : Options) :
    Proceeds (fun _ => True) (fun s => s = start h) (steps h o) (Installs h o)
      (Configured h o) := by
  have htrue {I : State → Prop} : ∀ s, I s → True := fun _ _ => trivial
  refine (Proceeds.block_cons (proceeds_options o) <| .block_cons (proceeds_checkRoot htrue) <|
    .block_cons (proceeds_checkSystemRequirements htrue) <|
    .block_cons (proceeds_installSystemDependencies htrue) <|
    .block_cons (proceeds_setupRepository fun _ => htrue) <|
    .block_cons (proceeds_setupArchLinux htrue) <| .block_cons proceeds_makeConfiguration <|
    .block_cons proceeds_createScripts <| .block_cons (proceeds_createDesktopEntry htrue)
      .block_nil).congr ?_
  constructor
  · rintro ⟨-, hroot, hreq, hdeps, hrepo, harch, hconf, hscripts, hdesktop, -⟩
    exact ⟨hroot, hreq, hdeps, hrepo, harch, hconf, hscripts, hdesktop⟩
  · intro hi
    exact ⟨trivial, hi.notRoot, hi.requirements, hi.dependencies, hi.repository, hi.archLinux,
      hi.configuration, hi.scripts, hi.desktopEntry, trivial⟩

/-- The installation ends with the status zero exactly if the arguments stop the loop at `--help`,
    or the host has what each step needs; then the file of the configuration is at the place
    that its path means in the directory of the repository. -/
theorem install_completes_iff (h : Host) (args : List Str) :
    ((install h args).1.status? = some 0 ↔ Completes h args) ∧
      ∀ o, parseOptions (defaults h) args = .ok o → Installs h o →
        (install h args).2.configuration (h.place o "/lfs-builder.env") =
          createConfiguration h.meaning o := by
  refine ⟨?_, fun o hargs hi => ?_⟩
  · rw [Completes]
    cases hargs : parseOptions (defaults h) args with
    | error e =>
      rw [install, main, hargs]
      cases e with
      | help => exact iff_of_true rfl trivial
      | unbound => exact iff_of_false (fun h => by cases h) id
      | unknown option => exact iff_of_false (fun h => by cases h) id
    | ok o =>
      rw [install_eq hargs]
      exact (Proceeds.call (proceeds_steps h o)).status_iff rfl
  · rw [install_eq hargs]
    have hleaves := (Proceeds.call (proceeds_steps h o)).leaves (s := start h) rfl hi
    exact hleaves.file

/-- On an Arch host with a configuration of makepkg, an installation into a repository with
    `arch-support.sh` never succeeds, and leaves neither a configuration nor scripts. -/
theorem install_arch_fails {h : Host} {args : List Str} {o : Options}
    (hargs : parseOptions (defaults h) args = .ok o) (harch : h.isArch = true)
    (hfile : h.isFile (h.place o "/scripts/arch-support.sh") = true)
    (hconf : h.support.makepkgConf ≠ none) :
    (install h args).1.status? ≠ some 0 ∧ Unwritten (install h args).2 := by
  have hnot : ¬(h.isArch = true → h.isFile (h.place o "/scripts/arch-support.sh") = true →
      ArchLinux h o) := fun ha =>
    (ArchSetup.main_setup_fails hconf).1 ((ArchSetup.main_completes_iff _ _).2
      (ha harch hfile).support)
  have hun {cwd : Str} : ∀ s, At o cwd s → Unwritten s := fun _ => At.unwritten
  have hsteps : Proceeds Unwritten (fun s => s = start h) (steps h o) False fun _ => True :=
    (Proceeds.block_cons (proceeds_options o) <| .block_cons (proceeds_checkRoot hun) <|
      .block_cons (proceeds_checkSystemRequirements hun) <|
      .block_cons (proceeds_installSystemDependencies hun) <|
      .block_cons (proceeds_setupRepository fun _ => hun) <|
      .block_stop ((proceeds_setupArchLinux hun).congr (iff_false_intro hnot))).congr (by simp)
  rw [install_eq hargs]
  exact ⟨fun hs => ((Proceeds.call hsteps).status_iff rfl).1 hs,
    (Proceeds.call hsteps).leaves_not rfl id⟩

/-- An Arch host on which every command succeeds. -/
def archHost : Host where
  isRoot := false
  isLinux := true
  availableSpace := "104857600"
  availableMemory := "8192"
  expression := fun _ => .error
  onPath := fun command => command == "pacman"
  status := fun _ => 0
  isDir := fun _ => false
  isFile := fun _ => true
  opens := fun _ => true
  isArch := true
  support := ArchSetup.archHost
  meaning := ⟨fun _ => [], id, fun _ => []⟩
  home := "/home/lfs".toList
  cores := "8".toList
  cwd := "/home/lfs".toList

theorem install_arch_fails_arch :
    (install archHost []).1.status? ≠ some 0 ∧ Unwritten (install archHost []).2 :=
  install_arch_fails (o := defaults archHost) rfl rfl rfl (Option.some_ne_none _)

end LfsBuilder.Install
