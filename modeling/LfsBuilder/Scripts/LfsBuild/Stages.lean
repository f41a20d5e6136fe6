import LfsBuilder.Library.FileTree
import LfsBuilder.Scripts.LfsBuild.Download

/-!
# The build stages on the file tree

`main` of `lfs-build.sh`, over the directories and files that its commands look
for. Every command has a precondition on the tree, and the environment can make
any of them fail, or stop the script there, half done. Left out are the messages,
the arguments of the configure scripts, and what configure and make put into a
build directory, apart from what a later command needs.

* `Works`, `Adds`: what the commands of a package, and those before and after the
  stages, can do to the disk;
* `wp_main`: where every command succeeds that finds what it needs (`reliable`),
  the script reaches its end, unless it finds a directory that it means to make
  (`Left`);
* `main_resumes_iff`: a run after an aborted one reaches its end if and only if
  none of these directories is left.
-/

namespace LfsBuilder.LfsBuild.Stages

open Shell Coreutils FileTree

/-- The workspace, the target system, and what else there is. -/
inductive Root
  | workspace
  | lfs
  | elsewhere
  deriving DecidableEq

/-- `$LFS_WORKSPACE` -/
def workspace : Place Root := ⟨.workspace, []⟩

/-- `$LFS_WORKSPACE/sources` -/
def sources : Place Root := ⟨.workspace, ["sources"]⟩

/-- `$LFS` -/
def lfs : Place Root := ⟨.lfs, []⟩

/-- The directory that `build_core_tools` enters for a tarball: `"$name-$version"` -/
def toolDirectory (tool : String) : String := sedName tool ++ "-" ++ sedVersion tool

/-- A source archive: it unpacks to the directory `root`, with the files `needs`
    in it, and without a directory `build`. -/
structure Archive (root : String) (needs : List String) where
  tree : Tree
  root_mem : [root] ∈ tree .dir
  inside : ∀ k, ∀ names ∈ tree k, [root] <+: names
  needs_mem : ∀ name ∈ needs, [root, name] ∈ tree .file
  build_notMem : [root, "build"] ∉ tree .dir

/-- The machine: the settings of the script, the programs on its path, what is in
    the archives, and what `make install` puts into the target system. -/
structure Host where
  networkingEnabled : Bool
  gnomeEnabled : Bool
  createIso : Bool
  isoOutput : Place Root
  bootloaderCfg : Option (Place Root)
  docker : Bool
  availableSpace : ℕ
  hasCommand : String → Bool
  hasIsoCreator : Bool
  binutils : Archive "binutils-2.42" ["configure"]
  gcc : Archive "gcc-13.2.0" ["configure"]
  mpfr : Archive "mpfr-4.2.1" []
  gmp : Archive "gmp-6.3.0" []
  mpc : Archive "mpc-1.3.1" []
  linux : Archive "linux-6.7.4" ["Makefile"]
  glibc : Archive "glibc-2.39" ["configure"]
  tool : (tool : String) → Archive (toolDirectory tool) ["configure"]
  /-- What `make install` of a package adds to the target system. -/
  installed : String → Tree
  ldd_mem : ["usr", "bin", "ldd"] ∈ installed "glibc-2.39" .file

/-- What becomes of a command: it does what it can, or it fails with a part of
    its work done, or the script is stopped there. -/
inductive Outcome
  | ok
  | failed (status : ℕ) (reached : Kind → Place Root → Bool)
  | killed (reached : Kind → Place Root → Bool)

/-- What becomes of the successive commands of a run. -/
abbrev Env := ℕ → Outcome

/-- Every command does what it can. -/
def reliable : Env := fun _ => .ok

/-- The disk and the variables of the script. -/
structure State where
  disk : Disk Root
  cwd : Place Root
  clock : ℕ := 0
  phase : String := ""
  createIso : Bool := false

/-- The state after a command. -/
def State.tick (s : State) : State := { s with clock := s.clock + 1 }

/-- A command with the precondition `pre` on the disk. -/
def external (e : Env) (pre : State → Bool) (effect : State → State) : Sh State := fun c s =>
  match e s.clock with
  | .ok => if pre s then (.next 0, (effect s).tick) else (Sh.finish c 1, s.tick)
  | .failed status reached => (Sh.finish c (status + 1),
      { s with disk := s.disk.mix reached (effect s).disk }.tick)
  | .killed reached => (.exit 130, { s with disk := s.disk.mix reached (effect s).disk }.tick)

/-- `log_phase` -/
def logPhase (phase : String) : Sh State := .assign fun s => { s with phase }

/-- `cd place` -/
def cd (e : Env) (place : Place Root) : Sh State :=
  external e (fun s => s.disk .dir place) fun s => { s with cwd := place }

/-- `cd name` -/
def cdInto (e : Env) (name : String) : Sh State :=
  external e (fun s => s.disk .dir (s.cwd.child [name])) fun s =>
    { s with cwd := s.cwd.child [name] }

/-- `mkdir -v name` -/
def mkdir (e : Env) (name : String) : Sh State :=
  external e (fun s => !s.disk .dir (s.cwd.child [name])) fun s =>
    { s with disk := s.disk.add .dir (s.cwd.child [name]) }

/-- `mkdir -p place` -/
def mkdirs (e : Env) (place : Place Root) : Sh State :=
  external e (fun _ => true) fun s => { s with disk := s.disk.mkdirs place }

/-- `tar -xf path` -/
def tarExtract {root : String} {needs : List String} (e : Env) (archive : Archive root needs)
    (path : List String) : Sh State :=
  external e (fun s => s.disk .file (s.cwd.resolve path)) fun s =>
    { s with disk := s.disk.unpack s.cwd archive.tree }

/-- `rm -rf name` -/
def removeAll (e : Env) (name : String) : Sh State :=
  external e (fun _ => true) fun s => { s with disk := s.disk.remove (s.cwd.child [name]) }

/-- `mv -v name name'` -/
def move (e : Env) (name name' : String) : Sh State :=
  external e (fun s => s.disk .dir (s.cwd.child [name])) fun s =>
    { s with disk := s.disk.move (s.cwd.child [name]) (s.cwd.child [name']) }

/-- A redirection to a file: `> place` -/
def write (e : Env) (place : Place Root) : Sh State :=
  external e (fun s => s.disk .dir place.parent) fun s => { s with disk := s.disk.add .file place }

/-- A redirection to a file in the working directory: `> name` -/
def writeHere (e : Env) (name : String) : Sh State :=
  external e (fun s => s.disk .dir s.cwd) fun s =>
    { s with disk := s.disk.add .file (s.cwd.child [name]) }

/-- A program that reads the files and directories `needs`, and makes no others. -/
def program (e : Env) (needs : State → List (Kind × Place Root)) : Sh State :=
  external e (fun s => (needs s).all fun (k, p) => s.disk k p) id

/-- `../configure` or `./configure`, in a directory that gets a Makefile. -/
def configure (e : Env) (path : List String) : Sh State :=
  external e (fun s => s.disk .file (s.cwd.resolve path)) fun s =>
    { s with disk := s.disk.add .file (s.cwd.child ["Makefile"]) }

/-- `make`, and `make mrproper` -/
def make (e : Env) : Sh State := program e fun s => [(.file, s.cwd.child ["Makefile"])]

/-- `make_build` -/
def makeBuild (e : Env) : Sh State := .call (make e)

/-- `make install`, of the package `name` -/
def makeInstall (h : Host) (e : Env) (name : String) : Sh State :=
  external e (fun s => s.disk .file (s.cwd.child ["Makefile"])) fun s =>
    { s with disk := s.disk.unpack lfs (h.installed name) }

/-- The directory `usr/include` in a source tree. -/
def headers : Tree
  | .dir => [["usr"], ["usr", "include"]]
  | .file => []

/-- `make headers` -/
def makeHeaders (e : Env) : Sh State :=
  external e (fun s => s.disk .file (s.cwd.child ["Makefile"])) fun s =>
    { s with disk := s.disk.unpack s.cwd headers }

/-- `run_verbose make headers` -/
def runVerbose (p : Sh State) : Sh State := .call p

/-! ## The functions of the script -/

/-- The tools that `validate_environment` requires. -/
def requiredTools : List String :=
  ["bash", "bison", "flex", "gawk", "gcc", "make", "tar", "wget", "curl", "git"]

/-- The space that `validate_environment` requires, in KB. -/
def requiredSpace : ℕ := 52428800

/-- `validate_environment` -/
def validateEnvironment (h : Host) : Sh State :=
  .call <| .block [
    logPhase "Validating Build Environment",
    .ite (.test fun _ => h.docker) .skip
      (.ite (.test fun _ => h.availableSpace < requiredSpace) (.exit 1) .skip),
    .forIn requiredTools fun tool => .ite (.not (.test fun _ => h.hasCommand tool)) (.exit 1) .skip,
    .ite (.test fun s => s.createIso)
      (.ite (.test fun _ => !h.hasCommand "xorriso" && !h.hasCommand "genisoimage")
        (.assign fun s => { s with createIso := false }) .skip)
      .skip]

/-- `setup_lfs_environment` -/
def setupLfsEnvironment (e : Env) : Sh State :=
  .call <| .block [
    logPhase "Setting up LFS Environment",
    mkdirs e lfs,
    .forIn ["etc", "var", "usr", "tools", "home", "mnt", "proc", "sys", "dev"] fun name =>
      mkdirs e (lfs.child [name]),
    .forIn ["bin", "lib", "sbin"] fun name => mkdirs e (lfs.child ["usr", name]),
    .forIn ["log", "mail", "spool"] fun name => mkdirs e (lfs.child ["var", name]),
    mkdirs e (lfs.child ["etc", "sysconfig"]),
    mkdirs e (lfs.child ["usr", "share"]),
    write e (lfs.child ["usr", "share", "config.site"]),
    mkdirs e sources,
    cd e sources]

/-- `wget_download` -/
def wgetDownload (e : Env) (url : String) : Sh State :=
  .call <| external e (fun _ => true) fun s =>
    { s with disk := s.disk.add .file (s.cwd.child [basename url]) }

/-- `download_packages` -/
def downloadPackages (e : Env) : Sh State :=
  .call <| .block [
    logPhase "Downloading LFS Packages",
    cd e sources,
    .forIn packages fun url =>
      .ite (.not (.test fun s => s.disk .file (s.cwd.child [basename url])))
        (.ite (.not (wgetDownload e url)) (.exit 1) .skip)
        .skip]

/-- `build_cross_tools` -/
def buildCrossTools (h : Host) (e : Env) : Sh State :=
  .call <| .block [
    logPhase "Building Cross-Compilation Tools",
    cd e sources,
    tarExtract e h.binutils ["binutils-2.42.tar.xz"],
    cdInto e "binutils-2.42",
    mkdir e "build",
    cdInto e "build",
    configure e ["..", "configure"],
    makeBuild e,
    makeInstall h e "binutils-2.42",
    cd e sources,
    removeAll e "binutils-2.42",
    tarExtract e h.gcc ["gcc-13.2.0.tar.xz"],
    cdInto e "gcc-13.2.0",
    .orElse (tarExtract e h.mpfr ["..", "mpfr-4.2.1.tar.xz"]) .skip,
    .orElse (move e "mpfr-4.2.1" "mpfr") .skip,
    .orElse (tarExtract e h.gmp ["..", "gmp-6.3.0.tar.xz"]) .skip,
    .orElse (move e "gmp-6.3.0" "gmp") .skip,
    .orElse (tarExtract e h.mpc ["..", "mpc-1.3.1.tar.gz"]) .skip,
    .orElse (move e "mpc-1.3.1" "mpc") .skip,
    mkdir e "build",
    cdInto e "build",
    configure e ["..", "configure"],
    makeBuild e,
    makeInstall h e "gcc-13.2.0",
    cd e sources,
    removeAll e "gcc-13.2.0"]

/-- `build_kernel_headers` -/
def buildKernelHeaders (h : Host) (e : Env) : Sh State :=
  .call <| .block [
    logPhase "Building Linux Kernel Headers",
    cd e sources,
    tarExtract e h.linux ["linux-6.7.4.tar.xz"],
    cdInto e "linux-6.7.4",
    make e,
    runVerbose (makeHeaders e),
    program e fun s => [(.dir, s.cwd.child ["usr", "include"])],
    external e
      (fun s => s.disk .dir (s.cwd.child ["usr", "include"]) && s.disk .dir (lfs.child ["usr"]))
      fun s => { s with disk := s.disk.mkdirs (lfs.child ["usr", "include"]) },
    cd e sources,
    removeAll e "linux-6.7.4"]

/-- `build_glibc` -/
def buildGlibc (h : Host) (e : Env) : Sh State :=
  .call <| .block [
    logPhase "Building Glibc",
    cd e sources,
    tarExtract e h.glibc ["glibc-2.39.tar.xz"],
    cdInto e "glibc-2.39",
    mkdir e "build",
    cdInto e "build",
    writeHere e "configparms",
    configure e ["..", "configure"],
    makeBuild e,
    makeInstall h e "glibc-2.39",
    program e fun _ => [(.file, lfs.child ["usr", "bin", "ldd"])],
    cd e sources,
    removeAll e "glibc-2.39"]

/-- The list of `build_core_tools`. -/
def tools : List String := [
  "bash-5.2.21.tar.gz",
  "coreutils-9.4.tar.xz",
  "make-4.4.1.tar.gz",
  "sed-4.9.tar.xz",
  "tar-1.35.tar.xz",
  "gawk-5.3.0.tar.xz",
  "findutils-4.9.0.tar.xz",
  "grep-3.11.tar.xz",
  "gzip-1.13.tar.xz",
  "util-linux-2.41.1.tar.xz"]

/-- The body of the loop over the tools; the cases of `name` differ in the
    arguments of configure only. -/
def buildTool (h : Host) (e : Env) (tool : String) : Sh State :=
  .block [
    tarExtract e (h.tool tool) [tool],
    cdInto e (toolDirectory tool),
    configure e ["configure"],
    makeBuild e,
    makeInstall h e (toolDirectory tool),
    cd e sources,
    removeAll e (toolDirectory tool)]

/-- `build_core_tools` -/
def buildCoreTools (h : Host) (e : Env) : Sh State :=
  .call <| .block [
    logPhase "Building Core System Tools",
    cd e sources,
    .forIn tools (buildTool h e)]

/-- `configure_system` -/
def configureSystem (e : Env) : Sh State :=
  .call <| .block [
    logPhase "Configuring System",
    .forIn ["passwd", "group", "fstab", "hostname", "hosts"] fun name =>
      write e (lfs.child ["etc", name])]

/-- `install_networking` -/
def installNetworking (h : Host) (e : Env) : Sh State :=
  .call <| .ite (.test fun _ => h.networkingEnabled)
    (.block [
      logPhase "Installing Network Configuration",
      mkdirs e (lfs.child ["etc", "sysconfig"]),
      write e (lfs.child ["etc", "sysconfig", "ifconfig.eth0"]),
      write e (lfs.child ["etc", "resolv.conf"])])
    .skip

/-- `install_gnome` -/
def installGnome (h : Host) (e : Env) : Sh State :=
  .call <| .ite (.test fun _ => h.gnomeEnabled)
    (.block [
      logPhase "Installing GNOME Desktop (Basic Setup)",
      mkdirs e (lfs.child ["etc", "X11", "xorg.conf.d"]),
      mkdirs e (lfs.child ["usr", "share", "xsessions"]),
      write e (lfs.child ["usr", "share", "xsessions", "gnome.desktop"])])
    .skip

/-- `create_boot_config` -/
def createBootConfig (e : Env) : Sh State :=
  .call <| .block [
    logPhase "Creating Boot Configuration",
    mkdirs e (lfs.child ["boot"]),
    mkdirs e (lfs.child ["boot", "grub"]),
    write e (lfs.child ["boot", "grub", "grub.cfg"]),
    mkdirs e (lfs.child ["etc", "mkinitcpio.d"])]

/-- `finalize_system` -/
def finalizeSystem (e : Env) : Sh State :=
  .call <| .block [
    logPhase "Finalizing System",
    write e (lfs.child ["etc", "lfs-release"]),
    write e (lfs.child ["etc", "motd"]),
    program e fun _ => [(.file, lfs.child ["etc", "passwd"]), (.file, lfs.child ["etc", "group"])],
    program e fun _ => [(.file, lfs.child ["etc", "fstab"])]]

/-- `create_system_image` -/
def createSystemImage (e : Env) : Sh State :=
  .call <| .block [
    logPhase "Creating System Image",
    cd e lfs,
    write e (workspace.child ["lfs-system.tar.gz"])]

/-- "Check if we have a kernel", in `create_iso_image`. -/
def checkKernel (e : Env) (hasKernel : State → Bool) : Sh State :=
  .ite (.not (.test hasKernel))
    (.block [mkdirs e (lfs.child ["boot"]), write e (lfs.child ["boot", "kernel_info.txt"])])
    .skip

/-- "Copy bootloader configuration if provided", in `create_iso_image`. -/
def copyBootloaderCfg (h : Host) (e : Env) : Sh State :=
  match h.bootloaderCfg with
  | none => .skip
  | some cfg =>
    .ite (.test fun s => s.disk .file cfg)
      (.block [
        mkdirs e (lfs.child ["boot"]),
        .orElse
          (external e (fun s => s.disk .file cfg && s.disk .dir (lfs.child ["boot"])) fun s =>
            { s with disk := s.disk.add .file (lfs.child ["boot", cfg.path.getLastD ""]) })
          (.ret 1)])
      .skip

/-- "Create ISO using available tools", in `create_iso_image`. -/
def makeIso (h : Host) (e : Env) : Sh State :=
  .ite (.test fun _ => h.hasCommand "xorriso")
    (.orElse (write e h.isoOutput) (.ret 1))
    (.ite (.test fun _ => h.hasCommand "genisoimage")
      (.block [
        .orElse (write e h.isoOutput) (.ret 1),
        .ite (.test fun _ => h.hasCommand "isohybrid")
          (.orElse (program e fun _ => [(.file, h.isoOutput)]) .skip) .skip])
      (.ret 1))

/-- `create_iso_image` of `iso-creator.sh`, called with the target system as the
    build root; `hasKernel` says whether a file `boot/vmlinuz*` is there. -/
def createIsoImage (h : Host) (e : Env) (hasKernel : State → Bool) : Sh State :=
  .call <| .block [
    .ite (.not (.test fun s => s.disk .dir lfs)) (.ret 1) .skip,
    checkKernel e hasKernel,
    copyBootloaderCfg h e,
    mkdirs e h.isoOutput.parent,
    makeIso h e,
    .ite (.test fun s => s.disk .file h.isoOutput) (.ret 0) (.ret 1)]

/-- `create_bootable_iso` -/
def createBootableIso (h : Host) (e : Env) (hasKernel : State → Bool) : Sh State :=
  .call <| .ite (.test fun s => s.createIso)
    (.block [
      logPhase "Creating Bootable ISO",
      .ite (.test fun _ => h.hasIsoCreator) (createIsoImage h e hasKernel) .skip])
    .skip

/-- `main`, up to the message that the build is complete. -/
def main (h : Host) (e : Env) (hasKernel : State → Bool) : Sh State :=
  .call <| .block [
    .assign fun s => { s with createIso := h.createIso },
    validateEnvironment h,
    setupLfsEnvironment e,
    downloadPackages e,
    buildCrossTools h e,
    buildKernelHeaders h e,
    buildGlibc h e,
    buildCoreTools h e,
    configureSystem e,
    installNetworking h e,
    installGnome h e,
    createBootConfig e,
    finalizeSystem e,
    createSystemImage e,
    createBootableIso h e hasKernel,
    logPhase "Build Complete!"]

variable {h : Host} {c : Ctx} {Q : Post State} {s s' s'' : State} {name : String}
  {ps : List (Sh State)}

/-! ## Commands that succeed -/

theorem wp_external {pre : State → Bool} {effect : State → State} (hpre : pre s = true) :
    wp (external reliable pre effect) c Q s ↔ Q.next 0 (effect s).tick := by
  simp only [wp, external, reliable, hpre, ↓reduceIte]
  rfl

theorem wp_external_fails {pre : State → Bool} {effect : State → State} (hpre : pre s = false) :
    wp (external reliable pre effect) c Q s ↔ Q.finish c 1 s.tick := by
  simp only [wp, external, reliable, hpre, Bool.false_eq_true, ↓reduceIte]
  exact Post.at_finish

theorem wp_block_external {pre : State → Bool} {effect : State → State} (hpre : pre s = true)
    (hnext : wp (.block ps) c Q (effect s).tick) :
    wp (.block (external reliable pre effect :: ps)) c Q s :=
  wp_block_of_ok ((wp_external hpre).2 ⟨rfl, hnext⟩)

/-- What the commands of a package may do: below its source directory they change
    what they like, and to other trees they only add. -/
structure Works (name : String) (s s' : State) : Prop where
  same : ∀ k q, q.root = .workspace → ¬(sources.child [name]).Under q → s'.disk k q = s.disk k q
  grows : ∀ k q, q.root ≠ .workspace → s.disk k q = true → s'.disk k q = true
  createIso : s'.createIso = s.createIso

theorem Works.trans (hw : Works name s s') (hw' : Works name s' s'') : Works name s s'' :=
  ⟨fun k q hq hu => (hw'.same k q hq hu).trans (hw.same k q hq hu),
    fun k q hq hs => hw'.grows k q hq (hw.grows k q hq hs), hw'.createIso.trans hw.createIso⟩

/-- A change below the source directory alone. -/
theorem Works.of_sameOutside (hd : SameOutside (sources.child [name]) s.disk s'.disk)
    (hc : s'.createIso = s.createIso) : Works name s s' :=
  ⟨fun k q _ hu => hd k q hu, fun k q hq hs => by
    rw [hd k q fun hu => hq (hu.1.symm.trans rfl)]
    exact hs, hc⟩

/-- An addition to the target system. -/
theorem Works.of_grows (hroot : ∀ k q, q.root = .workspace → s'.disk k q = s.disk k q)
    (hgrows : ∀ k q, s.disk k q = true → s'.disk k q = true) (hc : s'.createIso = s.createIso) :
    Works name s s' :=
  ⟨fun k q hq _ => hroot k q hq, fun k q _ => hgrows k q, hc⟩

theorem unpack_lfs {t : Tree} (d : Disk Root) (k : Kind) (q : Place Root)
    (hq : q.root = .workspace) : d.unpack lfs t k q = d k q :=
  sameOutside_unpack k q fun hu => nomatch hu.1.trans hq

theorem mkdirs_lfs {names : List String} (d : Disk Root) (k : Kind) (q : Place Root)
    (hq : q.root = .workspace) : d.mkdirs (lfs.child names) k q = d k q := by
  have hu : ¬q.Under (lfs.child names) := fun hu => nomatch hq.symm.trans hu.1
  simp [Disk.mkdirs, hu]

/-- An archive is unpacked in its own directory. -/
theorem sameOutside_archive {root : String} {needs : List String} (a : Archive root needs)
    (p : Place Root) (d : Disk Root) : SameOutside (p.child [root]) d (d.unpack p a.tree) := by
  intro k q hq
  have hany : ((a.tree k).any fun names => p.child names = q) = false := by
    rw [List.any_eq_false]
    intro names hmem he
    obtain ⟨rest, rfl⟩ := a.inside k names hmem
    exact hq (of_decide_eq_true he ▸ ⟨rfl, by simp [Place.child]⟩)
  rw [Disk.unpack, hany, Bool.false_or]

/-- The commands of a package run in its source directory, where nothing is built yet. -/
structure Unpacked (name : String) (needs : List String) (s s' : State) : Prop where
  works : Works name s s'
  cwd : s'.cwd = sources.child [name]
  needs : ∀ n ∈ needs, s'.disk .file (sources.child [name, n]) = true
  build : s'.disk .dir (sources.child [name, "build"]) = s.disk .dir (sources.child [name, "build"])

theorem wp_unpack {needs : List String} {a : Archive name needs} {archive : String}
    (hcwd : s.cwd = sources) (harchive : s.disk .file (sources.child [archive]) = true)
    (hne : archive ≠ "..")
    (hnext : ∀ s', Unpacked name needs s s' → wp (.block ps) c Q s') :
    wp (.block (tarExtract reliable a [archive] :: cdInto reliable name :: ps)) c Q s := by
  obtain ⟨disk, cwd, clock, phase, createIso⟩ := s
  subst hcwd
  have hfile : disk .file (sources.resolve [archive]) = true := by
    simpa [Place.resolve, hne] using harchive
  have hdir : disk.unpack sources a.tree .dir (sources.child [name]) = true :=
    unpack_child a.root_mem
  refine wp_block_external hfile (wp_block_external hdir (hnext _ ⟨.of_sameOutside ?_ rfl, rfl,
    fun n hn => unpack_child (a.needs_mem n hn), unpack_child_of_notMem a.build_notMem⟩))
  exact sameOutside_archive a sources disk

/-- A separate build directory is made and entered, unless there is one. -/
theorem wp_enterBuild (hc : c.ignored = false) (hcwd : s.cwd = sources.child [name])
    (hexit : s.disk .dir (sources.child [name, "build"]) = true → ∀ s', Q.exit 1 s')
    (hnext : s.disk .dir (sources.child [name, "build"]) = false → ∀ s', Works name s s' →
      s'.cwd = sources.child [name, "build"] → s'.disk .dir s'.cwd = true →
      (∀ q, s'.disk .file q = s.disk .file q) → wp (.block ps) c Q s') :
    wp (.block (mkdir reliable "build" :: cdInto reliable "build" :: ps)) c Q s := by
  obtain ⟨disk, cwd, clock, phase, createIso⟩ := s
  subst hcwd
  by_cases hbuild : disk .dir (sources.child [name, "build"]) = true
  · have hpre : (!disk .dir (sources.child [name, "build"])) = false := by rw [hbuild]; rfl
    rw [mkdir, wp_block_cons]
    exact (wp_external_fails hpre).2 ((Post.finish_succ hc).2 (hexit hbuild _))
  · rw [Bool.not_eq_true] at hbuild
    have hpre : (!disk .dir (sources.child [name, "build"])) = true := by rw [hbuild]; rfl
    have hdir := add_self disk .dir (sources.child [name, "build"])
    refine wp_block_external hpre (wp_block_external hdir (hnext hbuild _
      (.of_sameOutside ?_ rfl) rfl hdir fun q => ?_))
    · exact sameOutside_add.mono (Place.under_child (sources.child [name]) ["build"])
    · simp [Disk.add, State.tick]

theorem wp_block_call_external {pre : State → Bool} {effect : State → State}
    (hpre : pre s = true) (hnext : wp (.block ps) c Q (effect s).tick) :
    wp (.block (.call (external reliable pre effect) :: ps)) c Q s := by
  refine wp_block_of_ok ?_
  rw [wp_call, wp_external hpre]
  exact (Post.finish_zero (c := c)).2 ⟨rfl, hnext⟩

theorem wp_block_program {needs : State → List (Kind × Place Root)}
    (hneeds : ∀ x ∈ needs s, s.disk x.1 x.2 = true) (hnext : wp (.block ps) c Q s.tick) :
    wp (.block (program reliable needs :: ps)) c Q s :=
  wp_block_external (List.all_eq_true.2 hneeds) hnext

theorem wp_block_makeBuild (hmake : s.disk .file (s.cwd.child ["Makefile"]) = true)
    (hnext : wp (.block ps) c Q s.tick) : wp (.block (makeBuild reliable :: ps)) c Q s :=
  wp_block_call_external (by simp [hmake]) hnext

/-- A package is configured, built and installed in its build directory. -/
theorem wp_install {path : List String} {package : String}
    (hcwd : (sources.child [name]).Under s.cwd)
    (hfile : s.disk .file (s.cwd.resolve path) = true)
    (hnext : ∀ s', Works name s s' →
      (∀ names ∈ h.installed package .file, s'.disk .file (lfs.child names) = true) →
      wp (.block ps) c Q s') :
    wp (.block (configure reliable path :: makeBuild reliable :: makeInstall h reliable package ::
      ps)) c Q s := by
  obtain ⟨disk, cwd, clock, phase, createIso⟩ := s
  have hmake := add_self disk .file (cwd.child ["Makefile"])
  refine wp_block_external hfile
    (wp_block_makeBuild hmake (wp_block_external hmake (hnext _ ?_ ?_)))
  · have hw : Works name ⟨disk, cwd, clock, phase, createIso⟩
        ⟨disk.add .file (cwd.child ["Makefile"]), cwd, clock, phase, createIso⟩ :=
      .of_sameOutside (sameOutside_add.mono (hcwd.trans (cwd.under_child _))) rfl
    exact hw.trans (.of_grows (unpack_lfs _) (fun k q => le_unpack) rfl)
  · exact fun names hn => unpack_child hn

/-- The source directory of a package is left and removed. -/
theorem wp_leave (hsources : s.disk .dir sources = true)
    (hnext : ∀ s', Works name s s' → s'.cwd = sources → wp (.block ps) c Q s') :
    wp (.block (cd reliable sources :: removeAll reliable name :: ps)) c Q s :=
  wp_block_external hsources (wp_block_external rfl
    (hnext _ (.of_sameOutside sameOutside_remove rfl) rfl))

theorem wp_block_attempt {pre : State → Bool} {effect : State → State}
    (hok : wp (.block ps) c Q (effect s).tick) (hfail : wp (.block ps) c Q s.tick) :
    wp (.block (.orElse (external reliable pre effect) .skip :: ps)) c Q s := by
  refine wp_block_of_ok (wp_orElse.2 ?_)
  rcases hpre : pre s with _ | _
  · exact (wp_external_fails hpre).2 ⟨rfl, hfail⟩
  · exact (wp_external hpre).2 ⟨rfl, hok⟩

/-- The archive `root` is unpacked in the source directory of `name` and renamed;
    whether that succeeds or not, nothing else changes. -/
theorem wp_bundle {root short : String} {needs : List String} {a : Archive root needs}
    {path : List String} (hcwd : s.cwd = sources.child [name])
    (hnext : ∀ s', Works name s s' → s'.cwd = sources.child [name] →
      (∀ k x, x ≠ root → x ≠ short →
        s'.disk k (sources.child [name, x]) = s.disk k (sources.child [name, x])) →
      wp (.block ps) c Q s') :
    wp (.block (.orElse (tarExtract reliable a path) .skip ::
      .orElse (move reliable root short) .skip :: ps)) c Q s := by
  -- The four ways in which the two commands can end.
  suffices h : ∀ d, d = s.disk ∨ d = s.disk.unpack s.cwd a.tree → ∀ d',
      d' = d ∨ d' = d.move (s.cwd.child [root]) (s.cwd.child [short]) → ∀ clock,
      wp (.block ps) c Q { s with disk := d', clock } by
    exact wp_block_attempt
      (wp_block_attempt (h _ (.inr rfl) _ (.inr rfl) _) (h _ (.inr rfl) _ (.inl rfl) _))
      (wp_block_attempt (h _ (.inl rfl) _ (.inr rfl) _) (h _ (.inl rfl) _ (.inl rfl) _))
  intro d hd d' hd' clock
  have hsame k r (hroot : ¬(sources.child [name, root]).Under r)
      (hshort : ¬(sources.child [name, short]).Under r) : d' k r = s.disk k r := by
    have hd : d k r = s.disk k r := by
      rcases hd with rfl | rfl
      · rfl
      · rw [hcwd]
        exact sameOutside_archive a (sources.child [name]) s.disk k r hroot
    rcases hd' with rfl | rfl
    · exact hd
    · rw [hcwd]
      exact (move_of_not_under hroot hshort).trans hd
  refine hnext _ (.of_sameOutside (fun k r hr => hsame k r (fun h => hr ?_) fun h => hr ?_) rfl)
    hcwd fun k x hroot hshort => hsame k _ ?_ ?_
  · exact (Place.under_child (sources.child [name]) [root]).trans h
  · exact (Place.under_child (sources.child [name]) [short]).trans h
  · exact fun h => hroot ((Place.under_child_singleton sources [name] root x).1 h).symm
  · exact fun h => hshort ((Place.under_child_singleton sources [name] short x).1 h).symm

/-! ## The stages of a second run -/

/-- What the stages need before they start, and keep. -/
structure Ready (s : State) : Prop where
  workspaceDir : s.disk .dir workspace = true
  sourcesDir : s.disk .dir sources = true
  archives : ∀ url ∈ packages, s.disk .file (sources.child [basename url]) = true
  system : ∀ names ∈ [[], ["etc"], ["usr"]], s.disk .dir (lfs.child names) = true

/-- The source directories of the packages are not named like an archive. -/
def PackageName (name : String) : Prop := name ∉ packages.map basename

theorem Ready.works (hr : Ready s) (hname : PackageName name) (hw : Works name s s') :
    Ready s' := by
  have hworkspace : ¬(sources.child [name]).Under workspace := by
    simp [Place.Under, Place.child, sources, workspace]
  have hsources : ¬(sources.child [name]).Under sources := by
    simp [Place.Under, Place.child, sources]
  refine ⟨?_, ?_, fun url hurl => ?_,
    fun names hn => hw.grows _ _ (fun h => by cases h) (hr.system names hn)⟩
  · rw [hw.same _ _ rfl hworkspace, hr.workspaceDir]
  · rw [hw.same _ _ rfl hsources, hr.sourcesDir]
  · have hu : ¬(sources.child [name]).Under (sources.child [basename url]) := fun hu =>
      hname ((Place.under_child_singleton sources [] name _).1 hu ▸ List.mem_map_of_mem hurl)
    rw [hw.same _ _ rfl hu, hr.archives url hurl]

/-- A package leaves the build directories of the others alone. -/
theorem Works.build {name' : String} (hw : Works name s s') (hne : name' ≠ name) :
    s'.disk .dir (sources.child [name', "build"]) =
      s.disk .dir (sources.child [name', "build"]) := by
  refine hw.same _ _ rfl fun hu => hne ?_
  simpa [Place.Under, Place.child, sources, eq_comm] using hu

theorem Ready.of_disk (hr : Ready s) (hd : s'.disk = s.disk) : Ready s' :=
  ⟨hd ▸ hr.workspaceDir, hd ▸ hr.sourcesDir, hd ▸ hr.archives, hd ▸ hr.system⟩

/-- A stage starts in the sources directory. -/
theorem wp_start {phase : String} (hr : Ready s)
    (hnext : ∀ s', s'.disk = s.disk → s'.createIso = s.createIso → s'.cwd = sources →
      wp (.block ps) c Q s') :
    wp (.block (logPhase phase :: cd reliable sources :: ps)) c Q s :=
  wp_block_of_ok ⟨rfl, wp_block_external hr.sourcesDir (hnext _ rfl rfl rfl)⟩

theorem wp_buildCrossTools (hc : c.ignored = false) (hr : Ready s)
    (hexit : s.disk .dir (sources.child ["binutils-2.42", "build"]) = true ∨
      s.disk .dir (sources.child ["gcc-13.2.0", "build"]) = true → ∀ s', Q.exit 1 s')
    (hnext : s.disk .dir (sources.child ["binutils-2.42", "build"]) = false →
      s.disk .dir (sources.child ["gcc-13.2.0", "build"]) = false → ∀ s', Ready s' →
      s'.createIso = s.createIso →
      s'.disk .dir (sources.child ["glibc-2.39", "build"]) =
        s.disk .dir (sources.child ["glibc-2.39", "build"]) → Q.next 0 s') :
    wp (buildCrossTools h reliable) c Q s := by
  have hbinutils : PackageName "binutils-2.42" := by
    rw [PackageName, packages_basename]
    decide
  have hgcc : PackageName "gcc-13.2.0" := by
    rw [PackageName, packages_basename]
    decide
  rw [buildCrossTools, wp_call]
  refine wp_start hr fun s₀ hd₀ hi₀ hcwd₀ => ?_
  have hr₀ := hr.of_disk hd₀
  -- Binutils
  refine wp_unpack hcwd₀ (hr₀.archives "https://ftp.gnu.org/gnu/binutils/binutils-2.42.tar.xz"
    (by decide)) (by decide) fun s₁ h₁ => ?_
  have hb₁ := h₁.build
  rw [hd₀] at hb₁
  refine wp_enterBuild hc h₁.cwd (fun hb => hexit (.inl (hb₁.symm.trans hb)))
    fun hb s₂ h₂ hcwd₂ _ hfile => ?_
  have hconf : s₂.disk .file (s₂.cwd.resolve ["..", "configure"]) = true := by
    rw [hcwd₂, hfile]
    exact h₁.needs "configure" (by decide)
  refine wp_install (hcwd₂ ▸ Place.under_child (sources.child ["binutils-2.42"]) ["build"]) hconf
    fun s₃ h₃ _ => ?_
  have hw₃ := (h₁.works.trans h₂).trans h₃
  refine wp_leave (hr₀.works hbinutils hw₃).sourcesDir fun s₄ h₄ hcwd₄ => ?_
  have hw₄ := hw₃.trans h₄
  have hr₄ := hr₀.works hbinutils hw₄
  -- GCC
  refine wp_unpack hcwd₄ (hr₄.archives "https://ftp.gnu.org/gnu/gcc/gcc-13.2.0/gcc-13.2.0.tar.xz"
    (by decide)) (by decide) fun s₅ h₅ => ?_
  refine wp_bundle h₅.cwd fun s₆ h₆ hcwd₆ hs₆ => ?_
  refine wp_bundle hcwd₆ fun s₇ h₇ hcwd₇ hs₇ => ?_
  refine wp_bundle hcwd₇ fun s₈ h₈ hcwd₈ hs₈ => ?_
  have hsame k x (hx : x ∈ ["build", "configure"]) :
      s₈.disk k (sources.child ["gcc-13.2.0", x]) =
        s₅.disk k (sources.child ["gcc-13.2.0", x]) := by
    simp only [List.mem_cons, List.not_mem_nil, or_false] at hx
    rcases hx with rfl | rfl <;>
      exact (hs₈ k _ (by decide) (by decide)).trans ((hs₇ k _ (by decide) (by decide)).trans
        (hs₆ k _ (by decide) (by decide)))
  have hb₈ : s₈.disk .dir (sources.child ["gcc-13.2.0", "build"]) =
      s.disk .dir (sources.child ["gcc-13.2.0", "build"]) := by
    rw [hsame _ _ (by decide), h₅.build, hw₄.build (by decide), hd₀]
  refine wp_enterBuild hc hcwd₈ (fun hb => hexit (.inr (hb₈.symm.trans hb)))
    fun hb' s₉ h₉ hcwd₉ _ hfile => ?_
  have hconf : s₉.disk .file (s₉.cwd.resolve ["..", "configure"]) = true := by
    rw [hcwd₉, hfile]
    exact (hsame .file _ (by decide)).trans (h₅.needs "configure" (by decide))
  refine wp_install (hcwd₉ ▸ Place.under_child (sources.child ["gcc-13.2.0"]) ["build"]) hconf
    fun s₁₀ h₁₀ _ => ?_
  have hw₁₀ := ((((h₅.works.trans h₆).trans h₇).trans h₈).trans h₉).trans h₁₀
  refine wp_leave (hr₄.works hgcc hw₁₀).sourcesDir fun s₁₁ h₁₁ _ => ?_
  have hw₁₁ := hw₁₀.trans h₁₁
  rw [wp_block_nil]
  refine (Post.finish_zero (c := c)).2
    (hnext (hb₁.symm.trans hb) (hb₈.symm.trans hb') s₁₁ (hr₄.works hgcc hw₁₁) ?_ ?_)
  · rw [hw₁₁.createIso, hw₄.createIso, hi₀]
  · rw [hw₁₁.build (by decide), hw₄.build (by decide), hd₀]

theorem wp_writeHere {file : String} (hdir : s.disk .dir s.cwd = true)
    (hnext : ∀ s', (∀ name, (sources.child [name]).Under s.cwd → Works name s s') →
      s'.cwd = s.cwd → (∀ k q, s.disk k q = true → s'.disk k q = true) → wp (.block ps) c Q s') :
    wp (.block (writeHere reliable file :: ps)) c Q s :=
  wp_block_external hdir (hnext _ (fun _ hu => .of_sameOutside
    (sameOutside_add.mono (hu.trans (Place.under_child _ _))) rfl) rfl fun _ _ h => le_add h)

/-- The headers are made in the source tree and copied to the target system. -/
theorem wp_headers (hcwd : s.cwd = sources.child [name])
    (hmake : s.disk .file (sources.child [name, "Makefile"]) = true)
    (husr : s.disk .dir (lfs.child ["usr"]) = true)
    (hnext : ∀ s', Works name s s' → wp (.block ps) c Q s') :
    wp (.block (make reliable :: runVerbose (makeHeaders reliable) ::
      (program reliable fun s => [(.dir, s.cwd.child ["usr", "include"])]) ::
      (external reliable
        (fun s => s.disk .dir (s.cwd.child ["usr", "include"]) && s.disk .dir (lfs.child ["usr"]))
        fun s => { s with disk := s.disk.mkdirs (lfs.child ["usr", "include"]) }) :: ps))
      c Q s := by
  obtain ⟨disk, cwd, clock, phase, createIso⟩ := s
  subst hcwd
  have hinclude : disk.unpack (sources.child [name]) headers .dir
      (sources.child [name, "usr", "include"]) = true :=
    @unpack_child Root _ disk (sources.child [name]) .dir headers ["usr", "include"] (by decide)
  have husr' : disk.unpack (sources.child [name]) headers .dir (lfs.child ["usr"]) = true :=
    le_unpack husr
  have hheaders : Works name ⟨disk, sources.child [name], clock, phase, createIso⟩
      ⟨disk.unpack (sources.child [name]) headers, sources.child [name], clock, phase, createIso⟩ :=
    .of_sameOutside sameOutside_unpack rfl
  refine wp_block_program (List.forall_mem_singleton.2 hmake) (wp_block_call_external hmake
    (wp_block_program (List.forall_mem_singleton.2 hinclude)
      (wp_block_external (Bool.and_eq_true_iff.2 ⟨hinclude, husr'⟩) (hnext _ ?_))))
  exact hheaders.trans (.of_grows (mkdirs_lfs _) (fun k q => le_mkdirs) rfl)

theorem wp_buildKernelHeaders (hr : Ready s)
    (hnext : ∀ s', Ready s' → s'.createIso = s.createIso →
      s'.disk .dir (sources.child ["glibc-2.39", "build"]) =
        s.disk .dir (sources.child ["glibc-2.39", "build"]) → Q.next 0 s') :
    wp (buildKernelHeaders h reliable) c Q s := by
  have hlinux : PackageName "linux-6.7.4" := by
    rw [PackageName, packages_basename]
    decide
  rw [buildKernelHeaders, wp_call]
  refine wp_start hr fun s₀ hd₀ hi₀ hcwd₀ => ?_
  have hr₀ := hr.of_disk hd₀
  refine wp_unpack hcwd₀ (hr₀.archives
    "https://cdn.kernel.org/pub/linux/kernel/v6.x/linux-6.7.4.tar.xz" (by decide)) (by decide)
    fun s₁ h₁ => ?_
  refine wp_headers h₁.cwd (h₁.needs "Makefile" (by decide))
    ((hr₀.works hlinux h₁.works).system ["usr"] (by decide)) fun s₂ h₂ => ?_
  have hw₂ := h₁.works.trans h₂
  refine wp_leave (hr₀.works hlinux hw₂).sourcesDir fun s₃ h₃ _ => ?_
  have hw₃ := hw₂.trans h₃
  rw [wp_block_nil]
  refine (Post.finish_zero (c := c)).2 (hnext s₃ (hr₀.works hlinux hw₃) ?_ ?_)
  · rw [hw₃.createIso, hi₀]
  · rw [hw₃.build (by decide), hd₀]

theorem wp_buildGlibc (hc : c.ignored = false) (hr : Ready s)
    (hexit : s.disk .dir (sources.child ["glibc-2.39", "build"]) = true → ∀ s', Q.exit 1 s')
    (hnext : s.disk .dir (sources.child ["glibc-2.39", "build"]) = false → ∀ s', Ready s' →
      s'.createIso = s.createIso → Q.next 0 s') :
    wp (buildGlibc h reliable) c Q s := by
  have hglibc : PackageName "glibc-2.39" := by
    rw [PackageName, packages_basename]
    decide
  rw [buildGlibc, wp_call]
  refine wp_start hr fun s₀ hd₀ hi₀ hcwd₀ => ?_
  have hr₀ := hr.of_disk hd₀
  refine wp_unpack hcwd₀ (hr₀.archives "https://ftp.gnu.org/gnu/glibc/glibc-2.39.tar.xz"
    (by decide)) (by decide) fun s₁ h₁ => ?_
  have hb₁ := h₁.build
  rw [hd₀] at hb₁
  refine wp_enterBuild hc h₁.cwd (fun hb => hexit (hb₁.symm.trans hb))
    fun hb s₂ h₂ hcwd₂ hdir hfile => ?_
  refine wp_writeHere hdir fun s₃ h₃ hcwd₃ hgrows => ?_
  have hw₃ := (h₁.works.trans h₂).trans (h₃ _ (hcwd₂ ▸
    Place.under_child (sources.child ["glibc-2.39"]) ["build"]))
  have hconf : s₃.disk .file (s₃.cwd.resolve ["..", "configure"]) = true := by
    rw [hcwd₃, hcwd₂]
    exact hgrows _ _ ((hfile _).trans (h₁.needs "configure" (by decide)))
  refine wp_install (hcwd₃ ▸ hcwd₂ ▸ Place.under_child (sources.child ["glibc-2.39"]) ["build"])
    hconf fun s₄ h₄ hinstalled => ?_
  refine wp_block_program (List.forall_mem_singleton.2 (hinstalled _ h.ldd_mem)) ?_
  have hw₄ := hw₃.trans h₄
  refine wp_leave (hr₀.works hglibc hw₄).sourcesDir fun s₅ h₅ _ => ?_
  have hw₅ := hw₄.trans ⟨h₅.same, h₅.grows, h₅.createIso⟩
  rw [wp_block_nil]
  refine (Post.finish_zero (c := c)).2 (hnext (hb₁.symm.trans hb) s₅ (hr₀.works hglibc hw₅) ?_)
  rw [hw₅.createIso, hi₀]

theorem tools_toolDirectory : tools.map toolDirectory = [
    "bash-5.2.21", "coreutils-9.4", "make-4.4.1", "sed-4.9", "tar-1.35", "gawk-5.3.0",
    "findutils-4.9.0", "grep-3.11", "gzip-1.13", "util-linux-2.41.1"] := by decide +kernel

/-- A tool has been downloaded, and its directory is not named like an archive. -/
theorem archive_of_mem_tools {tool : String} (ht : tool ∈ tools) :
    (∃ url ∈ packages, basename url = tool) ∧ tool ≠ ".." ∧ PackageName (toolDirectory tool) := by
  refine ⟨List.mem_map.1 ?_, ?_, fun hmem => ?_⟩
  · rw [packages_basename]
    revert tool
    decide +kernel
  · rintro rfl
    exact absurd ht (by decide)
  · have hdir : toolDirectory tool ∈ tools.map toolDirectory := List.mem_map_of_mem ht
    rw [tools_toolDirectory] at hdir
    rw [packages_basename] at hmem
    generalize toolDirectory tool = directory at hdir hmem
    revert directory
    decide +kernel

theorem wp_buildTool {tool : String} (ht : tool ∈ tools) (hr : Ready s) (hcwd : s.cwd = sources)
    (hnext : ∀ s', Ready s' → s'.cwd = sources → s'.createIso = s.createIso → Q.next 0 s') :
    wp (buildTool h reliable tool) c Q s := by
  obtain ⟨⟨url, hurl, hbase⟩, hne, hname⟩ := archive_of_mem_tools ht
  have harchive := hr.archives url hurl
  rw [hbase] at harchive
  refine wp_unpack hcwd harchive hne fun s₁ h₁ => ?_
  have hconf : s₁.disk .file (s₁.cwd.resolve ["configure"]) = true := by
    rw [h₁.cwd]
    exact h₁.needs "configure" (by decide)
  have hcwd₁ : (sources.child [toolDirectory tool]).Under s₁.cwd := by
    rw [h₁.cwd]
    exact Place.under_refl _
  refine wp_install hcwd₁ hconf fun s₂ h₂ _ => ?_
  have hw₂ := h₁.works.trans h₂
  refine wp_leave (hr.works hname hw₂).sourcesDir fun s₃ h₃ hcwd₃ => ?_
  have hw₃ := hw₂.trans h₃
  exact hnext s₃ (hr.works hname hw₃) hcwd₃ hw₃.createIso

theorem wp_buildCoreTools (hr : Ready s)
    (hnext : ∀ s', Ready s' → s'.createIso = s.createIso → Q.next 0 s') :
    wp (buildCoreTools h reliable) c Q s := by
  rw [buildCoreTools, wp_call]
  refine wp_start hr fun s₀ hd₀ hi₀ hcwd₀ => ?_
  rw [wp_block_singleton]
  refine wp_forIn_of_ok (fun rest s' => Ready s' ∧ s'.cwd = sources ∧
    s'.createIso = s.createIso ∧ ∀ tool ∈ rest, tool ∈ tools)
    (fun tool rest s₁ ⟨hr₁, hcwd₁, hi₁, hrest⟩ => ?_) (fun s₁ ⟨hr₁, _, hi₁, _⟩ => ?_)
    ⟨hr.of_disk hd₀, hcwd₀, hi₀, fun _ => id⟩
  · exact wp_buildTool (hrest tool List.mem_cons_self) hr₁ hcwd₁ fun s₂ hr₂ hcwd₂ hi₂ =>
      ⟨rfl, hr₂, hcwd₂, hi₂.trans hi₁, fun t ht => hrest t (List.mem_cons_of_mem _ ht)⟩
  · exact (Post.finish_zero (c := c)).2 (hnext s₁ hr₁ hi₁)

/-! ## Before and after the stages -/

/-- What the script does before and after the stages: it adds to the trees, but
    makes no build directory. -/
structure Adds (s s' : State) : Prop where
  grows : ∀ k q, s.disk k q = true → s'.disk k q = true
  build : ∀ name, s'.disk .dir (sources.child [name, "build"]) =
    s.disk .dir (sources.child [name, "build"])
  createIso : s'.createIso = s.createIso

theorem Adds.of_disk (hd : s'.disk = s.disk) (hc : s'.createIso = s.createIso) : Adds s s' :=
  ⟨fun _ _ h => hd ▸ h, fun _ => by rw [hd], hc⟩

theorem Adds.trans (ha : Adds s s') (ha' : Adds s' s'') : Adds s s'' :=
  ⟨fun k q h => ha'.grows k q (ha.grows k q h), fun name => (ha'.build name).trans (ha.build name),
    ha'.createIso.trans ha.createIso⟩

theorem Ready.adds (hr : Ready s) (ha : Adds s s') : Ready s' :=
  ⟨ha.grows _ _ hr.workspaceDir, ha.grows _ _ hr.sourcesDir,
    fun url hurl => ha.grows _ _ (hr.archives url hurl),
    fun names hn => ha.grows _ _ (hr.system names hn)⟩

theorem wp_block_mkdirs {place : Place Root} (hplace : place.root = .lfs ∨ place = sources)
    (hnext : ∀ s', Adds s s' → s'.cwd = s.cwd → (∀ q, q.Under place → s'.disk .dir q = true) →
      wp (.block ps) c Q s') :
    wp (.block (mkdirs reliable place :: ps)) c Q s := by
  refine wp_block_external rfl (hnext _ ⟨fun _ _ => le_mkdirs, fun name => ?_, rfl⟩ rfl
    fun _ => mkdirs_of_under)
  have hu : ¬(sources.child [name, "build"]).Under place := by
    rintro ⟨hroot, hpath⟩
    rcases hplace with hlfs | rfl
    · exact nomatch hroot.trans hlfs
    · simpa [sources, Place.child] using hpath.length_le
  simp [State.tick, Disk.mkdirs, hu]

theorem wp_block_write {place : Place Root} (hdir : s.disk .dir place.parent = true)
    (hnext : ∀ s', Adds s s' → s'.disk .file place = true → wp (.block ps) c Q s') :
    wp (.block (write reliable place :: ps)) c Q s :=
  wp_block_external hdir (hnext _
    ⟨fun _ _ h => le_add h, fun _ => by simp [State.tick, Disk.add], rfl⟩ (add_self _ _ _))

/-- A loop whose rounds make a place each has made all of them. -/
theorem wp_block_forIn {α : Type} {xs : List α} {p : α → Sh State} (k : Kind)
    (place : α → Place Root)
    (hp : ∀ x ∈ xs, ∀ s₁, Adds s s₁ → s₁.cwd = s.cwd → ∀ Q : Post State,
      (∀ s₂, Adds s₁ s₂ → s₂.cwd = s₁.cwd → s₂.disk k (place x) = true → Q.next 0 s₂) →
      wp (p x) c Q s₁)
    (hnext : ∀ s', Adds s s' → s'.cwd = s.cwd → (∀ x ∈ xs, s'.disk k (place x) = true) →
      wp (.block ps) c Q s') :
    wp (.block (.forIn xs p :: ps)) c Q s := by
  refine wp_block_of_ok (wp_forIn_of_ok (fun rest s' => Adds s s' ∧ s'.cwd = s.cwd ∧
    ∃ made, xs = made ++ rest ∧ ∀ x ∈ made, s'.disk k (place x) = true) ?_ ?_
    ⟨.of_disk rfl rfl, rfl, [], rfl, fun _ h => absurd h List.not_mem_nil⟩)
  · rintro x rest s₁ ⟨ha, hcwd, made, rfl, hmade⟩
    refine hp x (List.mem_append_right _ List.mem_cons_self) s₁ ha hcwd _ fun s₂ ha₂ hcwd₂ hx => ?_
    refine ⟨rfl, ha.trans ha₂, hcwd₂.trans hcwd, made ++ [x], by simp, fun y hy => ?_⟩
    rcases List.mem_append.1 hy with hy | hy
    · exact ha₂.grows _ _ (hmade y hy)
    · rwa [List.mem_singleton.1 hy]
  · rintro s₁ ⟨ha, hcwd, made, hxs, hmade⟩
    rw [List.append_nil] at hxs
    exact ⟨rfl, hnext s₁ ha hcwd (hxs ▸ hmade)⟩

theorem wp_validateEnvironment (hspace : h.docker = true ∨ requiredSpace ≤ h.availableSpace)
    (htools : ∀ tool ∈ requiredTools, h.hasCommand tool = true)
    (hnext : ∀ s', s'.disk = s.disk → (s'.createIso = true →
      h.hasCommand "xorriso" = true ∨ h.hasCommand "genisoimage" = true) → Q.next 0 s') :
    wp (validateEnvironment h) c Q s := by
  have hnext {s'} (hd : s'.disk = s.disk) (hi : s'.createIso = true →
      h.hasCommand "xorriso" = true ∨ h.hasCommand "genisoimage" = true) : Q.finish c 0 s' :=
    Post.finish_zero.2 (hnext s' hd hi)
  rw [validateEnvironment, wp_call]
  refine wp_block_of_ok ⟨rfl, wp_block_of_ok ?_⟩
  have hroom : ¬h.docker = true → ¬h.availableSpace < requiredSpace := fun hd =>
    Nat.not_lt.2 (hspace.resolve_left hd)
  simp only [wp_ite_test, wp_skip, decide_eq_true_eq]
  split_ifs with hdocker hlt
  rotate_left
  · exact absurd hlt (hroom hdocker)
  all_goals
    refine ⟨trivial, wp_block_of_ok (wp_forIn_of_ok (fun rest s' => s'.disk = s.disk ∧
      ∀ tool ∈ rest, tool ∈ requiredTools) ?_ ?_ ⟨rfl, fun _ => id⟩)⟩
    · rintro tool rest s' ⟨hd, hrest⟩
      simp only [wp_ite_not_test, htools tool (hrest tool List.mem_cons_self), ↓reduceIte, wp_skip]
      exact ⟨trivial, hd, fun t ht => hrest t (List.mem_cons_of_mem _ ht)⟩
    · rintro s' ⟨hd, _⟩
      refine ⟨rfl, ?_⟩
      simp only [wp_block_singleton, wp_ite_test, wp_assign, wp_skip]
      split_ifs with hi hnone
      · exact hnext hd fun h => by cases h
      · refine hnext hd fun _ => ?_
        simpa [or_iff_not_imp_left] using hnone
      · exact hnext hd fun h => absurd h hi

/-- A directory of the target system is made. -/
theorem wp_mkdirs_lfs {names : List String} 
    (hnext : ∀ s', Adds s s' → s'.cwd = s.cwd → s'.disk .dir (lfs.child names) = true →
      Q.next 0 s') : wp (mkdirs reliable (lfs.child names)) c Q s :=
  (wp_block_singleton (c := c)).1 (wp_block_mkdirs (.inl rfl) fun s' ha hcwd hd =>
    hnext s' ha hcwd (hd _ (Place.under_refl _)))

theorem wp_setupLfsEnvironment (hnext : ∀ s', Adds s s' → s'.disk .dir workspace = true →
      s'.disk .dir sources = true →
      (∀ names ∈ [[], ["etc"], ["usr"]], s'.disk .dir (lfs.child names) = true) → Q.next 0 s') :
    wp (setupLfsEnvironment reliable) c Q s := by
  rw [setupLfsEnvironment, wp_call]
  refine wp_block_of_ok ⟨rfl, ?_⟩
  refine wp_block_mkdirs (.inl rfl) fun s₁ h₁ _ hlfs => ?_
  refine wp_block_forIn .dir (fun name => lfs.child [name])
    (fun _ _ _ _ _ _ hQ => wp_mkdirs_lfs hQ) fun s₂ h₂ _ hdirs => ?_
  refine wp_block_forIn .dir (fun name => lfs.child ["usr", name])
    (fun _ _ _ _ _ _ hQ => wp_mkdirs_lfs hQ) fun s₃ h₃ _ _ => ?_
  refine wp_block_forIn .dir (fun name => lfs.child ["var", name])
    (fun _ _ _ _ _ _ hQ => wp_mkdirs_lfs hQ) fun s₄ h₄ _ _ => ?_
  refine wp_block_mkdirs (.inl rfl) fun s₅ h₅ _ _ => ?_
  refine wp_block_mkdirs (.inl rfl) fun s₆ h₆ _ hshare => ?_
  refine wp_block_write (hshare _ (Place.under_refl _)) fun s₇ h₇ _ => ?_
  refine wp_block_mkdirs (.inr rfl) fun s₈ h₈ _ hsources => ?_
  refine wp_block_external (hsources _ (Place.under_refl _)) ?_
  have ha₂ := ((((h₃.trans h₄).trans h₅).trans h₆).trans h₇).trans h₈
  have ha := (h₁.trans h₂).trans ha₂
  rw [wp_block_nil]
  refine (Post.finish_zero (c := c)).2 (hnext _ ⟨ha.grows, ha.build, ha.createIso⟩
    (hsources _ (by decide)) (hsources _ (by decide)) fun names hn => ?_)
  simp only [List.mem_cons, List.not_mem_nil, or_false] at hn
  rcases hn with rfl | rfl | rfl
  · exact (h₂.trans ha₂).grows _ _ (hlfs _ (by decide))
  · exact ha₂.grows _ _ (hdirs "etc" (by decide))
  · exact ha₂.grows _ _ (hdirs "usr" (by decide))

theorem wp_downloadPackages (hsources : s.disk .dir sources = true)
    (hnext : ∀ s', Adds s s' →
      (∀ url ∈ packages, s'.disk .file (sources.child [basename url]) = true) → Q.next 0 s') :
    wp (downloadPackages reliable) c Q s := by
  rw [downloadPackages, wp_call]
  refine wp_block_of_ok ⟨rfl, wp_block_external hsources ?_⟩
  refine wp_block_forIn .file (fun url => sources.child [basename url]) ?_
    fun s₁ h₁ _ hfiles => ?_
  · intro url hurl s₁ h₁ hcwd₁ Q' hQ
    have hcwd₁ : s₁.cwd = sources := hcwd₁
    simp only [wp_ite_not_test, wp_skip]
    split
    · next hfile =>
      rw [hcwd₁] at hfile
      exact hQ s₁ (.of_disk rfl rfl) rfl hfile
    · simp only [wp_ite, wp_not, wgetDownload, wp_call]
      rw [wp_external rfl]
      simp only [Post.finish_zero, ↓reduceIte, Nat.one_ne_zero, wp_skip]
      refine hQ _ ⟨fun _ _ h => le_add h, fun _ => by simp [State.tick, Disk.add], rfl⟩ rfl ?_
      rw [← hcwd₁]
      exact add_self _ _ _
  · exact (Post.finish_zero (c := c)).2 (hnext _ ⟨h₁.grows, h₁.build, h₁.createIso⟩ hfiles)

theorem wp_configureSystem (hetc : s.disk .dir (lfs.child ["etc"]) = true)
    (hnext : ∀ s', Adds s s' → (∀ name ∈ ["passwd", "group", "fstab", "hostname", "hosts"],
      s'.disk .file (lfs.child ["etc", name]) = true) → Q.next 0 s') :
    wp (configureSystem reliable) c Q s := by
  rw [configureSystem, wp_call]
  refine wp_block_of_ok ⟨rfl, wp_block_forIn .file (fun name => lfs.child ["etc", name])
    (fun name _ s₁ h₁ _ Q' hQ => ?_) fun s₁ h₁ _ hfiles => ?_⟩
  · refine (wp_external (h₁.grows .dir (lfs.child ["etc"]) hetc)).2 (hQ _ ?_ rfl (add_self _ _ _))
    exact ⟨fun _ _ h => le_add h, fun _ => by simp [State.tick, Disk.add], rfl⟩
  · exact (Post.finish_zero (c := c)).2 (hnext s₁ ⟨h₁.grows, h₁.build, h₁.createIso⟩ hfiles)

theorem wp_installNetworking (hnext : ∀ s', Adds s s' → Q.next 0 s') :
    wp (installNetworking h reliable) c Q s := by
  rw [installNetworking, wp_call, wp_ite_test]
  split
  · refine wp_block_of_ok ⟨rfl, wp_block_mkdirs (.inl rfl) fun s₁ h₁ _ hd => ?_⟩
    refine wp_block_write (hd _ (by decide)) fun s₂ h₂ _ => ?_
    refine wp_block_write (h₂.grows _ _ (hd _ (by decide))) fun s₃ h₃ _ => ?_
    have ha := (h₁.trans h₂).trans h₃
    exact (Post.finish_zero (c := c)).2 (hnext s₃ ⟨ha.grows, ha.build, ha.createIso⟩)
  · exact (Post.finish_zero (c := c)).2 (hnext s (.of_disk rfl rfl))

theorem wp_installGnome (hnext : ∀ s', Adds s s' → Q.next 0 s') :
    wp (installGnome h reliable) c Q s := by
  rw [installGnome, wp_call, wp_ite_test]
  split
  · refine wp_block_of_ok ⟨rfl, wp_block_mkdirs (.inl rfl) fun s₁ h₁ _ _ => ?_⟩
    refine wp_block_mkdirs (.inl rfl) fun s₂ h₂ _ hd => ?_
    refine wp_block_write (hd _ (by decide)) fun s₃ h₃ _ => ?_
    have ha := (h₁.trans h₂).trans h₃
    exact (Post.finish_zero (c := c)).2 (hnext s₃ ⟨ha.grows, ha.build, ha.createIso⟩)
  · exact (Post.finish_zero (c := c)).2 (hnext s (.of_disk rfl rfl))

theorem wp_createBootConfig (hnext : ∀ s', Adds s s' → Q.next 0 s') :
    wp (createBootConfig reliable) c Q s := by
  rw [createBootConfig, wp_call]
  refine wp_block_of_ok ⟨rfl, wp_block_mkdirs (.inl rfl) fun s₁ h₁ _ _ => ?_⟩
  refine wp_block_mkdirs (.inl rfl) fun s₂ h₂ _ hd => ?_
  refine wp_block_write (hd _ (by decide)) fun s₃ h₃ _ => ?_
  refine wp_block_mkdirs (.inl rfl) fun s₄ h₄ _ _ => ?_
  have ha := ((h₁.trans h₂).trans h₃).trans h₄
  exact (Post.finish_zero (c := c)).2 (hnext s₄ ⟨ha.grows, ha.build, ha.createIso⟩)

theorem wp_finalizeSystem (hetc : s.disk .dir (lfs.child ["etc"]) = true)
    (hfiles : ∀ name ∈ ["passwd", "group", "fstab", "hostname", "hosts"],
      s.disk .file (lfs.child ["etc", name]) = true)
    (hnext : ∀ s', Adds s s' → Q.next 0 s') : wp (finalizeSystem reliable) c Q s := by
  rw [finalizeSystem, wp_call]
  refine wp_block_of_ok ⟨rfl, wp_block_write hetc fun s₁ h₁ _ => ?_⟩
  refine wp_block_write (h₁.grows _ _ hetc) fun s₂ h₂ _ => ?_
  have ha := h₁.trans h₂
  refine wp_block_program (fun x hx => ?_) (wp_block_program (List.forall_mem_singleton.2 ?_) ?_)
  · simp only [List.mem_cons, List.not_mem_nil, or_false] at hx
    rcases hx with rfl | rfl
    · exact ha.grows _ _ (hfiles "passwd" (by decide))
    · exact ha.grows _ _ (hfiles "group" (by decide))
  · exact ha.grows _ _ (hfiles "fstab" (by decide))
  · exact (Post.finish_zero (c := c)).2 (hnext _ ⟨ha.grows, ha.build, ha.createIso⟩)

theorem wp_createSystemImage (hlfs : s.disk .dir lfs = true) (hw : s.disk .dir workspace = true)
    (hnext : ∀ s', Adds s s' → Q.next 0 s') : wp (createSystemImage reliable) c Q s := by
  rw [createSystemImage, wp_call]
  refine wp_block_of_ok ⟨rfl, wp_block_external hlfs (wp_block_write hw fun s₁ h₁ _ => ?_)⟩
  exact (Post.finish_zero (c := c)).2 (hnext _ ⟨h₁.grows, h₁.build, h₁.createIso⟩)

theorem wp_checkKernel {hasKernel : State → Bool} (hnext : ∀ s', Q.next 0 s') :
    wp (checkKernel reliable hasKernel) c Q s := by
  rw [checkKernel, wp_ite_not_test]
  split
  · exact hnext s
  · refine wp_block_mkdirs (.inl rfl) fun s₁ _ _ hd => ?_
    exact wp_block_write (hd _ (by decide)) fun s₂ _ _ => hnext s₂

theorem wp_copyBootloaderCfg (hnext : ∀ s', Q.next 0 s') :
    wp (copyBootloaderCfg h reliable) c Q s := by
  unfold copyBootloaderCfg
  split
  · exact hnext s
  · next cfg _ =>
    rw [wp_ite_test]
    split
    · next hcfg =>
      refine wp_block_mkdirs (.inl rfl) fun s₁ h₁ _ hd => ?_
      rw [wp_block_singleton]
      have hpre : (s₁.disk .file cfg && s₁.disk .dir (lfs.child ["boot"])) = true :=
        Bool.and_eq_true_iff.2 ⟨h₁.grows _ _ hcfg, hd _ (Place.under_refl _)⟩
      exact wp_orElse.2 ((wp_external hpre).2 (hnext _))
    · exact hnext s

/-- The image is written by the first tool there is. -/
theorem wp_makeIso (hdir : s.disk .dir h.isoOutput.parent = true)
    (htool : h.hasCommand "xorriso" = true ∨ h.hasCommand "genisoimage" = true)
    (hnext : ∀ s', s'.disk .file h.isoOutput = true → Q.next 0 s') :
    wp (makeIso h reliable) c Q s := by
  have hwrite {Q : Post State} (hQ : ∀ s', s'.disk .file h.isoOutput = true → Q.next 0 s') :
      wp (.orElse (write reliable h.isoOutput) (.ret 1)) c Q s :=
    wp_orElse.2 ((wp_external hdir).2 (hQ _ (add_self _ _ _)))
  rw [makeIso, wp_ite_test]
  split
  · exact hwrite hnext
  · next hx =>
    rw [wp_ite_test, if_pos (htool.resolve_left hx)]
    refine wp_block_of_ok (hwrite fun s₁ hfile => ⟨rfl, ?_⟩)
    rw [wp_block_singleton, wp_ite_test]
    split
    · exact wp_orElse.2 ((wp_external (by simp [hfile])).2 (hnext _ hfile))
    · exact hnext s₁ hfile

theorem wp_createIsoImage {hasKernel : State → Bool} (hlfs : s.disk .dir lfs = true)
    (htool : h.hasCommand "xorriso" = true ∨ h.hasCommand "genisoimage" = true)
    (hnext : ∀ s', Q.next 0 s') : wp (createIsoImage h reliable hasKernel) c Q s := by
  rw [createIsoImage, wp_call]
  refine wp_block_of_ok ?_
  rw [wp_ite_not_test, if_pos hlfs]
  refine ⟨rfl, wp_block_of_ok (wp_checkKernel fun s₁ => ⟨rfl, wp_block_of_ok
    (wp_copyBootloaderCfg fun s₂ => ⟨rfl, wp_block_external rfl (wp_block_of_ok
      (wp_makeIso (mkdirs_of_under (Place.under_refl _)) htool fun s₃ hfile => ⟨rfl, ?_⟩))⟩)⟩)⟩
  rw [wp_block_singleton, wp_ite_test, if_pos hfile]
  exact (Post.finish_zero (c := c)).2 (hnext _)

theorem wp_createBootableIso {hasKernel : State → Bool} (hlfs : s.disk .dir lfs = true)
    (hiso : s.createIso = true → h.hasCommand "xorriso" = true ∨ h.hasCommand "genisoimage" = true)
    (hnext : ∀ s', Q.next 0 s') : wp (createBootableIso h reliable hasKernel) c Q s := by
  rw [createBootableIso, wp_call, wp_ite_test]
  split
  · next hc =>
    refine wp_block_of_ok ⟨rfl, ?_⟩
    rw [wp_block_singleton, wp_ite_test]
    split
    · exact wp_createIsoImage hlfs (hiso hc) fun s' => (Post.finish_zero (c := c)).2 (hnext s')
    · exact (Post.finish_zero (c := c)).2 (hnext _)
  · exact (Post.finish_zero (c := c)).2 (hnext _)

/-- A build directory that the stages mean to make is there already. -/
def Left (d : Disk Root) : Prop :=
  ∃ name ∈ ["binutils-2.42", "gcc-13.2.0", "glibc-2.39"],
    d .dir (sources.child [name, "build"]) = true

/-- What the machine must have for the script to start at all. -/
structure Equipped (h : Host) : Prop where
  space : h.docker = true ∨ requiredSpace ≤ h.availableSpace
  tools : ∀ tool ∈ requiredTools, h.hasCommand tool = true

/-- Where every command succeeds that finds what it needs, the script fails if it
    finds a build directory, and otherwise reaches its end. -/
theorem wp_main {hasKernel : State → Bool} (hh : Equipped h) (hc : c.ignored = false)
    (hexit : Left s.disk → ∀ s', Q.exit 1 s') (hnext : ¬Left s.disk → ∀ s', Q.next 0 s') :
    wp (main h reliable hasKernel) c Q s := by
  rw [main, wp_call]
  refine wp_block_of_ok ⟨rfl, ?_⟩
  refine wp_block_of_ok (wp_validateEnvironment hh.space hh.tools fun s₁ hd₁ hiso => ⟨rfl, ?_⟩)
  refine wp_block_of_ok (wp_setupLfsEnvironment fun s₂ h₂ hworkspace hsources hsystem => ⟨rfl, ?_⟩)
  refine wp_block_of_ok (wp_downloadPackages hsources fun s₃ h₃ harchives => ⟨rfl, ?_⟩)
  have hr₃ : Ready s₃ := ⟨h₃.grows _ _ hworkspace, h₃.grows _ _ hsources, harchives,
    fun names hn => h₃.grows _ _ (hsystem names hn)⟩
  have hb₃ name : s₃.disk .dir (sources.child [name, "build"]) =
      s.disk .dir (sources.child [name, "build"]) := by
    rw [h₃.build, h₂.build, hd₁]
  refine wp_block_of_ok (wp_buildCrossTools hc hr₃ (fun hb => ?_)
    fun hbinutils hgcc s₄ hr₄ hi₄ hb₄ => ⟨rfl, ?_⟩)
  · rw [hb₃, hb₃] at hb
    rcases hb with hb | hb
    · exact hexit ⟨"binutils-2.42", by decide, hb⟩
    · exact hexit ⟨"gcc-13.2.0", by decide, hb⟩
  refine wp_block_of_ok (wp_buildKernelHeaders hr₄ fun s₅ hr₅ hi₅ hb₅ => ⟨rfl, ?_⟩)
  have hb₅' : s₅.disk .dir (sources.child ["glibc-2.39", "build"]) =
      s.disk .dir (sources.child ["glibc-2.39", "build"]) := by
    rw [hb₅, hb₄, hb₃]
  refine wp_block_of_ok (wp_buildGlibc hc hr₅ (fun hb => hexit ⟨"glibc-2.39", by decide, hb₅' ▸ hb⟩)
    fun hglibc s₆ hr₆ hi₆ => ⟨rfl, ?_⟩)
  have hleft : ¬Left s.disk := by
    rintro ⟨name, hname, hb⟩
    simp only [List.mem_cons, List.not_mem_nil, or_false] at hname
    rcases hname with rfl | rfl | rfl
    · exact absurd hb (by rw [← hb₃, hbinutils]; decide)
    · exact absurd hb (by rw [← hb₃, hgcc]; decide)
    · exact absurd hb (by rw [← hb₅', hglibc]; decide)
  refine wp_block_of_ok (wp_buildCoreTools hr₆ fun s₇ hr₇ hi₇ => ⟨rfl, ?_⟩)
  -- From here on nothing can fail.
  have hetc := hr₇.system ["etc"] (by decide)
  refine wp_block_of_ok (wp_configureSystem hetc fun s₈ h₈ hfiles => ⟨rfl, ?_⟩)
  refine wp_block_of_ok (wp_installNetworking fun s₉ h₉ => ⟨rfl, ?_⟩)
  refine wp_block_of_ok (wp_installGnome fun s₁₀ h₁₀ => ⟨rfl, ?_⟩)
  refine wp_block_of_ok (wp_createBootConfig fun s₁₁ h₁₁ => ⟨rfl, ?_⟩)
  have ha₁₁ := (h₉.trans h₁₀).trans h₁₁
  have hr₁₁ := hr₇.adds (h₈.trans ha₁₁)
  refine wp_block_of_ok (wp_finalizeSystem (hr₁₁.system ["etc"] (by decide))
    (fun name hn => ha₁₁.grows _ _ (hfiles name hn)) fun s₁₂ h₁₂ => ⟨rfl, ?_⟩)
  have hr₁₂ := hr₁₁.adds h₁₂
  refine wp_block_of_ok (wp_createSystemImage (hr₁₂.system [] (by decide)) hr₁₂.workspaceDir
    fun s₁₃ h₁₃ => ⟨rfl, ?_⟩)
  have hi₁₃ : s₁₃.createIso = s₁.createIso := by
    rw [h₁₃.createIso, h₁₂.createIso, ha₁₁.createIso, h₈.createIso, hi₇, hi₆, hi₅, hi₄,
      h₃.createIso, h₂.createIso]
  refine wp_block_of_ok (wp_createBootableIso ((hr₁₂.adds h₁₃).system [] (by decide))
    (hi₁₃ ▸ hiso) fun s₁₄ => ⟨rfl, ?_⟩)
  exact (Post.finish_zero (c := c)).2 (hnext hleft _)

/-! ## A run after an aborted one -/

/-- The state at the start of a run. -/
def start (d : Disk Root) : State where
  disk := d
  cwd := ⟨.elsewhere, []⟩

/-- After a run that anything may have happened to, the script reaches its end if
    and only if no build directory is left. -/
theorem main_resumes_iff (hh : Equipped h) (hasKernel : State → Bool) (e : Env) (d : Disk Root) :
    (main h reliable hasKernel Ctx.top
        (start (main h e hasKernel Ctx.top (start d)).2.disk)).1 = .next 0 ↔
      ¬Left (main h e hasKernel Ctx.top (start d)).2.disk := by
  generalize (main h e hasKernel Ctx.top (start d)).2.disk = d'
  have hwp : wp (main h reliable hasKernel) Ctx.top
      { next := fun n _ => n = 0 ∧ ¬Left d', exit := fun _ _ => Left d' } (start d') :=
    wp_main hh rfl (fun hl _ => hl) fun hl _ => ⟨rfl, hl⟩
  rw [wp] at hwp
  rcases hrun : main h reliable hasKernel Ctx.top (start d') with ⟨_ | _ | _ | _ | _, s⟩ <;>
    rw [hrun] at hwp
  · obtain ⟨rfl, hl⟩ := hwp
    simpa using hl
  · exact hwp.elim
  · exact hwp.elim
  · exact ⟨fun h => (by cases h), fun hl => absurd hwp hl⟩
  · exact hwp.elim

/-- An archive with the files it must have, and no others. -/
def Archive.plain (root : String) (needs : List String) : Archive root needs where
  tree
    | .dir => [[root]]
    | .file => needs.map fun name => [root, name]
  root_mem := List.mem_cons_self
  inside := by
    rintro (_ | _) names hn
    · rw [List.mem_singleton.1 hn]
    · obtain ⟨name, _, rfl⟩ := List.mem_map.1 hn
      exact ⟨[name], rfl⟩
  needs_mem name hn := List.mem_map_of_mem hn
  build_notMem := by simp

/-- A machine in a container, with plain archives and no image to make. -/
def plainHost : Host where
  networkingEnabled := true
  gnomeEnabled := true
  createIso := false
  isoOutput := workspace.child ["auto-lfs.iso"]
  bootloaderCfg := none
  docker := true
  availableSpace := 0
  hasCommand _ := true
  hasIsoCreator := true
  binutils := .plain _ _
  gcc := .plain _ _
  mpfr := .plain _ _
  gmp := .plain _ _
  mpc := .plain _ _
  linux := .plain _ _
  glibc := .plain _ _
  tool _ := .plain _ _
  installed
    | _, .dir => [["usr"], ["usr", "bin"]]
    | _, .file => [["usr", "bin", "ldd"]]
  ldd_mem := List.mem_cons_self

/-- The run is stopped at the command `n`, before it does anything. -/
def stoppedAt (n : ℕ) : Env := fun k => if k = n then .killed fun _ _ => false else .ok

/-- The disk after the downloads. -/
def downloaded : Disk Root := fun k q => k = .file ∧ q.parent = sources

/-- A run that is stopped at the configure script of binutils leaves its build
    directory; the next run finds it, and fails. -/
theorem main_not_resumed :
    (main plainHost (stoppedAt 27) (fun _ => false) Ctx.top (start downloaded)).1 = .exit 130 ∧
      (main plainHost reliable (fun _ => false) Ctx.top (start (main plainHost (stoppedAt 27)
        (fun _ => false) Ctx.top (start downloaded)).2.disk)).1 = .exit 1 := by
  have hrun : (main plainHost (stoppedAt 27) (fun _ => false) Ctx.top (start downloaded)).1 =
      .exit 130 ∧ (main plainHost (stoppedAt 27) (fun _ => false) Ctx.top
        (start downloaded)).2.disk .dir (sources.child ["binutils-2.42", "build"]) = true := by
    decide +kernel
  refine ⟨hrun.1, ?_⟩
  have hleft : Left (main plainHost (stoppedAt 27) (fun _ => false) Ctx.top
      (start downloaded)).2.disk := ⟨"binutils-2.42", by decide, hrun.2⟩
  generalize (main plainHost (stoppedAt 27) (fun _ => false) Ctx.top (start downloaded)).2.disk = d
    at hleft
  have hwp : wp (main plainHost reliable fun _ => false) Ctx.top
      { next := fun _ _ => False, exit := fun n _ => n = 1 } (start d) :=
    wp_main ⟨.inl rfl, fun _ _ => rfl⟩ rfl (fun _ _ => rfl) fun hl => absurd hleft hl
  rw [wp] at hwp
  rcases hrun : main plainHost reliable (fun _ => false) Ctx.top (start d) with
    ⟨_ | _ | _ | n | _, s⟩ <;> rw [hrun] at hwp
  · exact hwp.elim
  · exact hwp.elim
  · exact hwp.elim
  · exact congrArg Flow.exit hwp
  · exact hwp.elim

/-- A run that is stopped at the kernel headers is resumed by the next one. -/
theorem main_resumes_headers :
    (main plainHost reliable (fun _ => false) Ctx.top (start (main plainHost (stoppedAt 51)
      (fun _ => false) Ctx.top (start downloaded)).2.disk)).1 = .next 0 := by
  refine (main_resumes_iff ⟨.inl rfl, fun _ _ => rfl⟩ _ _ _).2 ?_
  rintro ⟨name, hname, hb⟩
  revert name
  decide +kernel

end LfsBuilder.LfsBuild.Stages
