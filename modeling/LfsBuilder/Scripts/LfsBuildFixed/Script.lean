import LfsBuilder.Library.Coreutils
import LfsBuilder.Library.Shell

/-!
# The checked build script

`main` of `lfs-build-fixed.sh`, over the statuses of its commands. The script runs
under `set -e`, and calls every stage in the condition of an `if`, where errexit is
ignored: there a command that fails stops the stage only if the stage looks at its
status. The state is the list of the stage commands that nothing around them
guards, with their statuses. Left out are the messages inside the stages, which
can neither stop a stage nor end it, and what only the messages use.
-/

namespace LfsBuilder.LfsBuildFixed

open Shell Coreutils

/-- A command of the script, by the functions and the part of them that it is in. -/
abbrev Site := List String

/-- The settings of the script, and the machine name that `uname -m` prints. -/
structure Host where
  verbose : Bool
  networkingEnabled : Bool
  gnomeEnabled : Bool
  createIso : Bool
  machine : String

/-- The stage commands so far that are not guarded, with their statuses, and the
    variable `CREATE_ISO`. -/
structure State where
  log : List (Site × ℕ) := []
  createIso : Bool

/-- The pattern `i?86`. -/
def isI86 (machine : String) : Bool :=
  match machine.toList with
  | ['i', _, '8', '6'] => true
  | _ => false

section

variable (a : Site → ℕ)

/-- A stage command that ends with the status `n`. -/
def record (x : Site) (n : ℕ) : Sh State :=
  .cmd fun c s => (n, if c.guarded then s else { s with log := s.log ++ [(x, n)] })

/-- A stage command, or a test in a condition. -/
def run (x : Site) : Sh State := record x (a x)

/-- `x | tee -a "$LOG_PATH"`, with the status that pipefail gives it. -/
def piped (x : Site) : Sh State :=
  .cmd fun c s => (if a (x ++ ["tee"]) ≠ 0 then a (x ++ ["tee"]) else a x,
    if c.guarded then s else { s with log := s.log ++ [(x, a x)] })

/-- A message. -/
def say (x : Site) : Sh State := .cmd fun _ s => (a x, s)

/-- The call of a stage function, which is a stage command itself. -/
def called (x : Site) (p : Sh State) : Sh State := fun c s =>
  match p c s with
  | (.next n, s') => record x n ⟨true, c.guarded⟩ s'
  | r => r

/-- A function with the body `ps` that ends with `return 0`. -/
def function (ps : List (Sh State)) : Sh State := .call (.seq (.block ps) (.ret 0))

/-- `x || return 1` -/
def orReturn (p : Sh State) : Sh State := .orElse p (.ret 1)

/-- `x || true`, and a handler that only prints a warning. -/
def orTrue (p : Sh State) : Sh State := .orElse p .skip

/-! ## The functions of the script -/

/-- `run_verbose` -/
def runVerbose (h : Host) (x : Site) : Sh State :=
  .call <| .ite (.test fun _ => h.verbose)
    -- The last command is set +x, which succeeds.
    (.block [run a x, .skip])
    (run a x)

/-- `wget_download` -/
def wgetDownload (h : Host) (x : Site) : Sh State :=
  .call <| .ite (.test fun _ => h.verbose) (piped a x) (run a x)

/-- `make_build` -/
def makeBuild (h : Host) (x : Site) : Sh State :=
  function [
    .ite (.not (run a (x ++ ["-f Makefile"]))) (.ret 1) .skip,
    .ite (.test fun _ => h.verbose) (piped a (x ++ ["make"])) (run a (x ++ ["make"])),
    -- Both branches leave the status of make in exit_code.
    .ite (.test fun _ => a (x ++ ["make"]) == 124) (.ret 1)
      (.ite (.test fun _ => a (x ++ ["make"]) != 0) (.ret 1) .skip)]

/-- The tools that `validate_environment` requires. -/
def requiredTools : List String :=
  ["bash", "bison", "flex", "gawk", "gcc", "make", "tar", "wget", "curl", "git"]

/-- `validate_environment` -/
def validateEnvironment : Sh State :=
  function [
    .ite (run a ["validate_environment", "-f /.dockerenv"]) .skip
      -- The source returns 1 where -lt holds.
      (.ite (.not (run a ["validate_environment", "available_space -ge required_space"])) (.ret 1)
        .skip),
    .forIn requiredTools fun tool =>
      .ite (.not (run a ["validate_environment", "command -v", tool])) (.ret 1) .skip,
    .ite (.test fun s => s.createIso)
      (.ite (.not (run a ["validate_environment", "command -v xorriso"]))
        (.ite (.not (run a ["validate_environment", "command -v genisoimage"]))
          (.assign fun s => { s with createIso := false }) .skip)
        .skip)
      .skip]

/-- `setup_lfs_environment` -/
def setupLfsEnvironment : Sh State :=
  function [
    run a ["setup_lfs_environment", "mkdir -p $LFS"],
    run a ["setup_lfs_environment", "mkdir -p $LFS/{etc,var,usr,tools,home,mnt,proc,sys,dev}"],
    run a ["setup_lfs_environment", "mkdir -p $LFS/usr/{bin,lib,sbin}"],
    run a ["setup_lfs_environment", "mkdir -p $LFS/var/{log,mail,spool}"],
    run a ["setup_lfs_environment", "mkdir -p $LFS/etc/sysconfig"],
    run a ["setup_lfs_environment", "mkdir -p $LFS/usr/share"],
    run a ["setup_lfs_environment", "echo > $LFS/usr/share/config.site"],
    run a ["setup_lfs_environment", "mkdir -p $LFS_WORKSPACE/sources"],
    run a ["setup_lfs_environment", "cd $LFS_WORKSPACE/sources"]]

/-- The list of `download_packages`. -/
def packages : List String := [
  "https://ftp.gnu.org/gnu/binutils/binutils-2.42.tar.xz",
  "https://ftp.gnu.org/gnu/gcc/gcc-13.2.0/gcc-13.2.0.tar.xz",
  "https://ftp.gnu.org/gnu/mpfr/mpfr-4.2.1.tar.xz",
  "https://ftp.gnu.org/gnu/gmp/gmp-6.3.0.tar.xz",
  "https://ftp.gnu.org/gnu/mpc/mpc-1.3.1.tar.gz",
  "https://cdn.kernel.org/pub/linux/kernel/v6.x/linux-6.7.4.tar.xz",
  "https://ftp.gnu.org/gnu/glibc/glibc-2.39.tar.xz",
  "https://ftp.gnu.org/gnu/bash/bash-5.2.21.tar.gz",
  "https://ftp.gnu.org/gnu/coreutils/coreutils-9.4.tar.xz",
  "https://ftp.gnu.org/gnu/make/make-4.4.1.tar.gz",
  "https://ftp.gnu.org/gnu/sed/sed-4.9.tar.xz",
  "https://ftp.gnu.org/gnu/tar/tar-1.35.tar.xz",
  "https://ftp.gnu.org/gnu/gawk/gawk-5.3.0.tar.xz",
  "https://ftp.gnu.org/gnu/findutils/findutils-4.9.0.tar.xz",
  "https://ftp.gnu.org/gnu/grep/grep-3.11.tar.xz",
  "https://ftp.gnu.org/gnu/gzip/gzip-1.13.tar.xz",
  "https://www.kernel.org/pub/linux/utils/util-linux/v2.41/util-linux-2.41.1.tar.xz"]

/-- `download_packages` -/
def downloadPackages (h : Host) : Sh State :=
  function [
    run a ["download_packages", "cd $LFS_WORKSPACE/sources"],
    .forIn packages fun url =>
      .ite (.not (run a ["download_packages", url, "-f $filename"]))
        (.ite (.not (wgetDownload a h ["download_packages", url, "wget"])) (.ret 1) .skip)
        .skip]

/-- `build_cross_tools` -/
def buildCrossTools (h : Host) : Sh State :=
  function [
    run a ["build_cross_tools", "cd $LFS_WORKSPACE/sources"],
    run a ["build_cross_tools", "binutils", "tar -xf binutils-2.42.tar.xz"],
    run a ["build_cross_tools", "binutils", "cd binutils-2.42"],
    run a ["build_cross_tools", "binutils", "mkdir -v build"],
    run a ["build_cross_tools", "binutils", "cd build"],
    orReturn (run a ["build_cross_tools", "binutils", "../configure"]),
    orReturn (makeBuild a h ["build_cross_tools", "binutils"]),
    orReturn (run a ["build_cross_tools", "binutils", "make install"]),
    run a ["build_cross_tools", "binutils", "cd $LFS_WORKSPACE/sources"],
    run a ["build_cross_tools", "binutils", "rm -rf binutils-2.42"],
    run a ["build_cross_tools", "gcc", "tar -xf gcc-13.2.0.tar.xz"],
    run a ["build_cross_tools", "gcc", "cd gcc-13.2.0"],
    orTrue (run a ["build_cross_tools", "gcc", "tar -xf ../mpfr-4.2.1.tar.xz"]),
    orTrue (run a ["build_cross_tools", "gcc", "mv -v mpfr-4.2.1 mpfr"]),
    orTrue (run a ["build_cross_tools", "gcc", "tar -xf ../gmp-6.3.0.tar.xz"]),
    orTrue (run a ["build_cross_tools", "gcc", "mv -v gmp-6.3.0 gmp"]),
    orTrue (run a ["build_cross_tools", "gcc", "tar -xf ../mpc-1.3.1.tar.gz"]),
    orTrue (run a ["build_cross_tools", "gcc", "mv -v mpc-1.3.1 mpc"]),
    run a ["build_cross_tools", "gcc", "mkdir -v build"],
    run a ["build_cross_tools", "gcc", "cd build"],
    orReturn (run a ["build_cross_tools", "gcc", "../configure"]),
    orReturn (makeBuild a h ["build_cross_tools", "gcc"]),
    orReturn (run a ["build_cross_tools", "gcc", "make install"]),
    run a ["build_cross_tools", "gcc", "cd $LFS_WORKSPACE/sources"],
    run a ["build_cross_tools", "gcc", "rm -rf gcc-13.2.0"]]

/-- `build_kernel_headers` -/
def buildKernelHeaders (h : Host) : Sh State :=
  function [
    run a ["build_kernel_headers", "cd $LFS_WORKSPACE/sources"],
    run a ["build_kernel_headers", "tar -xf linux-6.7.4.tar.xz"],
    run a ["build_kernel_headers", "cd linux-6.7.4"],
    orReturn (run a ["build_kernel_headers", "make mrproper"]),
    orReturn (runVerbose a h ["build_kernel_headers", "make headers"]),
    run a ["build_kernel_headers", "find usr/include -type f ! -name '*.h' -delete"],
    orReturn (run a ["build_kernel_headers", "cp -rv usr/include $LFS/usr"]),
    run a ["build_kernel_headers", "linux", "cd $LFS_WORKSPACE/sources"],
    run a ["build_kernel_headers", "rm -rf linux-6.7.4"]]

/-- The first lines of configparms, by the patterns `i?86` and `x86_64`. -/
def configparms (machine : String) : Sh State :=
  if isI86 machine then run a ["build_glibc", "echo march > configparms"]
  else if machine = "x86_64" then run a ["build_glibc", "echo mtune > configparms"]
  else .skip

/-- `build_glibc` -/
def buildGlibc (h : Host) : Sh State :=
  function [
    run a ["build_glibc", "cd $LFS_WORKSPACE/sources"],
    .ite (.not (run a ["build_glibc", "-d $LFS/usr/include/linux"])) (.ret 1) .skip,
    .ite (.not (run a ["build_glibc", "-d $LFS/tools"])) (.ret 1) .skip,
    run a ["build_glibc", "clean", "rm -rf glibc-2.39"],
    orReturn (run a ["build_glibc", "tar -xf glibc-2.39.tar.xz"]),
    run a ["build_glibc", "cd glibc-2.39"],
    run a ["build_glibc", "mkdir -v build"],
    run a ["build_glibc", "cd build"],
    configparms a h.machine,
    run a ["build_glibc", "echo rootsbindir >> configparms"],
    .orElse (run a ["build_glibc", "../configure"])
      (.block [
        .ite (run a ["build_glibc", "-f config.log"]) (run a ["build_glibc", "tail -50 config.log"])
          .skip,
        .ret 1]),
    .ite (.not (makeBuild a h ["build_glibc"])) (.ret 1) .skip,
    .ite (.not (run a ["build_glibc", "make install"])) (.ret 1) .skip,
    orTrue (run a ["build_glibc", "sed -i $LFS/usr/bin/ldd"]),
    run a ["build_glibc", "glibc", "cd $LFS_WORKSPACE/sources"],
    run a ["build_glibc", "rm -rf glibc-2.39"]]

/-- The list of `build_core_tools`. -/
def tools : List String := [
  "bash-5.2.21.tar.gz",
  "coreutils-9.4.tar.xz",
  "make-4.4.1.tar.gz",
  "sed-4.9.tar.xz",
  "tar-1.35.tar.xz",
  "gawk-5.3.0.tar.xz",
  "findutils-4.9.0.tar.xz",
  "grep-3.11.tar.xz",
  "gzip-1.13.tar.xz",
  "util-linux-2.41.1.tar.xz"]

/-- The body of the loop over the tools; the cases of `name` differ in the
    arguments of configure only. -/
def buildTool (h : Host) (tool : String) : Sh State :=
  .block [
    orReturn (run a ["build_core_tools", tool, "tar -xf"]),
    run a ["build_core_tools", tool, "cd"],
    orReturn (run a ["build_core_tools", tool, "./configure"]),
    orReturn (makeBuild a h ["build_core_tools", tool]),
    orReturn (run a ["build_core_tools", tool, "make install"]),
    run a ["build_core_tools", tool, "cd $LFS_WORKSPACE/sources"],
    run a ["build_core_tools", tool, "rm -rf"]]

/-- `build_core_tools` -/
def buildCoreTools (h : Host) : Sh State :=
  function [
    run a ["build_core_tools", "cd $LFS_WORKSPACE/sources"],
    .forIn tools (buildTool a h)]

/-- `configure_system` -/
def configureSystem : Sh State :=
  function [
    run a ["configure_system", "cat > $LFS/etc/passwd"],
    run a ["configure_system", "cat > $LFS/etc/group"],
    run a ["configure_system", "cat > $LFS/etc/fstab"],
    run a ["configure_system", "echo > $LFS/etc/hostname"],
    run a ["configure_system", "cat > $LFS/etc/hosts"]]

/-- `install_networking` -/
def installNetworking (h : Host) : Sh State :=
  function [
    .ite (.test fun _ => h.networkingEnabled)
      (.block [
        run a ["install_networking", "mkdir -p $LFS/etc/sysconfig"],
        run a ["install_networking", "cat > $LFS/etc/sysconfig/ifconfig.eth0"],
        run a ["install_networking", "cat > $LFS/etc/resolv.conf"]])
      .skip]

/-- `install_gnome` -/
def installGnome (h : Host) : Sh State :=
  function [
    .ite (.test fun _ => h.gnomeEnabled)
      (.block [
        run a ["install_gnome", "mkdir -p $LFS/etc/X11/xorg.conf.d"],
        run a ["install_gnome", "mkdir -p $LFS/usr/share/xsessions"],
        run a ["install_gnome", "cat > $LFS/usr/share/xsessions/gnome.desktop"]])
      .skip]

/-- `create_boot_config` -/
def createBootConfig : Sh State :=
  function [
    run a ["create_boot_config", "mkdir -p $LFS/boot"],
    run a ["create_boot_config", "mkdir -p $LFS/boot/grub"],
    run a ["create_boot_config", "cat > $LFS/boot/grub/grub.cfg"],
    run a ["create_boot_config", "mkdir -p $LFS/etc/mkinitcpio.d"]]

/-- `finalize_system` -/
def finalizeSystem : Sh State :=
  function [
    run a ["finalize_system", "echo > $LFS/etc/lfs-release"],
    run a ["finalize_system", "cat > $LFS/etc/motd"],
    run a ["finalize_system", "chmod 644 $LFS/etc/passwd $LFS/etc/group"],
    run a ["finalize_system", "chmod 600 $LFS/etc/fstab"]]

/-- `create_system_image` -/
def createSystemImage : Sh State :=
  function [
    run a ["create_system_image", "cd $LFS"],
    run a ["create_system_image", "tar -czf $LFS_WORKSPACE/lfs-system.tar.gz ."]]

/-- "Create ISO using available tools", in `create_iso_image`. -/
def makeIso : Sh State :=
  .ite (run a ["create_iso_image", "command -v xorriso"])
    (orReturn (run a ["create_iso_image", "xorriso"]))
    (.ite (run a ["create_iso_image", "command -v genisoimage"])
      (.block [
        orReturn (run a ["create_iso_image", "genisoimage"]),
        .ite (run a ["create_iso_image", "command -v isohybrid"])
          (orTrue (run a ["create_iso_image", "isohybrid"])) .skip])
      (.ret 1))

/-- `create_iso_image` of `iso-creator.sh` -/
def createIsoImage : Sh State :=
  function [
    .ite (.not (run a ["create_iso_image", "-d $build_root"])) (.ret 1) .skip,
    .ite (.not (run a ["create_iso_image", "compgen -G $build_root/boot/vmlinuz*"]))
      (.block [
        run a ["create_iso_image", "kernel", "mkdir -p $build_root/boot"],
        run a ["create_iso_image", "echo > $build_root/boot/kernel_info.txt"]])
      .skip,
    .ite (run a ["create_iso_image", "-n $boot_cfg && -f $boot_cfg"])
      (.block [
        run a ["create_iso_image", "bootloader", "mkdir -p $build_root/boot"],
        orReturn (run a ["create_iso_image", "cp $boot_cfg $build_root/boot/"])])
      .skip,
    run a ["create_iso_image", "mkdir -p $(dirname $output_path)"],
    makeIso a,
    .ite (run a ["create_iso_image", "-f $output_path"]) .skip (.ret 1)]

/-- `create_bootable_iso` -/
def createBootableIso : Sh State :=
  function [
    .ite (.test fun s => s.createIso)
      (.ite (run a ["create_bootable_iso", "-f $iso_creator"])
        (.block [
          run a ["create_bootable_iso", "source $iso_creator"],
          -- Without the file, bash knows no create_iso_image.
          if a ["create_bootable_iso", "source $iso_creator"] = 0 then
            called ["create_bootable_iso", "create_iso_image"] (createIsoImage a)
          else record ["create_bootable_iso", "create_iso_image"] 127])
        .skip)
      .skip]

/-- A stage in `main`: `if ! stage; then log_error ..; return 1; fi` -/
def stage (p : Sh State) (messages : List String) : Sh State :=
  .ite (.not p) (.block [.forIn messages fun m => say a ["main", m], .ret 1]) .skip

/-- Messages of `main`, between the stages. -/
def sayAll (messages : List String) : Sh State := .forIn messages fun m => say a ["main", m]

/-- The messages of `main` before the stages. -/
def openingMessages : List String := [
  "Starting Auto-LFS-Builder (Enhanced)", "Build Profile", "Parallel Jobs", "LFS Workspace",
  "GNOME Enabled", "Networking Enabled", "Create ISO", "echo"]

/-- "Debug info before glibc build" -/
def debugMessages : List String := [
  "=== Pre-Glibc Debug Info ===", "LFS", "LFS_TGT", "CONFIG_SITE", "Tools directory",
  "Headers directory", "============================"]

/-- The messages of `main` after the stages. -/
def completeMessages : List String :=
  ["Build Complete!", "Total build time", "LFS system built at", "System image"]

/-- The next steps with an ISO. -/
def isoMessages : List String := [
  "1. Use the ISO", "2. Boot from ISO in a VM or burn to USB/DVD",
  "3. Install to your target system"]

/-- The next steps without one. -/
def imageMessages : List String := [
  "1. Create a bootable disk/VM", "2. Extract the system image to the target",
  "3. Install and configure a bootloader", "4. Boot your new LFS system!"]

/-- `main` -/
def main (h : Host) : Sh State :=
  function [
    sayAll a openingMessages,
    stage a (validateEnvironment a) ["Environment validation failed"],
    stage a (setupLfsEnvironment a) ["LFS environment setup failed"],
    stage a (downloadPackages a h) ["Package download failed"],
    stage a (buildCrossTools a h) ["Cross-tools build failed"],
    stage a (buildKernelHeaders a h) ["Kernel headers build failed"],
    sayAll a debugMessages,
    stage a (buildGlibc a h)
      ["Glibc build failed", "Run './debug-glibc.sh' for detailed diagnosis"],
    stage a (buildCoreTools a h) ["Core tools build failed"],
    stage a (configureSystem a) ["System configuration failed"],
    stage a (installNetworking a h) ["Network setup failed"],
    stage a (installGnome a h) ["GNOME setup failed"],
    stage a (createBootConfig a) ["Boot config failed"],
    stage a (finalizeSystem a) ["System finalization failed"],
    stage a (createSystemImage a) ["System image creation failed"],
    stage a (createBootableIso a) ["ISO creation failed"],
    sayAll a completeMessages,
    .ite (run a ["main", "CREATE_ISO == true && -f $ISO_OUTPUT"]) (say a ["main", "Bootable ISO"])
      .skip,
    sayAll a ["echo before the next steps", "Next steps"],
    .ite (run a ["main", "-f $ISO_OUTPUT"]) (sayAll a isoMessages) (sayAll a imageMessages),
    say a ["main", "echo at the end"]]

end

end LfsBuilder.LfsBuildFixed
