import LfsBuilder.Library.Sed

/-!
# The fixes of the build script

`fix-lfs-builder.sh`, which edits `lfs-build.sh`, `docker-compose.yml` and
`lfs-builder.env` in place, after it has made copies of them. The checks at its end
print messages only.

* `editLfsBuild_eq_self_iff`: which texts of `lfs-build.sh` the edits leave as they are;
* `fixLfsBuilder_idempotent_iff`: a second run changes nothing exactly if the first one
  does not.
-/

namespace LfsBuilder.FixLfsBuilder

open Text Sed

/-! ## The edits -/

def gccUrl : Str := "https://ftp.gnu.org/gnu/gcc/gcc-13.2.0/gcc-13.2.0.tar.xz".toList

/-- The lines of `fix_packages.sed`. -/
def gccDependencies : List Str := [
  "        \"https://ftp.gnu.org/gnu/mpfr/mpfr-4.2.1.tar.xz\"".toList,
  "        \"https://ftp.gnu.org/gnu/gmp/gmp-6.3.0.tar.xz\"".toList,
  "        \"https://ftp.gnu.org/gnu/mpc/mpc-1.3.1.tar.gz\"".toList]

def utilLinux : Str := "util-linux".toList

def utilLinuxTarball : Str := "util-linux-2.41.1.tar.xz".toList

def utilLinuxUrl : Str :=
  "https://www.kernel.org/pub/linux/utils/util-linux/v2.41/util-linux-2.41.1.tar.xz".toList

/-- The lines of `fix_core_packages.sed`. -/
def corePackages : List Str := [
  "        \"https://ftp.gnu.org/gnu/diffutils/diffutils-3.10.tar.xz\"".toList,
  "        \"https://ftp.gnu.org/gnu/patch/patch-2.7.6.tar.xz\"".toList,
  "        \"https://tukaani.org/xz/xz-5.4.6.tar.xz\"".toList]

/-- The lines of `fix_tools.sed`. -/
def coreTools : List Str := [
  "        \"diffutils-3.10.tar.xz\"".toList,
  "        \"patch-2.7.6.tar.xz\"".toList,
  "        \"xz-5.4.6.tar.xz\"".toList]

/-- The lines of `fix_util_linux.sed`. -/
def utilLinuxBuild : List Str := [
  "                mkdir -pv /var/lib/hwclock".toList,
  "                ./configure --prefix=/usr --host=\"$LFS_TGT\" --libdir=/usr/lib \\".toList,
  "                           --disable-chfn-chsh --disable-login --disable-nologin \\".toList,
  "                           --disable-su --disable-setpriv --disable-runuser \\".toList,
  "                           --disable-pylibmount --disable-static --without-python \\".toList,
  "                           ADJTIME_PATH=/var/lib/hwclock/adjtime".toList,
  "                make_build".toList,
  "                make DESTDIR=\"$LFS\" install".toList,
  "                ;;".toList]

def fixPackages : List Line → List Line := appendAfter (contains gccUrl) gccDependencies

def fixCorePackages : List Line → List Line := appendAfter (contains utilLinuxUrl) corePackages

def enableGnome : Str := "ENABLE_GNOME".toList

def enableNetworking : Str := "ENABLE_NETWORKING".toList

/-- `s/ENABLE_GNOME/GNOME_ENABLED/g`, and then `s/ENABLE_NETWORKING/NETWORKING_ENABLED/g` -/
def rename (text : Str) : Str :=
  replaceAll enableNetworking "NETWORKING_ENABLED".toList
    (replaceAll enableGnome "GNOME_ENABLED".toList text)

def fixTools : List Line → List Line := appendAfter (contains utilLinuxTarball) coreTools

/-- `.*make DESTDIR.*install.*` -/
def isInstall : Str → Bool := inOrder ["make DESTDIR".toList, "install".toList]

/-- The lines that the range deletes. -/
def isBuildLine (text : Str) : Bool :=
  inOrder ["configure".toList, "host".toList, "LFS_TGT".toList] text ||
    contains "make_build".toList text || isInstall text

/-- The commands of the range: a line with `util-linux` is replaced. -/
def utilLinuxCommands (l : Line) : List Line :=
  if contains utilLinux l.text then written utilLinuxBuild
  else if isBuildLine l.text then [] else [l]

def fixUtilLinux : List Line → List Line :=
  range (contains utilLinux) isInstall utilLinuxCommands false

def networkComment : Str := "# Create network interfaces file".toList

def createSysconfig : List Line → List Line :=
  insertBefore (contains networkComment) ["        mkdir -p \"$LFS/etc/sysconfig\"".toList]

/-- The edits of `lfs-build.sh`, in their order. -/
def editLfsBuild (ls : List Line) : List Line :=
  createSysconfig <| fixUtilLinux <| fixTools <| substitute rename <| fixCorePackages <|
    fixPackages ls

def parallelJobs : Str := "PARALLEL_JOBS: 32".toList

/-- The edit of `docker-compose.yml`. -/
def editDockerCompose : List Line → List Line :=
  substitute (replaceFirst parallelJobs "PARALLEL_JOBS: 16".toList)

/-- The new `lfs-builder.env`. -/
def envFile : List Line := written [
  "LFS_WORKSPACE=/lfs-build/workspace".toList,
  "BUILD_PROFILE=desktop_gnome".toList,
  "PARALLEL_JOBS=16".toList,
  "LFS_VERSION=development".toList,
  "GNOME_ENABLED=true".toList,
  "NETWORKING_ENABLED=true".toList,
  "CREATE_ISO=true".toList,
  "ISO_VOLUME=AUTO_LFS".toList,
  "ISO_OUTPUT=/lfs-build/workspace/auto-lfs.iso".toList,
  "LOG_PATH=/lfs-build/logs/build.log".toList]

/-- The files of the script. -/
structure Files where
  lfsBuild : List Line
  dockerCompose : List Line
  lfsBuilderEnv : List Line
  lfsBuildBackup : Option (List Line)
  dockerComposeBackup : Option (List Line)
  lfsBuilderEnvBackup : Option (List Line)
  deriving DecidableEq

/-- `fix-lfs-builder.sh` -/
def fixLfsBuilder (files : Files) : Files where
  lfsBuild := editLfsBuild files.lfsBuild
  dockerCompose := editDockerCompose files.dockerCompose
  lfsBuilderEnv := envFile
  lfsBuildBackup := some files.lfsBuild
  dockerComposeBackup := some files.dockerCompose
  lfsBuilderEnvBackup := some files.lfsBuilderEnv

/-! ## A second run -/

variable {ls : List Line} {files : Files}

/-- What the edits look for. -/
def anchors : List Str := [gccUrl, utilLinux, enableGnome, enableNetworking, networkComment]

theorem not_contains_utilLinux_of_mem_edit :
    ∀ m ∈ editLfsBuild ls, contains utilLinux m.text = false := by
  have hbuild : ∀ text ∈ utilLinuxBuild, contains utilLinux text = false := by
    unfold utilLinuxBuild utilLinux
    repeat rw [String.toList_ofList]
    decide +kernel
  have hsysconfig : ∀ text ∈ ["        mkdir -p \"$LFS/etc/sysconfig\"".toList],
      contains utilLinux text = false := by
    unfold utilLinux
    repeat rw [String.toList_ofList]
    decide +kernel
  refine forall_mem_insertBefore (P := fun text => contains utilLinux text = false) hsysconfig
    (forall_mem_range (fun l => ?_) (fun l _ hl => hl) false)
  unfold utilLinuxCommands
  split
  · exact forall_mem_written.2 hbuild
  · next hl =>
    split
    · exact fun _ hm => by cases hm
    · exact List.forall_mem_singleton.2 (Bool.eq_false_of_not_eq_true hl)

theorem length_rename (text : Str) : text.length ≤ (rename text).length :=
  (length_le_replaceAll (by decide) (by decide) text).trans
    (length_le_replaceAll (by decide) (by decide) _)

/-- A text that does not grow has neither name: no substitution can undo what the other
    does, since both make texts longer. -/
theorem not_contains_of_length_rename {text : Str} (h : (rename text).length ≤ text.length) :
    contains enableGnome text = false ∧ contains enableNetworking text = false := by
  have hgnome : enableGnome.length < "GNOME_ENABLED".toList.length := by decide
  have hnetworking : enableNetworking.length < "NETWORKING_ENABLED".toList.length := by decide
  have hlen := length_le_replaceAll (by decide) hnetworking.le
    (replaceAll enableGnome "GNOME_ENABLED".toList text)
  rw [rename] at h
  have hnone : contains enableGnome text = false := by
    by_contra hc
    have hlt := length_lt_replaceAll (by decide) hgnome (Bool.eq_true_of_not_eq_false hc)
    omega
  refine ⟨hnone, ?_⟩
  rw [replaceAll_of_not_contains hnone] at h
  by_contra hc
  have hlt := length_lt_replaceAll (by decide) hnetworking (Bool.eq_true_of_not_eq_false hc)
  omega

theorem rename_eq_self_iff {text : Str} : rename text = text ↔
    contains enableGnome text = false ∧ contains enableNetworking text = false := by
  refine ⟨fun h => not_contains_of_length_rename (congrArg List.length h).le, fun h => ?_⟩
  rw [rename, replaceAll_of_not_contains h.1, replaceAll_of_not_contains h.2]

theorem not_contains_utilLinux_rename {text : Str} (h : contains utilLinux text = false) :
    contains utilLinux (rename text) = false := by
  rw [contains_eq_false_iff] at h ⊢
  refine fun hinfix => h ?_
  refine infix_of_replaceAll (by decide) (by decide) (by decide)
    (infix_of_replaceAll ?_ ?_ ?_ hinfix)
  · decide
  · decide
  · decide

theorem not_contains_of_utilLinux {text : Str} (h : contains utilLinux text = false) :
    contains utilLinuxTarball text = false ∧ contains utilLinuxUrl text = false := by
  have htarball : utilLinux <:+: utilLinuxTarball := by decide
  have hurl : utilLinux <:+: utilLinuxUrl := by decide
  exact ⟨not_contains_mono htarball h, not_contains_mono hurl h⟩

/-- Without `util-linux`, three of the edits do nothing. -/
theorem editLfsBuild_eq (h : ∀ l ∈ ls, contains utilLinux l.text = false) :
    editLfsBuild ls = createSysconfig (substitute rename (fixPackages ls)) := by
  have hgcc : ∀ text ∈ gccDependencies, contains utilLinux text = false := by
    unfold gccDependencies utilLinux
    repeat rw [String.toList_ofList]
    decide +kernel
  have hpackages : ∀ l ∈ fixPackages ls, contains utilLinux l.text = false :=
    forall_mem_appendAfter (P := fun text => contains utilLinux text = false) hgcc h
  have hrename : ∀ l ∈ substitute rename (fixPackages ls), contains utilLinux l.text = false := by
    rw [substitute, List.forall_mem_map]
    exact fun l hl => not_contains_utilLinux_rename (hpackages l hl)
  have hcore : fixCorePackages (fixPackages ls) = fixPackages ls :=
    appendAfter_eq_self fun l hl => (not_contains_of_utilLinux (hpackages l hl)).2
  have htools : fixTools (substitute rename (fixPackages ls)) =
      substitute rename (fixPackages ls) :=
    appendAfter_eq_self fun l hl => (not_contains_of_utilLinux (hrename l hl)).1
  rw [editLfsBuild, hcore, htools, fixUtilLinux, range_eq_self hrename]

/-- The edits leave a text as it is exactly if there is nothing in it that they look
    for. -/
theorem editLfsBuild_eq_self_iff :
    editLfsBuild ls = ls ↔ ∀ l ∈ ls, ∀ w ∈ anchors, contains w l.text = false := by
  refine ⟨fun h => ?_, fun h => ?_⟩
  · have hutil : ∀ l ∈ ls, contains utilLinux l.text = false := by
      have hedit : ∀ m ∈ editLfsBuild ls, contains utilLinux m.text = false :=
        not_contains_utilLinux_of_mem_edit
      rwa [h] at hedit
    rw [editLfsBuild_eq hutil] at h
    -- The other edits only add to the file, so none of them adds anything.
    have hsize := congrArg size h
    rw [createSysconfig, size_insertBefore] at hsize
    have hrename := size_le_substitute length_rename (fixPackages ls)
    have hpackages : size (fixPackages ls) = _ := size_appendAfter _ _ ls
    have hpos : 0 < size (written gccDependencies) := Nat.succ_pos _
    have hpos' : 0 < size (written ["        mkdir -p \"$LFS/etc/sysconfig\"".toList]) :=
      Nat.succ_pos _
    have hgcc : ls.countP (fun l => contains gccUrl l.text) = 0 := by
      by_contra hne
      have hmul := Nat.mul_pos (Nat.pos_of_ne_zero hne) hpos
      omega
    have hgcc' : ∀ l ∈ ls, contains gccUrl l.text = false := by
      simpa [List.countP_eq_zero] using hgcc
    have hself : fixPackages ls = ls := appendAfter_eq_self hgcc'
    rw [hself] at h hsize hrename
    have hnames : ∀ l ∈ ls, contains enableGnome l.text = false ∧
        contains enableNetworking l.text = false := fun l hl =>
      not_contains_of_length_rename (length_of_size_substitute length_rename (by omega) l hl)
    have hself' : substitute rename ls = ls :=
      substitute_eq_self_iff.2 fun l hl => rename_eq_self_iff.2 (hnames l hl)
    rw [hself'] at hsize
    have hcomment : ls.countP (fun l => contains networkComment l.text) = 0 := by
      by_contra hne
      have hmul := Nat.mul_pos (Nat.pos_of_ne_zero hne) hpos'
      omega
    have hcomment' : ∀ l ∈ ls, contains networkComment l.text = false := by
      simpa [List.countP_eq_zero] using hcomment
    intro l hl
    simp only [anchors, List.forall_mem_cons]
    exact ⟨hgcc' l hl, hutil l hl, (hnames l hl).1, (hnames l hl).2, hcomment' l hl,
      List.forall_mem_nil _⟩
  · have hutil : ∀ l ∈ ls, contains utilLinux l.text = false := fun l hl => h l hl _ (by decide)
    have hpackages : fixPackages ls = ls := appendAfter_eq_self fun l hl => h l hl _ (by decide)
    have hrename : substitute rename ls = ls := substitute_eq_self_iff.2 fun l hl =>
      rename_eq_self_iff.2 ⟨h l hl _ (by decide), h l hl _ (by decide)⟩
    rw [editLfsBuild_eq hutil, hpackages, hrename]
    exact insertBefore_eq_self fun l hl => h l hl _ (by decide)

theorem editDockerCompose_eq_self_iff :
    editDockerCompose ls = ls ↔ ∀ l ∈ ls, contains parallelJobs l.text = false := by
  rw [editDockerCompose, substitute_eq_self_iff]
  exact forall₂_congr fun l _ => replaceFirst_eq_self_iff (by decide) (by decide)

/-- A second run leaves the files and their copies as the first one left them exactly if
    the first one has nothing to do. -/
theorem fixLfsBuilder_idempotent_iff (files : Files) :
    fixLfsBuilder (fixLfsBuilder files) = fixLfsBuilder files ↔
      (∀ l ∈ files.lfsBuild, ∀ w ∈ anchors, contains w l.text = false) ∧
      (∀ l ∈ files.dockerCompose, contains parallelJobs l.text = false) ∧
      files.lfsBuilderEnv = envFile := by
  rw [← editLfsBuild_eq_self_iff, ← editDockerCompose_eq_self_iff]
  refine ⟨fun h => ?_, fun h => ?_⟩
  · -- The copies of the second run are what the first run has made of the files.
    have hbuild := congrArg Files.lfsBuildBackup h
    have hcompose := congrArg Files.dockerComposeBackup h
    have henv := congrArg Files.lfsBuilderEnvBackup h
    simp only [fixLfsBuilder, Option.some_inj] at hbuild hcompose henv
    exact ⟨hbuild, hcompose, henv.symm⟩
  · obtain ⟨hbuild, hcompose, henv⟩ := h
    simp only [fixLfsBuilder, hbuild, hcompose, henv]

/-- The packages of GCC are appended again, to a file whose copy has them already. -/
theorem fixLfsBuilder_not_idempotent :
    ¬fixLfsBuilder (fixLfsBuilder ⟨written ['"' :: gccUrl ++ ['"']],
        written ["      PARALLEL_JOBS: 16".toList], envFile, none, none, none⟩) =
      fixLfsBuilder ⟨written ['"' :: gccUrl ++ ['"']],
        written ["      PARALLEL_JOBS: 16".toList], envFile, none, none, none⟩ := by
  intro h
  have hself := editLfsBuild_eq_self_iff.1 (Option.some.inj (congrArg Files.lfsBuildBackup h))
  have hnot := hself _ List.mem_cons_self gccUrl List.mem_cons_self
  exact contains_eq_false_iff.1 hnot ⟨['"'], ['"'], rfl⟩

end LfsBuilder.FixLfsBuilder
