import LfsBuilder.Library.Coreutils
import LfsBuilder.Library.Shell

/-!
# Packages: download, unpack, build

The functions of `src/common/package_management.sh`, with `handle_error` of
`error_handling.sh` and the messages of `logging.sh`, for scripts under
`set -e`. The state has the regular files and the directories, by their
absolute paths, and the two directories that the shell itself keeps: the
current one, and the one before the last change.

* `downloadPackage_recovers_iff`: running `download_package` again recovers
  exactly from what is a part of the package, from its beginning on;
* `begun_returns_iff`: a sequence of builds stays where it has begun exactly if
  every build function makes its last change of directory from there.
-/

namespace LfsBuilder.PackageManagement

open Shell Coreutils

/-- The content of a file. -/
abbrev Bytes := List UInt8

/-- An absolute path, by the names that lead to it. -/
abbrev Path := List String

/-- The environment, and what the programs do. -/
structure Host where
  /-- The variables of the environment, empty where they are not set. -/
  packagesDirVar : String := ""
  buildDirVar : String := ""
  /-- `wget -c url -O f`: the status, and the file `f` after the run, given the one before. -/
  wget : String → Option Bytes → ℕ × Option Bytes
  /-- The SHA-256 of a file, as sha256sum reports it. -/
  sha256 : Bytes → String
  /-- The members of an archive, files with their contents and directories without; nothing,
      where tar cannot read it. -/
  members : Bytes → Option (List (Path × Option Bytes))

/-- `PACKAGES_DIR="${PACKAGES_DIR:-packages}"` -/
def Host.packagesDir (h : Host) : String :=
  if h.packagesDirVar = "" then "packages" else h.packagesDirVar

/-- `BUILD_DIR="${BUILD_DIR:-build}"` -/
def Host.buildDir (h : Host) : String := if h.buildDirVar = "" then "build" else h.buildDirVar

/-- `${PACKAGES_DIR}/${package_name}` -/
def Host.packagePath (h : Host) (packageName : String) : String :=
  h.packagesDir ++ "/" ++ packageName

/-- The files, the directories of the shell, and the messages. -/
structure State where
  file : Path → Option Bytes
  dir : Path → Bool
  pwd : Path
  oldpwd : Option Path := none
  log : List (Level × String) := []

/-- The directory that the names lead to from `p`. -/
def Path.follow (p : Path) : List String → Path
  | [] => p
  | name :: names =>
    if name = "" ∨ name = "." then Path.follow p names
    else if name = ".." then Path.follow p.dropLast names
    else Path.follow (p ++ [name]) names

/-- What the text of a path means in the directory `p`. -/
def Path.resolve (p : Path) (text : String) : Path :=
  Path.follow (if text.toList.head? = some '/' then [] else p)
    ((text.toList.splitOn '/').map String.ofList)

/-- What the text of a path means. -/
def State.resolve (s : State) (text : String) : Path := Path.resolve s.pwd text

/-- The change to the directory `p`. -/
def State.enter (s : State) (p : Path) : State := { s with pwd := p, oldpwd := some s.pwd }

/-- The state with one more message. -/
def State.say (s : State) (level : Level) (line : String) : State :=
  { s with log := s.log ++ [(level, line)] }

@[simp] theorem State.say_file {s : State} {level : Level} {line : String} :
    (s.say level line).file = s.file := rfl

@[simp] theorem State.say_pwd {s : State} {level : Level} {line : String} :
    (s.say level line).pwd = s.pwd := rfl

@[simp] theorem State.say_resolve {s : State} {level : Level} {line text : String} :
    (s.say level line).resolve text = s.resolve text := rfl

/-- `log_info`, `log_error` -/
def logLine (level : Level) (line : String) : Sh State := .assign (·.say level line)

/-- `handle_error` -/
def handleError (msg : String) : Sh State := .block [logLine .error msg, .exit 1]

/-- `cd dir` -/
def cd (dir : String) : Sh State :=
  .cmd fun _ s => if s.dir (s.resolve dir) then (0, s.enter (s.resolve dir)) else (1, s)

/-- `cd -` -/
def cdBack : Sh State :=
  .cmd fun _ s => s.oldpwd.elim (1, s) fun p => if s.dir p then (0, s.enter p) else (1, s)

/-- `wget -c url -O path` -/
def wget (h : Host) (url path : String) : Sh State :=
  .cmd fun _ s => ((h.wget url (s.file (s.resolve path))).1,
    { s with
      file := Function.update s.file (s.resolve path)
        (h.wget url (s.file (s.resolve path))).2 })

/-- `echo "$checksum  $file" | sha256sum -c -` -/
def sha256sumCheck (h : Host) (file checksum : String) : Sh State :=
  .test fun s => (s.file (s.resolve file)).any fun content => h.sha256 content == checksum

/-- The files and directories with those of an archive in the directory `p`. -/
def State.unpack (s : State) (p : Path) (members : List (Path × Option Bytes)) : State :=
  members.foldl (fun s member => match member.2 with
    | none => { s with dir := Function.update s.dir (p ++ member.1) true }
    | some content => { s with file := Function.update s.file (p ++ member.1) (some content) }) s

/-- `tar -xf archive -C dir` -/
def tar (h : Host) (archive dir : String) : Sh State :=
  .cmd fun _ s =>
    match (s.file (s.resolve archive)).bind h.members with
    | none => (2, s)
    | some members =>
      if s.dir (s.resolve dir) then (0, s.unpack (s.resolve dir) members) else (2, s)

/-- `verify_checksum` -/
def verifyChecksum (h : Host) (file checksum : String) : Sh State :=
  .call <| .orElse (sha256sumCheck h file checksum)
    (handleError ("Checksum verification failed for " ++ file))

/-- `extract_package` -/
def extractPackage (h : Host) (package : String) : Sh State :=
  .call <| .orElse (tar h (h.packagePath package) h.buildDir)
    (handleError ("Failed to extract " ++ package))

/-- `download_package` -/
def downloadPackage (h : Host) (packageName packageUrl checksum : String) : Sh State :=
  .call <| .block [
    logLine .info ("Downloading " ++ packageName),
    .orElse (wget h packageUrl (h.packagePath packageName))
      (handleError ("Download failed for " ++ packageName)),
    verifyChecksum h (h.packagePath packageName) checksum]

/-- `${package_name%.tar*}` -/
def sourceName (packageName : String) : String :=
  (beforeTar packageName.toList).elim packageName String.ofList

/-- `build_package` -/
def buildPackage (h : Host) (packageName : String) (buildFunction : Sh State) : Sh State :=
  .call <| .block [
    logLine .info ("Building " ++ packageName),
    extractPackage h packageName,
    .orElse (cd (h.buildDir ++ "/" ++ sourceName packageName))
      (handleError ("Build directory missing for " ++ packageName)),
    .orElse (.call buildFunction) (handleError ("Build failed for " ++ packageName)),
    cdBack]

variable {h : Host} {c : Ctx} {Q : Post State} {s : State}

@[simp] theorem wp_logLine {level : Level} {line : String} : wp (logLine level line) c Q s ↔
    Q.next 0 (s.say level line) := Iff.rfl

@[simp] theorem wp_handleError {msg : String} : wp (handleError msg) c Q s ↔
    Q.exit 1 (s.say .error msg) := Iff.rfl

/-! ## Downloads -/

/-- What is documented of `wget -c -O f` for the content that a server has at `url`: a file
    that is shorter is gone on with, and any other one is left as it is. -/
structure Serves (h : Host) (url : String) (served : Bytes) : Prop where
  absent : h.wget url none = (0, some served)
  shorter : ∀ f, f.length < served.length →
    h.wget url (some f) = (0, some (f ++ served.drop f.length))
  complete : ∀ f, served.length ≤ f.length → h.wget url (some f) = (0, some f)

/-- A file with what follows, of the content of the server, after its length. -/
def resumed (served : Bytes) (f : Option Bytes) : Bytes :=
  f.getD [] ++ served.drop (f.getD []).length

variable {url checksum packageName : String} {served : Bytes}

theorem Serves.wget_eq (hserves : Serves h url served) (f : Option Bytes) :
    h.wget url f = (0, some (resumed served f)) := by
  rcases f with _ | f
  · exact hserves.absent
  · rcases lt_or_ge f.length served.length with hlt | hge
    · exact hserves.shorter f hlt
    · rw [hserves.complete f hge, resumed, Option.getD_some, List.drop_eq_nil_of_le hge,
        List.append_nil]

theorem length_resumed (f : Option Bytes) : served.length ≤ (resumed served f).length := by
  rw [resumed, List.length_append, List.length_drop]
  omega

/-- A second run of wget finds nothing to go on with. -/
theorem resumed_resumed (f : Option Bytes) :
    resumed served (some (resumed served f)) = resumed served f := by
  conv_lhs => rw [resumed]
  rw [Option.getD_some, List.drop_eq_nil_of_le (length_resumed f), List.append_nil]

theorem resumed_eq_served_iff {f : Option Bytes} :
    resumed served f = served ↔ ∀ left ∈ f, left <+: served := by
  rcases f with _ | f
  · simp [resumed]
  · simp [resumed, List.prefix_iff_eq_append]

/-- A run of `download_package`, in a script of its own. -/
def run (h : Host) (packageName packageUrl checksum : String) (s : State) : Flow × State :=
  downloadPackage h packageName packageUrl checksum Ctx.top s

/-- The state after `n` runs. -/
def runs (h : Host) (packageName packageUrl checksum : String) (n : ℕ) (s : State) : State :=
  (fun s => (run h packageName packageUrl checksum s).2)^[n] s

/-- One of the first two runs succeeds, and leaves what the server has. -/
def Recovers (h : Host) (packageName packageUrl checksum : String) (served : Bytes)
    (s : State) : Prop :=
  ∃ n < 2, ∃ s',
    run h packageName packageUrl checksum (runs h packageName packageUrl checksum n s) =
      (.next 0, s') ∧
    s'.file (s.resolve (h.packagePath packageName)) = some served

/-- The state with the package as wget leaves it. -/
def State.fetched (s : State) (h : Host) (packageName : String) (served : Bytes) : State :=
  let path := s.resolve (h.packagePath packageName)
  { s with file := Function.update s.file path (some (resumed served (s.file path))) }

@[simp] theorem State.fetched_resolve {text : String} :
    (s.fetched h packageName served).resolve text = s.resolve text := rfl

@[simp] theorem State.fetched_file : (s.fetched h packageName served).file
    (s.resolve (h.packagePath packageName)) =
      some (resumed served (s.file (s.resolve (h.packagePath packageName)))) :=
  Function.update_self ..

theorem wp_wget (hserves : Serves h url served) :
    wp (wget h url (h.packagePath packageName)) c.guard Q s ↔
      Q.next 0 (s.fetched h packageName served) := by
  rw [wget, wp_cmd, Post.finish_guard, hserves.wget_eq]
  rfl

theorem wp_verifyChecksum {file : String} : wp (verifyChecksum h file checksum) c Q s ↔
    if (s.file (s.resolve file)).any fun content => h.sha256 content == checksum then Q.next 0 s
    else Q.exit 1 (s.say .error ("Checksum verification failed for " ++ file)) := by
  simp only [verifyChecksum, sha256sumCheck, wp_call, wp_orElse, wp_test_guard, wp_handleError,
    if_true, Post.finish_zero, one_ne_zero, if_false]

/-- What a run does: the file is what wget makes of it, whether its checksum is right or not. -/
theorem wp_downloadPackage (hserves : Serves h url served) :
    wp (downloadPackage h packageName url checksum) c Q s ↔
      let s' := (s.say .info ("Downloading " ++ packageName)).fetched h packageName served
      if h.sha256 (resumed served (s.file (s.resolve (h.packagePath packageName)))) = checksum
      then Q.next 0 s'
      else Q.exit 1
        (s'.say .error ("Checksum verification failed for " ++ h.packagePath packageName)) := by
  simp only [downloadPackage, wp_call, wp_block_cons, wp_block_singleton, wp_logLine, wp_orElse,
    wp_wget hserves, if_true, wp_verifyChecksum, State.fetched_resolve, State.fetched_file,
    State.say_file, Option.any_some, beq_iff_eq, Post.finish_zero]
  rfl

/-- A run leaves the directory of the shell, and the file as wget makes it. -/
theorem run_leaves (hserves : Serves h url served) :
    (run h packageName url checksum s).2.pwd = s.pwd ∧
    (run h packageName url checksum s).2.file (s.resolve (h.packagePath packageName)) =
      some (resumed served (s.file (s.resolve (h.packagePath packageName)))) := by
  have hrun : wp (downloadPackage h packageName url checksum) Ctx.top
      (.always fun s' => s'.pwd = s.pwd ∧ s'.file (s.resolve (h.packagePath packageName)) =
        some (resumed served (s.file (s.resolve (h.packagePath packageName))))) s := by
    rw [wp_downloadPackage hserves]
    split <;> exact ⟨rfl, State.fetched_file⟩
  exact wp_always.1 hrun

theorem run_succeeds_iff (hserves : Serves h url served) :
    (∃ s', run h packageName url checksum s = (.next 0, s')) ↔
      h.sha256 (resumed served (s.file (s.resolve (h.packagePath packageName)))) = checksum := by
  have hrun (s' : State) : run h packageName url checksum s = (.next 0, s') ↔ _ :=
    wp_is.symm.trans (wp_downloadPackage hserves)
  simp only [hrun]
  split
  · next hsum => exact iff_of_true ⟨_, rfl⟩ hsum
  · next hsum =>
    refine iff_of_false ?_ hsum
    rintro ⟨s', hs'⟩
    cases hs'

theorem runs_succ (n : ℕ) : runs h packageName url checksum (n + 1) s =
    (run h packageName url checksum (runs h packageName url checksum n s)).2 :=
  Function.iterate_succ_apply' ..

/-- However often the package is downloaded, wget makes the same of its file. -/
theorem runs_leaves (hserves : Serves h url served) (n : ℕ) :
    (runs h packageName url checksum n s).pwd = s.pwd ∧
    resumed served ((runs h packageName url checksum n s).file
      (s.resolve (h.packagePath packageName))) =
        resumed served (s.file (s.resolve (h.packagePath packageName))) := by
  induction n with
  | zero => exact ⟨rfl, rfl⟩
  | succ n ih =>
    obtain ⟨hpwd, hfile⟩ := ih
    have hresolve : (runs h packageName url checksum n s).resolve (h.packagePath packageName) =
        s.resolve (h.packagePath packageName) := congrArg (Path.resolve · _) hpwd
    obtain ⟨hpwd', hfile'⟩ : _ ∧ (runs h packageName url checksum (n + 1) s).file _ = _ :=
      runs_succ n ▸ run_leaves hserves
    rw [hresolve] at hfile'
    exact ⟨hpwd'.trans hpwd, by rw [hfile', resumed_resumed, hfile]⟩

/-- The file after one more run, however it ends. -/
theorem file_of_runs (hserves : Serves h url served) {n : ℕ} {r : Flow × State}
    (hrun : run h packageName url checksum (runs h packageName url checksum n s) = r) :
    r.2.file (s.resolve (h.packagePath packageName)) =
      some (resumed served (s.file (s.resolve (h.packagePath packageName)))) := by
  obtain ⟨hpwd, hfile⟩ : (runs h packageName url checksum n s).pwd = s.pwd ∧ _ :=
    runs_leaves hserves n
  have hresolve : (runs h packageName url checksum n s).resolve (h.packagePath packageName) =
      s.resolve (h.packagePath packageName) := congrArg (Path.resolve · _) hpwd
  rw [← hrun, ← hresolve, (run_leaves hserves).2, hresolve, hfile]

/-- Downloading again recovers from a file exactly if it is a beginning of the package. -/
theorem downloadPackage_recovers_iff (hserves : Serves h url served)
    (hsum : h.sha256 served = checksum) (packageName : String) (s : State) :
    Recovers h packageName url checksum served s ↔
      ∀ left ∈ s.file (s.resolve (h.packagePath packageName)), left <+: served := by
  rw [← resumed_eq_served_iff]
  constructor
  · rintro ⟨n, -, s', hrun, hfile⟩
    rw [file_of_runs hserves hrun] at hfile
    exact Option.some.inj hfile
  · intro hfile
    obtain ⟨s', hrun⟩ : ∃ s', run h packageName url checksum s = (.next 0, s') :=
      (run_succeeds_iff hserves).2 (by rw [hfile, hsum])
    -- The first run already succeeds.
    refine ⟨0, Nat.two_pos, s', hrun, ?_⟩
    rw [file_of_runs hserves (n := 0) hrun, hfile]

/-- A server with a package of two bytes, and their SHA-256, and that of the package with a
    wrong first byte. -/
def mirror : Host where
  wget _ f := (0, some (resumed [1, 2] f))
  sha256 content :=
    if content = [1, 2] then "a12871fee210fb8619291eaea194581cbd2531e4b23759d225f6806923f63222"
    else if content = [9, 2] then "f9535535516e208e35e9c0e78efc9f998672699f00c34688d01678bbe58b95a6"
    else ""
  members _ := none

theorem serves_mirror (url : String) : Serves mirror url [1, 2] where
  absent := rfl
  shorter _ _ := rfl
  complete f hf := by
    change (0, some (f ++ List.drop f.length [1, 2])) = (0, some f)
    rw [List.drop_eq_nil_of_le hf, List.append_nil]

/-- A directory with the packages `packages/a.tar`, as an earlier run has left it. -/
def leftover (content : Option Bytes) : State where
  file p := if p = ["w", "packages", "a.tar"] then content else none
  dir p := p = ["w", "packages"]
  pwd := ["w"]

theorem downloadPackage_recovers_partial : Recovers mirror "a.tar" "https://example.org/a.tar"
    "a12871fee210fb8619291eaea194581cbd2531e4b23759d225f6806923f63222" [1, 2]
    (leftover (some [1])) :=
  (downloadPackage_recovers_iff (serves_mirror _) rfl _ _).2 (by decide +kernel)

/-- A first byte that is wrong stays wrong. -/
theorem downloadPackage_not_recovered : Serves mirror "https://example.org/a.tar" [1, 2] ∧
    mirror.sha256 [1, 2] = "a12871fee210fb8619291eaea194581cbd2531e4b23759d225f6806923f63222" ∧
    ¬Recovers mirror "a.tar" "https://example.org/a.tar"
      "a12871fee210fb8619291eaea194581cbd2531e4b23759d225f6806923f63222" [1, 2]
      (leftover (some [9])) := by
  refine ⟨serves_mirror _, rfl, ?_⟩
  rintro ⟨n, -, s', hrun, hfile⟩
  rw [file_of_runs (serves_mirror _) hrun] at hfile
  revert hfile
  decide +kernel

/-! ## Builds -/

/-- The context of the body of a function that is called on the left of `||`. -/
def tried : Ctx := ⟨true, false⟩

/-- The two directories of the shell, from `dirs` on, after a change to each of `moves`. -/
def visit (dirs : Path × Option Path) (moves : List Path) : Path × Option Path :=
  moves.foldl (fun dirs p => (p, some dirs.1)) dirs

/-- A build function: a program that changes the directories of the shell by changes of
    directory only. -/
structure BuildFunction where
  body : Sh State
  /-- The directories that it changes to from a state, one after the other. -/
  moves : State → List Path
  tracks : ∀ s, ((body tried s).2.pwd, (body tried s).2.oldpwd) =
    visit (s.pwd, s.oldpwd) (moves s)

/-- A call of `build_package`. -/
structure Call where
  packageName : String
  buildFunction : BuildFunction

/-- A call in a script. -/
def Call.run (h : Host) (call : Call) : Sh State :=
  buildPackage h call.packageName call.buildFunction.body

/-- The calls of a sequence that begin, each with the state in which it does. -/
def begun (h : Host) (calls : List Call) (s : State) : List (Call × State) :=
  Sh.rounds (Call.run h) Ctx.top calls s

/-- The state with the members of an archive, if tar can unpack it. -/
def State.extracted (s : State) (h : Host) (package : String) : Option State :=
  ((s.file (s.resolve (h.packagePath package))).bind h.members).bind fun members =>
    if s.dir (s.resolve h.buildDir) then some (s.unpack (s.resolve h.buildDir) members) else none

/-- The state in which the build function begins, in the directory of the unpacked package. -/
def State.prepared (s : State) (h : Host) (packageName : String) : Option State :=
  ((s.say .info ("Building " ++ packageName)).extracted h packageName).bind fun s' =>
    let dir := s'.resolve (h.buildDir ++ "/" ++ sourceName packageName)
    if s'.dir dir then some (s'.enter dir) else none

/-- The build function of a call begins in `s₁`, and succeeds with `s₂`. -/
def Built (h : Host) (call : Call) (s s₁ s₂ : State) : Prop :=
  s.prepared h call.packageName = some s₁ ∧
    Sh.call call.buildFunction.body ⟨true, true⟩ s₁ = (.next 0, s₂)

/-- A call with a build function that succeeds returns, in the directory that it was made in. -/
def Returns (h : Host) (call : Call) (s : State) : Prop :=
  ∀ s₁ s₂, Built h call s s₁ s₂ →
    ∃ s', call.run h Ctx.top s = (.next 0, s') ∧ s'.pwd = s.pwd

/-- A build function that changes directory makes the last change from where `build_package`
    was called, and this is still a directory in the end. -/
def Stays (h : Host) (call : Call) (s : State) : Prop :=
  ∀ s₁ s₂, Built h call s s₁ s₂ →
    (∀ p ∈ (s₁.pwd :: call.buildFunction.moves s₁).dropLast.getLast?, p = s.pwd) ∧
      s₂.dir s.pwd = true

theorem State.unpack_pwd (p : Path) (members : List (Path × Option Bytes)) :
    (s.unpack p members).pwd = s.pwd := by
  induction members generalizing s with
  | nil => rfl
  | cons member members ih =>
    rw [State.unpack, List.foldl_cons]
    refine Eq.trans ih ?_
    rcases member with ⟨q, _ | content⟩ <;> rfl

theorem State.extracted_pwd {s' : State} (hs : s.extracted h packageName = some s') :
    s'.pwd = s.pwd := by
  obtain ⟨members, -, hs⟩ := Option.bind_eq_some_iff.1 hs
  split at hs
  · cases hs
    exact State.unpack_pwd ..
  · cases hs

theorem State.prepared_oldpwd {s₁ : State} (hs : s.prepared h packageName = some s₁) :
    s₁.oldpwd = some s.pwd := by
  obtain ⟨s', hs', hs⟩ := Option.bind_eq_some_iff.1 hs
  dsimp only at hs
  split at hs
  · cases hs
    exact congrArg some ((State.extracted_pwd hs').trans State.say_pwd)
  · cases hs

/-- Where the last change of directory has been made from. -/
theorem visit_snd (d : Path) (o : Option Path) (moves : List Path) :
    (visit (d, o) moves).2 = ((d :: moves).dropLast.getLast?).or o := by
  induction moves generalizing d o with
  | nil => rfl
  | cons p moves ih =>
    rw [visit, List.foldl_cons, ← visit, ih, List.dropLast_cons_cons, List.getLast?_cons]
    cases (p :: moves).dropLast.getLast? <;> rfl

theorem wp_extractPackage : wp (extractPackage h packageName) c Q s ↔
    (s.extracted h packageName).elim
      (Q.exit 1 (s.say .error ("Failed to extract " ++ packageName))) (Q.next 0) := by
  simp only [extractPackage, tar, wp_call, wp_orElse, wp_cmd, Post.finish_guard, wp_handleError,
    State.extracted]
  rcases (s.file (s.resolve (h.packagePath packageName))).bind h.members with _ | members
  · rfl
  · rw [Option.bind_some]
    dsimp only
    split
    · simp only [if_true, Post.finish_zero, Option.elim_some]
    · rfl

theorem wp_cd_guard {dir : String} : wp (cd dir) c.guard Q s ↔
    if s.dir (s.resolve dir) then Q.next 0 (s.enter (s.resolve dir)) else Q.next 1 s := by
  rw [cd, wp_cmd, Post.finish_guard]
  split <;> rfl

/-- A package that cannot be unpacked, or that lacks its directory, stops the script. -/
theorem wp_buildPackage_of_none {f : Sh State} (hs : s.prepared h packageName = none)
    (hexit : ∀ s', Q.exit 1 s') : wp (buildPackage h packageName f) c Q s := by
  simp only [buildPackage, wp_call, wp_block_cons, wp_logLine, wp_extractPackage]
  rw [State.prepared] at hs
  rcases hs' : (s.say .info ("Building " ++ packageName)).extracted h packageName with _ | s'
  · exact hexit _
  · rw [hs', Option.bind_some] at hs
    dsimp only at hs
    split at hs
    · cases hs
    · next hdir =>
      simp only [Option.elim_some, wp_orElse, wp_cd_guard, if_neg hdir, one_ne_zero, if_false,
        wp_handleError]
      exact hexit _

/-- A package that can be unpacked is built in its directory. -/
theorem wp_buildPackage_of_some {f : Sh State} {s₁ : State}
    (hs : s.prepared h packageName = some s₁) : wp (buildPackage h packageName f) c Q s ↔
      let R : Post State := { Q with next := Q.finish c, brk := Q.next 0, ret := Q.finish c }
      wp (.call f) c.guard { R with
        next := fun n s₂ => if n = 0 then wp cdBack c.enter R s₂
          else Q.exit 1 (s₂.say .error ("Build failed for " ++ packageName)) } s₁ := by
  obtain ⟨s', hs', hs⟩ := Option.bind_eq_some_iff.1 hs
  dsimp only at hs
  split at hs
  · next hdir =>
    cases hs
    simp only [buildPackage, wp_call, wp_block_cons, wp_block_singleton, wp_logLine,
      wp_extractPackage, hs', Option.elim_some, wp_orElse, wp_cd_guard, if_pos hdir, if_true]
    rfl
  · cases hs

/-- `cd -` goes to where the last change of directory was made from, or the script is over. -/
theorem wp_cdBack_top (hexit : ¬Q.exit 1 s) : wp cdBack Ctx.top Q s ↔
    ∃ p, s.oldpwd = some p ∧ s.dir p = true ∧ Q.next 0 (s.enter p) := by
  have hfail : ¬Q.finish Ctx.top 1 s := fun h => hexit ((Post.finish_succ rfl).1 h)
  rw [cdBack, wp_cmd]
  rcases s.oldpwd with _ | p
  · simp [hfail]
  · cases hp : s.dir p <;> simp [hp, hfail]

/-- A call returns only after a build that succeeds. -/
theorem built_of_run {call : Call} {n : ℕ} {s' : State}
    (hrun : call.run h Ctx.top s = (.next n, s')) : ∃ s₁ s₂, Built h call s s₁ s₂ := by
  rcases hs : s.prepared h call.packageName with _ | s₁
  · have hexit : wp (call.run h) Ctx.top { next := fun _ _ => False, exit := fun _ _ => True } s :=
      wp_buildPackage_of_none hs fun _ => trivial
    rw [wp_of_eq hrun] at hexit
    exact hexit.elim
  · rw [← wp_is, Call.run, wp_buildPackage_of_some hs] at hrun
    obtain ⟨hbrk, hret⟩ := call_fst_ne (c := ⟨true, true⟩) (s := s₁)
      (p := call.buildFunction.body)
    rcases hf : Sh.call call.buildFunction.body ⟨true, true⟩ s₁ with ⟨(_ | m) | _ | m | _ | _, s₂⟩
    · exact ⟨s₁, s₂, hs, hf⟩
    · rw [wp_of_eq (c := Ctx.top.guard) hf] at hrun
      cases hrun
    · exact absurd (congrArg Prod.fst hf) hbrk
    · exact absurd (congrArg Prod.fst hf) (hret m)
    all_goals
      rw [wp_of_eq (c := Ctx.top.guard) hf] at hrun
      cases hrun

/-- After a build that succeeds, a call comes back to where the last change of directory was
    made from. -/
theorem run_of_built {call : Call} {n : ℕ} {s₁ s₂ s' : State} (hbuilt : Built h call s s₁ s₂) :
    call.run h Ctx.top s = (.next n, s') ↔
      n = 0 ∧ ∃ p, s₂.oldpwd = some p ∧ s₂.dir p = true ∧ s' = s₂.enter p := by
  rw [← wp_is, Call.run, wp_buildPackage_of_some hbuilt.1, wp_of_eq (c := Ctx.top.guard) hbuilt.2]
  change wp cdBack Ctx.top _ s₂ ↔ _
  rw [wp_cdBack_top fun h => by cases h]
  simp only [Post.finish_zero]
  constructor
  · rintro ⟨p, hp, hdir, hnext⟩
    cases hnext
    exact ⟨rfl, p, hp, hdir, rfl⟩
  · rintro ⟨rfl, p, hp, hdir, rfl⟩
    exact ⟨p, hp, hdir, rfl⟩

theorem Built.oldpwd {call : Call} {s₁ s₂ : State} (hbuilt : Built h call s s₁ s₂) :
    s₂.oldpwd = ((s₁.pwd :: call.buildFunction.moves s₁).dropLast.getLast?).or (some s.pwd) := by
  have hbody : (call.buildFunction.body tried s₁).2 = s₂ :=
    (call_snd (c := ⟨true, true⟩)).symm.trans (congrArg Prod.snd hbuilt.2)
  rw [← State.prepared_oldpwd hbuilt.1, ← visit_snd, ← call.buildFunction.tracks, hbody]

/-- A call returns to where it was made exactly if the last change of directory was made from
    there, and it is still a directory. -/
theorem Built.returns_iff {call : Call} {s₁ s₂ : State} (hbuilt : Built h call s s₁ s₂) :
    (∃ s', call.run h Ctx.top s = (.next 0, s') ∧ s'.pwd = s.pwd) ↔
      (∀ p ∈ (s₁.pwd :: call.buildFunction.moves s₁).dropLast.getLast?, p = s.pwd) ∧
        s₂.dir s.pwd = true := by
  simp only [run_of_built hbuilt, hbuilt.oldpwd, true_and]
  rcases (s₁.pwd :: call.buildFunction.moves s₁).dropLast.getLast? with _ | p
  · constructor
    · rintro ⟨s', ⟨p, hp, hdir, rfl⟩, hpwd⟩
      cases hp
      exact ⟨fun p hp => (Option.some_ne_none p hp.symm).elim, hdir⟩
    · rintro ⟨-, hdir⟩
      exact ⟨s₂.enter s.pwd, ⟨s.pwd, rfl, hdir, rfl⟩, rfl⟩
  · constructor
    · rintro ⟨s', ⟨q, hq, hdir, rfl⟩, hpwd⟩
      cases hq
      obtain rfl : p = s.pwd := hpwd
      exact ⟨fun q hq => (Option.some.inj hq).symm, hdir⟩
    · rintro ⟨hp, hdir⟩
      obtain rfl : p = s.pwd := hp p rfl
      exact ⟨s₂.enter s.pwd, ⟨s.pwd, rfl, hdir, rfl⟩, rfl⟩

theorem returns_iff_stays {call : Call} : Returns h call s ↔ Stays h call s :=
  forall₂_congr fun _ _ => forall_congr' Built.returns_iff

/-- While all calls return to where they were made, all are made in one directory. -/
theorem begun_pwd {calls : List Call} (hreturns : ∀ x ∈ begun h calls s, Returns h x.1 x.2) :
    ∀ x ∈ begun h calls s, x.2.pwd = s.pwd := by
  induction calls generalizing s with
  | nil =>
    intro x hx
    cases hx
  | cons call calls ih =>
    intro x hx
    rw [begun, Sh.rounds] at hx hreturns
    rcases List.mem_cons.1 hx with rfl | hx
    · rfl
    · rcases hrun : call.run h Ctx.top s with ⟨n | _ | _ | _ | _, s'⟩ <;> rw [hrun] at hx hreturns
      · -- The call has returned, and the rest begins where it was made.
        obtain ⟨s₁, s₂, hbuilt⟩ := built_of_run hrun
        obtain ⟨s'', hrun', hpwd⟩ := hreturns _ List.mem_cons_self _ _ hbuilt
        obtain rfl : s' = s'' := (Prod.mk.inj (hrun.symm.trans hrun')).2
        rw [← hpwd]
        exact ih (fun y hy => hreturns y (List.mem_cons_of_mem _ hy)) x hx
      all_goals cases hx

/-- In a sequence of builds, every call returns to where it was made, and every path means for
    it what it has meant for the first one, exactly if all build functions make their last
    change of directory from where they were called. -/
theorem begun_returns_iff (h : Host) (calls : List Call) (s : State) :
    (∀ x ∈ begun h calls s, Returns h x.1 x.2 ∧ ∀ path, x.2.resolve path = s.resolve path) ↔
      ∀ x ∈ begun h calls s, Stays h x.1 x.2 := by
  constructor
  · intro hreturns x hx
    exact returns_iff_stays.1 (hreturns x hx).1
  · intro hstays x hx
    have hpwd := begun_pwd (fun y hy => returns_iff_stays.2 (hstays y hy)) x hx
    exact ⟨returns_iff_stays.2 (hstays x hx), fun path => congrArg (Path.resolve · path) hpwd⟩

/-- `cd dir`, for one directory after the other. -/
def cdAll : List String → Sh State
  | [] => .skip
  | dir :: dirs => .seq (cd dir) (cdAll dirs)

/-- The changes of directory that succeed. -/
def movesOf : List String → State → List Path
  | [], _ => []
  | dir :: dirs, s =>
    if s.dir (s.resolve dir) then s.resolve dir :: movesOf dirs (s.enter (s.resolve dir))
    else movesOf dirs s

theorem cdAll_tracks (dirs : List String) (s : State) :
    ((cdAll dirs tried s).2.pwd, (cdAll dirs tried s).2.oldpwd) =
      visit (s.pwd, s.oldpwd) (movesOf dirs s) := by
  induction dirs generalizing s with
  | nil => rfl
  | cons dir dirs ih =>
    cases hdir : s.dir (s.resolve dir) with
    | true =>
      have hcd : cd dir tried s = (.next 0, s.enter (s.resolve dir)) := by
        simp [cd, Sh.cmd, hdir, Sh.finish]
      simp only [cdAll, Sh.seq, hcd, movesOf, hdir, if_true]
      exact ih (s.enter (s.resolve dir))
    | false =>
      have hcd : cd dir tried s = (.next 1, s) := by simp [cd, Sh.cmd, hdir, Sh.finish, tried]
      simp only [cdAll, Sh.seq, hcd, movesOf, hdir, Bool.false_eq_true, if_false]
      exact ih s

/-- A build function that goes into its build directory, and stays there. -/
def intoBuild : BuildFunction := ⟨cdAll ["build"], movesOf ["build"], cdAll_tracks ["build"]⟩

/-- A machine where every archive has a directory `a-1`, with a directory `build`. -/
def unpacking : Host where
  wget _ f := (4, f)
  sha256 _ := ""
  members _ := some [(["a-1"], none), (["a-1", "build"], none)]

/-- A workspace with the archive `packages/a-1.tar.xz`, and a directory `build`. -/
def workspace : State where
  file p := if p = ["w", "packages", "a-1.tar.xz"] then some [0] else none
  dir p := p = ["w"] || p = ["w", "packages"] || p = ["w", "build"]
  pwd := ["w"]

/-- After a build in a subdirectory, the next package is looked for in the sources of the first. -/
theorem begun_not_returned :
    ¬∀ x ∈ begun unpacking [⟨"a-1.tar.xz", intoBuild⟩, ⟨"a-1.tar.xz", intoBuild⟩] workspace,
      Returns unpacking x.1 x.2 ∧ ∀ path, x.2.resolve path = workspace.resolve path := by
  intro hreturns
  have hsecond : (begun unpacking [⟨"a-1.tar.xz", intoBuild⟩, ⟨"a-1.tar.xz", intoBuild⟩]
      workspace).map (·.2.pwd) = [["w"], ["w", "build", "a-1"]] := by decide +kernel
  have hpwd : ∀ p ∈ (begun unpacking [⟨"a-1.tar.xz", intoBuild⟩, ⟨"a-1.tar.xz", intoBuild⟩]
      workspace).map (·.2.pwd), Path.resolve p "" = Path.resolve ["w"] "" :=
    List.forall_mem_map.2 fun x hx => (hreturns x hx).2 ""
  rw [hsecond] at hpwd
  exact absurd (hpwd ["w", "build", "a-1"] (List.mem_cons_of_mem _ List.mem_cons_self))
    (by decide +kernel)

end LfsBuilder.PackageManagement
