import LfsBuilder.Library.HereDocument
import LfsBuilder.Library.Shell

/-!
# The compiler flags of Arch hosts

`configure_arch_build_env` of `scripts/arch-support.sh`, which copies the flags
of `/etc/makepkg.conf` to a file that is to be sourced.

* `extractFlags_eq_iff`: the extraction keeps a value exactly if it has no `=`;
* `configureArchBuildEnv_exits`: the here-document of the file does not expand, so
  that the file stays empty and the script ends;
* `not_restores`: hence no values are restored from the file.
-/

namespace LfsBuilder.ArchBuildEnv

open Text Shell HereDocument

/-- The variables of the function, its file if there is one, and the messages. -/
structure State where
  cflags : Str := []
  cxxflags : Str := []
  ldflags : Str := []
  /-- `arch-build-config.conf` -/
  config : Option Str := none
  log : List (Level × String) := []

/-- `log_info`, `log_success`, `log_warning` -/
def logLine (level : Level) (line : String) : Sh State :=
  .assign fun s => { s with log := s.log ++ [(level, line)] }

/-- The second field of a line: `cut -d'=' -f2` -/
def secondField (line : Str) : Str :=
  match line.dropWhile (· ≠ '=') with
  | [] => line
  | _ :: rest => rest.takeWhile (· ≠ '=')

/-- `$(grep '^name=' "$makepkg_conf" | cut -d'=' -f2 | tr -d '"')`, on the lines of the file -/
def extractFlags (name : Str) (conf : List Str) : Str :=
  let matched := conf.filter fun line => (name ++ ['=']).isPrefixOf line
  let fields := matched.map fun line => (secondField line).filter (· ≠ '"')
  (['\n'].intercalate fields).rdropWhile (· = '\n')

/-- The here-document of the file. -/
def configText : Str := [
  "# Arch Linux Optimized Build Configuration",
  "# Generated by Auto-LFS-Builder Arch Support",
  "",
  "# Compiler flags from makepkg.conf",
  "CFLAGS=\"$\x7bcflags:-\\\"-march=x86-64 -mtune=generic -O2 -pipe -fno-plt -fexceptions\"\x7d\"",
  "CXXFLAGS=\"$\x7bcxxflags:-\\\"$CFLAGS -Wp,-D_FORTIFY_SOURCE=2 -Wformat " ++
    "-Werror=format-security\"\x7d\"",
  "LDFLAGS=\"$\x7bldflags:-\\\"-Wl,-O1,--sort-common,--as-needed,-z,relro,-z,now\"\x7d\"",
  "",
  "# Build optimization",
  "MAKEFLAGS=\"-j$(nproc)\"",
  "",
  "# Arch-specific optimizations",
  "BUILD_ARCH=\"$(uname -m)\"",
  "BUILD_VENDOR=\"arch\"",
  "BUILD_OS=\"linux-gnu\"",
  "",
  "# Enable ccache if available",
  "if command -v ccache &> /dev/null; then",
  "    export PATH=\"/usr/lib/ccache/bin:$PATH\"",
  "    export CCACHE_DIR=\"$HOME/.ccache\"",
  "    export CCACHE_COMPRESS=1",
  "    export CCACHE_COMPRESSLEVEL=6",
  "    export CCACHE_MAXSIZE=5G",
  "fi",
  "",
  "# Export variables",
  "export CFLAGS CXXFLAGS LDFLAGS MAKEFLAGS"].flatMap fun line => line.toList ++ ['\n']

/-- What the here-document is expanded with: the variables of the function, and around
    it those of the script. -/
def State.meaning (m : Meaning) (s : State) : Meaning :=
  { m with
    parameter := fun name =>
      if name = "cflags".toList then s.cflags
      else if name = "cxxflags".toList then s.cxxflags
      else if name = "ldflags".toList then s.ldflags
      else m.parameter name }

/-- `configure_arch_build_env`, on the lines of `/etc/makepkg.conf`, if it exists. -/
def configureArchBuildEnv (m : Meaning) (conf : Option (List Str)) : Sh State :=
  .call <| .block [
    logLine .info "Configuring Arch Linux build environment...",
    match conf with
    | some lines => .block [
        logLine .info "Reading Arch build configuration from /etc/makepkg.conf",
        -- Extract compiler flags
        .assign fun s => { s with
          cflags := extractFlags "CFLAGS".toList lines
          cxxflags := extractFlags "CXXFLAGS".toList lines
          ldflags := extractFlags "LDFLAGS".toList lines },
        -- Create optimized configuration: the file is opened before the document is expanded.
        .assign fun s => { s with config := some [] },
        .read fun s => (expand (s.meaning m) configText).elim (.exit 1) fun text =>
          .assign fun s => { s with config := some text },
        logLine .success "Arch build configuration created: arch-build-config.conf"]
    | none => logLine .warning "makepkg.conf not found, using default configuration"]

/-! ## The extraction -/

/-- The text of an assignment. -/
def assignment (name value : Str) : Str := name ++ '=' :: '"' :: value ++ ['"']

theorem secondField_assignment {name : Str} (hname : '=' ∉ name) (value : Str) :
    secondField (assignment name value) = '"' :: (value ++ ['"']).takeWhile (· ≠ '=') := by
  have hdrop : (assignment name value).dropWhile (· ≠ '=') = '=' :: '"' :: (value ++ ['"']) := by
    rw [assignment, List.append_assoc, List.dropWhile_append_of_pos]
    · rfl
    · exact fun c hc => decide_eq_true fun h => hname (h ▸ hc)
  rw [secondField, hdrop]
  rfl

/-- The flags of the only assignment to a variable, up to the first `=` in them. -/
theorem extractFlags_eq {name value : Str} {conf : List Str} (hname : '=' ∉ name)
    (hquote : '"' ∉ value) (hline : '\n' ∉ value)
    (hconf : (conf.filter fun line => (name ++ ['=']).isPrefixOf line) = [assignment name value]) :
    extractFlags name conf = value.takeWhile (· ≠ '=') := by
  have hfilter : ((value ++ ['"']).takeWhile (· ≠ '=')).filter (· ≠ '"') =
      value.takeWhile (· ≠ '=') := by
    have hkeep : (value.takeWhile (· ≠ '=')).filter (· ≠ '"') = value.takeWhile (· ≠ '=') :=
      List.filter_eq_self.2 fun c hc =>
        decide_eq_true fun h => hquote (h ▸ (List.takeWhile_sublist _).mem hc)
    rw [List.takeWhile_append]
    split
    · next hall =>
      have hself : value.takeWhile (· ≠ '=') = value :=
        (List.takeWhile_prefix _).eq_of_length hall
      rw [hself] at hkeep ⊢
      rw [List.filter_append, hkeep]
      exact List.append_nil _
    · exact hkeep
  have hend : (value.takeWhile (· ≠ '=')).rdropWhile (· = '\n') = value.takeWhile (· ≠ '=') := by
    rw [List.rdropWhile_eq_self_iff]
    refine fun hne h => hline ?_
    rw [← of_decide_eq_true h]
    exact (List.takeWhile_sublist _).mem (List.getLast_mem hne)
  rw [extractFlags, hconf]
  simp only [List.map_singleton, secondField_assignment hname]
  rw [List.filter_cons_of_neg (by decide), hfilter, List.intercalate_singleton]
  exact hend

/-- The extraction keeps the flags exactly if there is no `=` in them. -/
theorem extractFlags_eq_iff {name value : Str} {conf : List Str} (hname : '=' ∉ name)
    (hquote : '"' ∉ value) (hline : '\n' ∉ value)
    (hconf : (conf.filter fun line => (name ++ ['=']).isPrefixOf line) = [assignment name value]) :
    extractFlags name conf = value ↔ '=' ∉ value := by
  rw [extractFlags_eq hname hquote hline hconf, List.takeWhile_eq_self_iff]
  refine ⟨fun h hmem => ?_, fun h c hc => decide_eq_true fun heq => h (heq ▸ hc)⟩
  exact of_decide_eq_true (h _ hmem) rfl

/-! ## The here-document -/

/-- The first braces of the document do not close: in them, the quotation mark before
    the closing brace begins a quoted text, and so does every other one after it. -/
theorem expand_configText (m : Meaning) : expand m configText = none := by
  have hsplit : configText = configText.takeWhile (!isSpecial ·) ++
      '$' :: '{' :: (configText.dropWhile (!isSpecial ·)).drop 2 := by
    unfold configText
    repeat rw [List.flatMap_cons]
    rw [String.toList_append]
    repeat rw [String.toList_ofList]
    decide +kernel
  have hplain : ∀ c ∈ configText.takeWhile (!isSpecial ·), isSpecial c = false := fun c hc => by
    simpa using List.mem_takeWhile_imp hc
  have hclosing : closing [.braces] ((configText.dropWhile (!isSpecial ·)).drop 2) = none := by
    unfold configText
    repeat rw [List.flatMap_cons]
    rw [String.toList_append]
    repeat rw [String.toList_ofList]
    decide +kernel
  rw [hsplit, expand_append hplain, expand_eq_none hclosing, Option.map_none]

variable {m : Meaning} {lines : List Str} {c : Ctx} {s : State}

/-- The function ends the script, with the file empty. -/
theorem configureArchBuildEnv_exits : wp (configureArchBuildEnv m (some lines)) c
    { next := fun _ _ => False, exit := fun n s' => n = 1 ∧ s'.config = some [] } s := by
  simp only [configureArchBuildEnv, logLine, wp_call, wp_block_cons, wp_block_singleton, wp_assign,
    wp_read, expand_configText]
  exact ⟨rfl, rfl⟩

theorem configureArchBuildEnv_config :
    (configureArchBuildEnv m (some lines) c s).2.config = some [] := by
  have hexits : wp (configureArchBuildEnv m (some lines)) c
      (.always fun s' => s'.config = some []) s :=
    wp_mono configureArchBuildEnv_exits (fun _ _ h => h.elim) (fun _ h => h.elim)
      (fun _ _ h => h.elim) (fun _ _ h => h.2) fun _ h => h.elim
  exact wp_always.1 hexits

/-- What bash makes of the variables when it sources a file. -/
structure Sourcing where
  run : (Str → Str) → Str → Option (Str → Str)
  /-- An empty file changes nothing. -/
  run_nil : ∀ env, run env [] = some env

/-- Sourcing the file sets the three variables to the values given. -/
def Sourcing.Sets (bash : Sourcing) (file cflags cxxflags ldflags : Str) : Prop :=
  ∀ env, ∃ env', bash.run env file = some env' ∧ env' "CFLAGS".toList = cflags ∧
    env' "CXXFLAGS".toList = cxxflags ∧ env' "LDFLAGS".toList = ldflags

/-- An empty file leaves a shell with other flags as it is. -/
theorem Sourcing.not_sets_nil (bash : Sourcing) (cflags cxxflags ldflags : Str) :
    ¬bash.Sets [] cflags cxxflags ldflags := fun h => by
  obtain ⟨env', hrun, hcflags, _⟩ := h fun _ => 'x' :: cflags
  rw [bash.run_nil] at hrun
  rw [← Option.some_inj.1 hrun] at hcflags
  exact List.cons_ne_self _ _ hcflags

/-- After `configure_arch_build_env`, sourcing its file sets the three variables to the
    values given. -/
def Restores (bash : Sourcing) (m : Meaning) (lines : List Str) (cflags cxxflags ldflags : Str)
    (c : Ctx) (s : State) : Prop :=
  ∃ file, (configureArchBuildEnv m (some lines) c s).2.config = some file ∧
    bash.Sets file cflags cxxflags ldflags

/-- Whatever the configuration and the values are, they are not restored. -/
theorem not_restores (bash : Sourcing) (m : Meaning) (lines : List Str)
    (cflags cxxflags ldflags : Str) (c : Ctx) (s : State) :
    ¬Restores bash m lines cflags cxxflags ldflags c s := by
  rintro ⟨file, hfile, hsets⟩
  rw [configureArchBuildEnv_config, Option.some_inj] at hfile
  exact bash.not_sets_nil cflags cxxflags ldflags (hfile ▸ hsets)

/-- Not even flags that are extracted as they are. -/
theorem not_restores_pipe :
    ¬Restores ⟨fun env _ => some env, fun _ => rfl⟩ ⟨fun _ => [], id, fun _ => []⟩
      [assignment "CFLAGS".toList "-O2 -pipe".toList,
        assignment "CXXFLAGS".toList "-O2 -pipe".toList,
        assignment "LDFLAGS".toList "-Wl,-O1".toList]
      "-O2 -pipe".toList "-O2 -pipe".toList "-Wl,-O1".toList .top {} := by
  rintro ⟨file, hfile, hsets⟩
  rw [configureArchBuildEnv_config, Option.some_inj] at hfile
  exact Sourcing.not_sets_nil _ _ _ _ (hfile ▸ hsets)

end LfsBuilder.ArchBuildEnv
