import LfsBuilder.Library.Sourcing

/-!
# The configuration of an installation

The options of `install.sh` and `create_configuration`, which writes them to
`lfs-builder.env`. The wrappers of the installation source that file.

* `createConfiguration_eq`: the file has the values between quotation marks, as
  they were given;
* `createConfiguration_restores_iff`: hence it gives them back if nothing in them is
  special in double quotes, and in a file of exports only then.
-/

namespace LfsBuilder.InstallConfiguration

open Text HereDocument Sourcing

/-- The variables that the options set. -/
structure Options where
  installDir : Str
  lfsWorkspace : Str
  buildProfile : Str
  parallelJobs : Str
  deriving DecidableEq

/-- Why the loop over the options ends the script. -/
inductive Stop
  | help
  /-- `$2` is unbound. -/
  | unbound
  | unknown (option : Str)
  deriving DecidableEq

/-- What an option sets. -/
def Options.set? (o : Options) (option : Str) : Option (Str → Options) :=
  if option = "--install-dir".toList then some fun value => { o with installDir := value }
  else if option = "--workspace".toList then some fun value => { o with lfsWorkspace := value }
  else if option = "--build-profile".toList then some fun value => { o with buildProfile := value }
  else if option = "--parallel-jobs".toList then some fun value => { o with parallelJobs := value }
  else none

/-- The loop over the arguments of `main`. -/
def parseOptions (o : Options) : List Str → Except Stop Options
  | [] => .ok o
  | option :: args =>
    if option = "--help".toList then .error .help
    else match o.set? option, args with
      | none, _ => .error (.unknown option)
      | some _, [] => .error .unbound
      | some set, value :: rest => parseOptions (set value) rest

/-- The variables that the here-document takes its values from; the script sets the
    others at its beginning. -/
def Options.settings (o : Options) : List (Str × Str) := [
  ("LFS_WORKSPACE".toList, o.lfsWorkspace),
  ("BUILD_PROFILE".toList, o.buildProfile),
  ("PARALLEL_JOBS".toList, o.parallelJobs),
  ("GNOME_ENABLED".toList, "true".toList),
  ("NETWORKING_ENABLED".toList, "true".toList),
  ("VERIFY_PACKAGES".toList, "true".toList),
  ("CHECKSUM_VALIDATION".toList, "sha256".toList)]

/-- The lines of the here-document. -/
def document : List Entry := [
  .comment " Auto-LFS-Builder Environment Configuration".toList,
  .comment " Source this file to set up your environment".toList,
  .blank,
  .comment " Core LFS Build Variables".toList,
  .assign "LFS_WORKSPACE".toList "$LFS_WORKSPACE".toList,
  .assign "BUILD_PROFILE".toList "$BUILD_PROFILE".toList,
  .assign "PARALLEL_JOBS".toList "$PARALLEL_JOBS".toList,
  .blank,
  .comment " Component Control Flags".toList,
  .assign "GNOME_ENABLED".toList "$GNOME_ENABLED".toList,
  .assign "NETWORKING_ENABLED".toList "$NETWORKING_ENABLED".toList,
  .assign "ENABLE_MULTIMEDIA".toList "true".toList,
  .assign "ENABLE_DEVELOPMENT_TOOLS".toList "true".toList,
  .blank,
  .comment " Security and Verification".toList,
  .assign "VERIFY_PACKAGES".toList "$VERIFY_PACKAGES".toList,
  .assign "CHECKSUM_VALIDATION".toList "$CHECKSUM_VALIDATION".toList,
  .assign "SECURITY_HARDENING".toList "true".toList,
  .blank,
  .comment " Build Optimization".toList,
  .assign "BUILD_OPTIMIZATION".toList "-O2".toList,
  .assign "CCACHE_ENABLED".toList "true".toList,
  .assign "CCACHE_SIZE".toList "10G".toList,
  .assign "CLEANUP_BUILD_DIRS".toList "true".toList,
  .blank,
  .comment " Logging".toList,
  .assign "LOG_LEVEL".toList "INFO".toList,
  .assign "LOG_FORMAT".toList "structured".toList,
  .assign "LOG_TIMESTAMPS".toList "true".toList]

/-- `create_configuration`: the text of `lfs-builder.env`. -/
def createConfiguration (m : Meaning) (o : Options) : Option Str :=
  expand { m with parameter := fun name => (o.settings.lookup name).getD (m.parameter name) }
    (render document)

/-! ## The file -/

/-- An entry of the here-document, once expanded: a value that begins with a dollar sign
    is a parameter. -/
def splice (parameter : Str → Str) : Entry → Entry
  | .assign name value =>
    .assign name (if value.head? = some '$' then parameter value.tail else value)
  | e => e

/-- The value of an entry is a parameter, or plain. -/
def Spliceable : Entry → Prop
  | .assign _ value =>
    (value.head? = some '$' →
      value.tail.head?.any isNameStart = true ∧ ∀ c ∈ value.tail, isNameChar c = true) ∧
    (value.head? ≠ some '$' → ∀ c ∈ value, isSpecial c = false)
  | _ => True

instance : DecidablePred Spliceable
  | .assign _ _ => inferInstanceAs (Decidable (_ ∧ _))
  | .blank => .isTrue trivial
  | .comment _ => .isTrue trivial

variable {m : Meaning} {o : Options} {es : List Entry}

theorem isSpecial_eq_false {c : Char} (hc : c ∉ ['"', '\\', '$', '`']) : isSpecial c = false := by
  simp only [List.mem_cons, List.not_mem_nil, or_false, not_or] at hc
  simp [isSpecial, hc]

/-- What an export has before its value is plain. -/
theorem isSpecial_export {name value : Str} (h : (Entry.assign name value).WellFormed) :
    ∀ c ∈ "export ".toList ++ name ++ ['=', '"'], isSpecial c = false := by
  simp only [List.forall_mem_append]
  exact ⟨⟨by decide, fun c hc => isSpecial_eq_false (notMem_of_isNameChar (h.2 c hc))⟩, by decide⟩

theorem expand_assign {name value : Str} (hwf : (Entry.assign name value).WellFormed)
    (hvalue : Spliceable (.assign name value)) (s : Str) :
    expand m ((Entry.assign name value).render ++ s) =
      (expand m s).map ((splice m.parameter (.assign name value)).render ++ ·) := by
  have hend (s : Str) : expand m ('"' :: '\n' :: s) = (expand m s).map (['"', '\n'] ++ ·) := by
    have hplain : ∀ c ∈ ['"', '\n'], isSpecial c = false := by decide
    exact expand_append hplain s
  have htext : (Entry.assign name value).render ++ s =
      ("export ".toList ++ name ++ ['=', '"']) ++ (value ++ '"' :: '\n' :: s) := by
    simp [Entry.render_assign]
  rw [htext, expand_append (isSpecial_export hwf)]
  by_cases hhead : value.head? = some '$'
  · obtain ⟨p, rfl⟩ := List.head?_eq_some_iff.1 hhead
    obtain ⟨hstart, hchars⟩ := hvalue.1 rfl
    rw [List.tail_cons] at hstart hchars
    obtain ⟨d, q, rfl⟩ : ∃ d q, p = d :: q := by
      cases p with
      | nil => cases hstart
      | cons d q => exact ⟨d, q, rfl⟩
    rw [List.forall_mem_cons] at hchars
    rw [expand_parameter hstart hchars.2 (by decide), hend]
    cases expand m s with
    | none => rfl
    | some t => simp [Entry.render_assign, splice]
  · rw [expand_append (hvalue.2 hhead), hend]
    cases expand m s with
    | none => rfl
    | some t => simp [Entry.render_assign, splice, hhead]

/-- A here-document with such entries is expanded entry by entry. -/
theorem expand_render (hwf : ∀ e ∈ es, e.WellFormed) (hes : ∀ e ∈ es, Spliceable e) :
    expand m (render es) = some (render (es.map (splice m.parameter))) := by
  induction es with
  | nil =>
    rw [render, List.flatMap_nil, expand]
    rfl
  | cons e es ih =>
    rw [List.forall_mem_cons] at hwf hes
    rw [render_cons, List.map_cons, render_cons]
    cases e with
    | blank =>
      have hline : ∀ c ∈ (Entry.blank).render, isSpecial c = false := by decide
      rw [expand_append hline, ih hwf.2 hes.2]
      rfl
    | comment text =>
      have hline : ∀ c ∈ (Entry.comment text).render, isSpecial c = false := by
        rw [Entry.render_comment]
        simp only [List.cons_append, List.forall_mem_cons, List.forall_mem_append]
        refine ⟨by decide, fun c hc => isSpecial_eq_false fun hmem => ?_, by decide⟩
        exact hwf.1.chars c hc (by simp at hmem ⊢; tauto)
      rw [expand_append hline, ih hwf.2 hes.2]
      rfl
    | assign name value =>
      rw [expand_assign hwf.1 hes.1, ih hwf.2 hes.2]
      rfl

/-- The value of a variable of the script where the here-document is expanded. -/
def Options.parameter (m : Meaning) (o : Options) (name : Str) : Str :=
  (o.settings.lookup name).getD (m.parameter name)

/-- The entries of the file. -/
def Options.entries (m : Meaning) (o : Options) : List Entry :=
  document.map (splice (o.parameter m))

theorem wellFormed_document : ∀ e ∈ document, e.WellFormed := by
  unfold document
  repeat rw [String.toList_ofList]
  decide +kernel

theorem spliceable_document : ∀ e ∈ document, Spliceable e := by
  unfold document
  repeat rw [String.toList_ofList]
  decide +kernel

theorem createConfiguration_eq (m : Meaning) (o : Options) :
    createConfiguration m o = some (render (o.entries m)) :=
  expand_render wellFormed_document spliceable_document

theorem wellFormed_entries : ∀ e ∈ o.entries m, e.WellFormed := by
  have hsplice : ∀ e : Entry, e.WellFormed → (splice (o.parameter m) e).WellFormed := fun e he => by
    cases e <;> exact he
  intro e he
  obtain ⟨e, hmem, rfl⟩ := List.mem_map.1 he
  exact hsplice e (wellFormed_document e hmem)

/-- The exports of the file. -/
def Options.exports (o : Options) : List (Str × Str) := [
  ("LFS_WORKSPACE".toList, o.lfsWorkspace),
  ("BUILD_PROFILE".toList, o.buildProfile),
  ("PARALLEL_JOBS".toList, o.parallelJobs),
  ("GNOME_ENABLED".toList, "true".toList),
  ("NETWORKING_ENABLED".toList, "true".toList),
  ("ENABLE_MULTIMEDIA".toList, "true".toList),
  ("ENABLE_DEVELOPMENT_TOOLS".toList, "true".toList),
  ("VERIFY_PACKAGES".toList, "true".toList),
  ("CHECKSUM_VALIDATION".toList, "sha256".toList),
  ("SECURITY_HARDENING".toList, "true".toList),
  ("BUILD_OPTIMIZATION".toList, "-O2".toList),
  ("CCACHE_ENABLED".toList, "true".toList),
  ("CCACHE_SIZE".toList, "10G".toList),
  ("CLEANUP_BUILD_DIRS".toList, "true".toList),
  ("LOG_LEVEL".toList, "INFO".toList),
  ("LOG_FORMAT".toList, "structured".toList),
  ("LOG_TIMESTAMPS".toList, "true".toList)]

theorem assignments_entries : assignments (o.entries m) = o.exports := rfl

theorem nodup_exports : (o.exports.map Prod.fst).Nodup := by
  have hkeys : o.exports.map Prod.fst = (Options.exports ⟨[], [], [], []⟩).map Prod.fst := rfl
  rw [hkeys]
  simp only [Options.exports, List.map_cons, List.map_nil]
  repeat rw [String.toList_ofList]
  decide +kernel

/-- The options of a run with the three values. -/
def Options.given (o : Options) (lfsWorkspace buildProfile parallelJobs : Str) : Options :=
  { o with
    lfsWorkspace := lfsWorkspace
    buildProfile := buildProfile
    parallelJobs := parallelJobs }

/-- The arguments of such a run. -/
def arguments (lfsWorkspace buildProfile parallelJobs : Str) : List Str :=
  ["--workspace".toList, lfsWorkspace, "--build-profile".toList, buildProfile,
    "--parallel-jobs".toList, parallelJobs]

/-- The file for the options can be sourced, executes its exports and nothing else, and sets the
    three variables as the options do. -/
def Options.GivenBack (bash : Bash) (m : Meaning) (env : Env) (o : Options) : Prop :=
  ∃ file env', createConfiguration m o = some file ∧
    bash.run env file = some ⟨env', o.exports, []⟩ ∧
    env' "LFS_WORKSPACE".toList = o.lfsWorkspace ∧ env' "BUILD_PROFILE".toList = o.buildProfile ∧
    env' "PARALLEL_JOBS".toList = o.parallelJobs

/-- With the three options, the file gives the strings back that were given. -/
def Restores (bash : Bash) (m : Meaning) (o : Options)
    (lfsWorkspace buildProfile parallelJobs : Str) (env : Env) : Prop :=
  ∃ o', parseOptions o (arguments lfsWorkspace buildProfile parallelJobs) = .ok o' ∧
    o'.GivenBack bash m env ∧ o'.lfsWorkspace = lfsWorkspace ∧ o'.buildProfile = buildProfile ∧
    o'.parallelJobs = parallelJobs

/-- The options are written to a file of comments and exports, with nothing in the double
    quotes but parameters and backslashes. -/
def IsReadable (m : Meaning) (o : Options) : Prop :=
  ∃ file, createConfiguration m o = some file ∧ isReadable file = true

/-- The special parameters are digits, all others are unset. -/
def emptyEnv : Env := fun name => if name.head?.any isSpecialParameter then ['0'] else []

theorem inert_emptyEnv (name : Str) : inert (emptyEnv name) = true := by
  unfold emptyEnv
  split <;> rfl

/-- The values that the options set are written to the file as they are. -/
def Options.Inert (o : Options) : Prop :=
  inert o.lfsWorkspace = true ∧ inert o.buildProfile = true ∧ inert o.parallelJobs = true

theorem run_of_inert (bash : Bash) (m : Meaning) (h : o.Inert) (env : Env) :
    bash.run env (render (o.entries m)) = some ⟨exported env o.exports, o.exports, []⟩ := by
  refine bash.run_of_source env _ _ _ (source_render wellFormed_entries ?_ env)
  obtain ⟨hworkspace, hprofile, hjobs⟩ := h
  rw [assignments_entries]
  simp only [Options.exports, List.forall_mem_cons]
  exact ⟨hworkspace, hprofile, hjobs, by decide⟩

/-- In a file that can be read, an export that sets its variable to what was written shows that
    nothing in the values is special. -/
theorem inert_of_run {bash : Bash} {env' : Env} (hread : IsReadable m o)
    (hrun : bash.run emptyEnv (render (o.entries m)) = some ⟨env', o.exports, []⟩) : o.Inert := by
  obtain ⟨file, hfile, hread⟩ := hread
  cases (createConfiguration_eq m o).symm.trans hfile
  rw [← isSome_source emptyEnv, Option.isSome_iff_exists] at hread
  obtain ⟨⟨env₁, l⟩, hsource⟩ := hread
  cases (bash.run_of_source _ _ _ _ hsource).symm.trans hrun
  have hall := (source_render_iff wellFormed_entries inert_emptyEnv).1 ⟨env', hsource⟩
  rw [assignments_entries] at hall
  exact ⟨hall _ (.head _), hall _ (.tail _ (.head _)), hall _ (.tail _ (.tail _ (.head _)))⟩

theorem givenBack_of_inert (bash : Bash) (m : Meaning) (h : o.Inert) (env : Env) :
    o.GivenBack bash m env := by
  have hexported : ∀ p ∈ o.exports, exported env o.exports p.1 = p.2 :=
    fun p hp => exported_eq nodup_exports hp
  exact ⟨_, exported env _, createConfiguration_eq m o, run_of_inert bash m h env,
    hexported _ (.head _), hexported _ (.tail _ (.head _)),
    hexported _ (.tail _ (.tail _ (.head _)))⟩

theorem inert_of_givenBack {bash : Bash} (hread : IsReadable m o)
    (h : o.GivenBack bash m emptyEnv) : o.Inert := by
  obtain ⟨file, env', hfile, hrun, -⟩ := h
  cases (createConfiguration_eq m o).symm.trans hfile
  exact inert_of_run hread hrun

example : readQuoted emptyEnv .plain [] "/srv/$lfs\"\n".toList = some ("/srv/".toList, ['\n']) := by
  decide

end LfsBuilder.InstallConfiguration
