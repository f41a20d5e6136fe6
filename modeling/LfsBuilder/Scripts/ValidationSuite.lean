import LfsBuilder.Library.Shell
import LfsBuilder.Library.Text

/-!
# The check of the build tools

`check_build_tools` of `generated/validation_suite.sh`, with
`check_binary_exists`, which it calls for the entries of its table. The table is
a parameter (`checkBuildToolsOf`), and an entry of it is a text that both
functions take apart: a tool, its description, and perhaps other tools that will
do (`ToolSpec.text`).

* `checkBinaryExists_available`: the other tools count for
  `check_binary_exists`;
* `wp_checkTool`: they are not what `check_build_tools` passes on;
* `checkBuildTools_reports_iff`: the report is right exactly if no other tool
  would do for one that is missing.
-/

namespace LfsBuilder.ValidationSuite

open Shell

/-- The variable of `check_build_tools`, and the messages. -/
structure State where
  missing : ℕ := 0
  log : List (Level × String) := []

/-- The state with one more message. -/
def State.say (s : State) (level : Level) (line : String) : State :=
  { s with log := s.log ++ [(level, line)] }

/-- `log_info`, `log_success`, `log_error` -/
def logLine (level : Level) (line : String) : Sh State := .assign (·.say level line)

/-- `IFS=',' read -ra BINS <<< "$alt_bins"`: the fields of the first line. -/
def bins (altBins : String) : List String :=
  let pieces := (altBins.toList.takeWhile (· ≠ '\n')).splitOn ','
  (if pieces.getLast? = some [] then pieces.dropLast else pieces).map String.ofList

/-- `check_binary_exists`, on a path where `onPath` says what `command -v` finds. -/
def checkBinaryExists (onPath : String → Bool) (bin msg altBins : String) : Sh State :=
  .call <| .block [
    -- First try the main binary
    .ite (.test fun _ => onPath bin) (.block [logLine .success (bin ++ " found"), .ret 0]) .skip,
    -- If main binary not found, try alternatives
    .ite (.test fun _ => altBins != "")
      (.forIn (bins altBins) fun alt =>
        .ite (.test fun _ => onPath alt)
          (.block [logLine .success (msg ++ " found (as " ++ alt ++ ")"), .ret 0]) .skip)
      .skip,
    logLine .error (msg ++ " (" ++ bin ++ " not found)"),
    .ret 1]

/-- `${tool_info%%:*}` -/
def toolOf (toolInfo : String) : String := String.ofList (toolInfo.toList.takeWhile (· ≠ ':'))

/-- `${tool_info#*:}` -/
def descOf (toolInfo : String) : String :=
  match toolInfo.toList.dropWhile (· ≠ ':') with
  | [] => toolInfo
  | _ :: desc => String.ofList desc

/-- The body of the loop of `check_build_tools`. -/
def checkTool (onPath : String → Bool) (toolInfo : String) : Sh State :=
  .ite (.not (checkBinaryExists onPath (toolOf toolInfo) (descOf toolInfo) ""))
    (.assign fun s => { s with missing := s.missing + 1 }) .skip

/-- `check_build_tools`, with the table `tools`. -/
def checkBuildToolsOf (tools : List String) (onPath : String → Bool) : Sh State :=
  .call <| .block [
    logLine .info "Checking essential build tools...",
    .assign fun s => { s with missing := 0 },
    .forIn tools (checkTool onPath),
    .ite (.test fun s => s.missing > 0)
      (.block [
        .read fun s => logLine .error (toString s.missing ++ " essential tools are missing"),
        .ret 1])
      (.block [logLine .success "All essential build tools found", .ret 0])]

/-- The table of `check_build_tools`. -/
def buildTools : List String := [
  "bash:Shell interpreter", "gcc:C compiler", "g++:C++ compiler", "make:Build automation tool",
  "bison:Parser generator", "flex:Lexical analyzer", "gawk:AWK interpreter",
  "texinfo:Documentation system", "tar:Archive tool", "gzip:Compression tool",
  "xz:Compression tool", "wget:Download tool", "curl:Transfer tool", "git:Version control",
  "patch:Patch utility", "sed:Stream editor", "grep:Pattern matching",
  "binutils:Binary utilities", "coreutils:Core utilities:ls,cat,cp",
  "findutils:Find utilities:find,xargs", "diffutils:Diff utilities:diff,cmp",
  "m4:Macro processor"]

/-- `check_build_tools` -/
def checkBuildTools (onPath : String → Bool) : Sh State := checkBuildToolsOf buildTools onPath

variable {onPath : String → Bool} {c : Ctx} {Q : Post State} {s : State}

theorem wp_checkBinaryExists {bin msg altBins : String} :
    wp (checkBinaryExists onPath bin msg altBins) c Q s ↔
      if onPath bin then Q.next 0 (s.say .success (bin ++ " found"))
      else ((bins altBins).find? onPath).elim
        (Q.finish c 1 (s.say .error (msg ++ " (" ++ bin ++ " not found)")))
        fun alt => Q.next 0 (s.say .success (msg ++ " found (as " ++ alt ++ ")")) := by
  simp only [checkBinaryExists, logLine, wp_call, wp_block_cons, wp_block_singleton, wp_ite_test,
    wp_assign, wp_ret, wp_skip, wp_forIn_return, Post.finish_zero, bne_iff_ne]
  split
  · rfl
  · split
    · rfl
    · next halt =>
      have hnone : bins altBins = [] := by
        rw [not_not.1 halt]
        rfl
      rw [hnone]
      rfl

/-- What a round of the loop does: the other tools of an entry play no part. -/
def State.checked (onPath : String → Bool) (s : State) (toolInfo : String) : State :=
  if onPath (toolOf toolInfo) then s.say .success (toolOf toolInfo ++ " found")
  else { s.say .error (descOf toolInfo ++ " (" ++ toolOf toolInfo ++ " not found)") with
    missing := s.missing + 1 }

theorem wp_checkTool {toolInfo : String} : wp (checkTool onPath toolInfo) c Q s ↔
    Q.next 0 (s.checked onPath toolInfo) := by
  have hbins : bins "" = [] := rfl
  rw [checkTool, wp_ite, wp_not, wp_checkBinaryExists, State.checked, hbins]
  split
  · rfl
  · exact Post.finish_guard

/-- How many tools of a table are not on the path. -/
theorem missing_foldl_checked (tools : List String) (s : State) :
    (tools.foldl (State.checked onPath) s).missing =
      s.missing + tools.countP fun toolInfo => !onPath (toolOf toolInfo) := by
  refine foldl_count (g := State.missing) (fun s toolInfo => ?_) tools s
  rw [State.checked]
  cases onPath (toolOf toolInfo) <;> rfl

/-- The last message for a number of missing tools. -/
def summary (missing : ℕ) : Level × String :=
  if missing > 0 then (.error, toString missing ++ " essential tools are missing")
  else (.success, "All essential build tools found")

/-- What a run leaves. -/
def State.counted (onPath : String → Bool) (s : State) (tools : List String) : State :=
  let s' := tools.foldl (State.checked onPath)
    { s.say .info "Checking essential build tools..." with missing := 0 }
  { s' with log := s'.log ++ [summary s'.missing] }

theorem wp_checkBuildToolsOf {tools : List String} :
    wp (checkBuildToolsOf tools onPath) c Q s ↔
      let s' := s.counted onPath tools
      Q.finish c (if s'.missing > 0 then 1 else 0) s' := by
  simp only [checkBuildToolsOf, logLine, wp_call, wp_block_cons, wp_block_singleton, wp_assign,
    wp_forIn_foldl fun _ _ _ => wp_checkTool, wp_ite_test, wp_read, wp_ret, decide_eq_true_eq,
    State.counted, summary]
  split <;> rfl

/-- A run counts the entries whose tool is not on the path. -/
theorem counted_missing (tools : List String) (s : State) : (s.counted onPath tools).missing =
    tools.countP fun toolInfo => !onPath (toolOf toolInfo) :=
  (missing_foldl_checked ..).trans (Nat.zero_add _)

theorem counted_last (tools : List String) (s : State) :
    (s.counted onPath tools).log.getLast? = some (summary (s.counted onPath tools).missing) :=
  List.getLast?_concat ..

/-- An entry of the table: a tool, its description, and other tools that will do. -/
structure ToolSpec where
  tool : String
  description : String
  alternatives : List String
  tool_plain : ':' ∉ tool.toList
  description_plain : ':' ∉ description.toList
  alternatives_plain : ∀ alt ∈ alternatives, alt ≠ "" ∧ ',' ∉ alt.toList ∧ '\n' ∉ alt.toList

/-- The text of an entry: `tool:description`, or `tool:description:alt1,alt2,...` -/
def ToolSpec.text (spec : ToolSpec) : String :=
  spec.tool ++ ":" ++ spec.description ++
    if spec.alternatives = [] then "" else ":" ++ ",".intercalate spec.alternatives

/-- The tool of an entry, or one of the others, is on the path. -/
def ToolSpec.available (spec : ToolSpec) (onPath : String → Bool) : Bool :=
  onPath spec.tool || spec.alternatives.any onPath

@[simp] theorem toolOf_text (spec : ToolSpec) : toolOf spec.text = spec.tool := by
  have htool : ∀ x ∈ spec.tool.toList, decide (x ≠ ':') = true := fun x hx =>
    decide_eq_true fun hcolon => spec.tool_plain (hcolon ▸ hx)
  rw [toolOf, ToolSpec.text, String.append_assoc, String.append_assoc, String.toList_append,
    List.takeWhile_append_of_pos htool, String.toList_append]
  simp

/-- The other tools of an entry are the fields of their part of its text. -/
theorem bins_alternatives (spec : ToolSpec) (hne : spec.alternatives ≠ []) :
    bins (",".intercalate spec.alternatives) = spec.alternatives := by
  have hsplit : (",".intercalate spec.alternatives).toList.splitOn ',' =
      spec.alternatives.map String.toList := by
    rw [String.toList_intercalate]
    refine List.splitOn_intercalate ',' ?_ (List.map_eq_nil_iff.not.2 hne)
    simp only [List.mem_map]
    rintro _ ⟨alt, halt, rfl⟩
    exact (spec.alternatives_plain alt halt).2.1
  have hline : ∀ x ∈ (",".intercalate spec.alternatives).toList, decide (x ≠ '\n') = true := by
    refine fun x hx => decide_eq_true fun hx' => ?_
    rw [hx', ← List.count_pos_iff, ← @Text.count_splitOn _ _ ',' (by decide), hsplit,
      List.count_pos_iff, List.mem_flatten] at hx
    obtain ⟨l, hl, hx⟩ := hx
    obtain ⟨alt, halt, rfl⟩ := List.mem_map.1 hl
    exact (spec.alternatives_plain alt halt).2.2 hx
  have hlast : (spec.alternatives.map String.toList).getLast? ≠ some [] := fun hnil => by
    obtain ⟨alt, halt, hempty⟩ := List.mem_map.1 (List.mem_of_getLast? hnil)
    exact (spec.alternatives_plain alt halt).1 (String.toList_eq_nil_iff.1 hempty)
  rw [bins, List.takeWhile_eq_self_iff.2 hline, hsplit, if_neg hlast, List.map_map]
  exact List.map_id'' (fun _ => String.ofList_toList) _

/-- With the other tools of an entry, `check_binary_exists` says whether it is available. -/
theorem checkBinaryExists_available (spec : ToolSpec) :
    (∃ s', checkBinaryExists onPath spec.tool spec.description
      (",".intercalate spec.alternatives) c s = (.next 0, s')) ↔
        spec.available onPath = true := by
  have hbins : bins (",".intercalate spec.alternatives) = spec.alternatives := by
    by_cases hne : spec.alternatives = []
    · rw [hne]
      rfl
    · exact bins_alternatives spec hne
  rw [← wp_ok, wp_checkBinaryExists, hbins, ToolSpec.available]
  cases htool : onPath spec.tool with
  | true => simp
  | false =>
    rw [Bool.false_or, List.any_eq_true, if_neg Bool.false_ne_true]
    rcases hfind : spec.alternatives.find? onPath with _ | alt
    · rw [Option.elim_none, Post.finish_ok]
      refine iff_of_false one_ne_zero ?_
      rintro ⟨alt, halt, hpath⟩
      exact List.find?_eq_none.1 hfind alt halt hpath
    · exact iff_of_true rfl ⟨alt, List.mem_of_find?_eq_some hfind, List.find?_some hfind⟩

/-! ## The report -/

theorem summary_injective : Function.Injective summary := by
  intro m n h
  rw [summary, summary] at h
  split at h <;> split at h
  · have hlist := congrArg String.toList (Prod.mk.inj h).2
    rw [String.toList_append, String.toList_append, Nat.toString_eq_repr, Nat.toString_eq_repr,
      Nat.toList_repr, Nat.toList_repr] at hlist
    have hdigits : Nat.toDigits 10 m = Nat.toDigits 10 n := List.append_cancel_right hlist
    rw [← Nat.ofDigitChars_ten_toDigits (n := m), hdigits, Nat.ofDigitChars_ten_toDigits]
  · cases h
  · cases h
  · omega

/-- The call returns zero if all entries are available, and no others, and its last message has
    the number of those that are not. -/
def Reports (specs : List ToolSpec) (onPath : String → Bool) (c : Ctx) (s : State) : Prop :=
  let r := checkBuildToolsOf (specs.map ToolSpec.text) onPath c s
  (r.1 = .next 0 ↔ ∀ spec ∈ specs, spec.available onPath = true) ∧
    r.2.log.getLast? = some (summary (specs.countP fun spec => !spec.available onPath))

/-- No more is counted than what is not available exactly if nothing else would do. -/
theorem countP_tool_eq_iff (specs : List ToolSpec) :
    (specs.countP fun spec => !onPath spec.tool) =
        (specs.countP fun spec => !spec.available onPath) ↔
      ∀ spec ∈ specs, onPath spec.tool = false → ∀ alt ∈ spec.alternatives, onPath alt = false := by
  have hle (specs : List ToolSpec) : (specs.countP fun spec => !spec.available onPath) ≤
      specs.countP fun spec => !onPath spec.tool :=
    List.countP_mono_left fun spec _ h => by
      simp only [ToolSpec.available, Bool.not_eq_true', Bool.or_eq_false_iff] at h ⊢
      exact h.1
  induction specs with
  | nil => simp
  | cons spec specs ih =>
    have hspecs := hle specs
    rw [List.countP_cons, List.countP_cons, List.forall_mem_cons]
    refine Iff.trans ?_ (and_congr_right' ih)
    have havailable : spec.available onPath = (onPath spec.tool || spec.alternatives.any onPath) :=
      rfl
    rw [havailable]
    cases onPath spec.tool
    · cases halt : spec.alternatives.any onPath
      · -- Nothing else would do, and both counts go up.
        have hnone : ∀ alt ∈ spec.alternatives, onPath alt = false := by
          simpa using halt
        exact ⟨fun h => ⟨fun _ => hnone, Nat.add_right_cancel h⟩, fun h => congrArg (· + 1) h.2⟩
      · -- Another tool would do, and only the count of the code goes up.
        obtain ⟨alt, hmem, hpath⟩ := List.any_eq_true.1 halt
        refine iff_of_false (fun h => ?_) fun h => ?_
        · simp only [Bool.not_false, if_true, Bool.or_true, Bool.not_true, Bool.false_eq_true,
            if_false] at h
          omega
        · rw [h.1 rfl alt hmem] at hpath
          cases hpath
    · exact ⟨fun h => ⟨fun htrue => absurd htrue Bool.false_ne_true.symm, h⟩, fun h => h.2⟩

/-- The check reports the right tools exactly if there are no other tools on the path for those
    that are missing. -/
theorem checkBuildTools_reports_iff (specs : List ToolSpec) (onPath : String → Bool) (c : Ctx)
    (s : State) : Reports specs onPath c s ↔
      ∀ spec ∈ specs, onPath spec.tool = false → ∀ alt ∈ spec.alternatives, onPath alt = false := by
  have hrun : checkBuildToolsOf (specs.map ToolSpec.text) onPath c s =
      (Sh.finish c (if (s.counted onPath (specs.map ToolSpec.text)).missing > 0 then 1 else 0),
        s.counted onPath (specs.map ToolSpec.text)) :=
    wp_is.1 (wp_checkBuildToolsOf.2 (Post.finish_is.2 rfl))
  have hmissing : (s.counted onPath (specs.map ToolSpec.text)).missing =
      specs.countP fun spec => !onPath spec.tool := by
    rw [counted_missing, List.countP_map]
    exact List.countP_congr fun spec _ => by rw [Function.comp_apply, toolOf_text]
  have hall : (∀ spec ∈ specs, spec.available onPath = true) ↔
      (specs.countP fun spec => !spec.available onPath) = 0 := by
    simp [List.countP_eq_zero]
  have hflow (n : ℕ) : Sh.finish c (if n > 0 then 1 else 0) = .next 0 ↔ n = 0 := by
    rcases n with _ | n
    · exact iff_of_true rfl rfl
    · refine iff_of_false (fun h => ?_) n.succ_ne_zero
      rcases c with ⟨_ | _, _⟩ <;> cases h
  rw [Reports, hrun, hall, ← countP_tool_eq_iff]
  dsimp only
  rw [counted_last, Option.some_inj, summary_injective.eq_iff, hmissing, hflow]
  constructor
  · exact fun h => h.2
  · exact fun h => ⟨by rw [h], h⟩

/-- The entry of coreutils. -/
def coreutils : ToolSpec where
  tool := "coreutils"
  description := "Core utilities"
  alternatives := ["ls", "cat", "cp"]
  tool_plain := by decide
  description_plain := by decide
  alternatives_plain := by decide

example : coreutils.text ∈ buildTools := by decide +kernel

/-- There is no command `coreutils`, and `ls` does not help. -/
theorem checkBuildTools_misreports :
    ¬Reports [coreutils] (fun bin => bin ∈ ["ls", "cat", "cp"]) Ctx.top.guard {} := by
  rintro ⟨hstatus, -⟩
  have havailable : ∀ spec ∈ [coreutils],
      spec.available (fun bin => bin ∈ ["ls", "cat", "cp"]) = true :=
    List.forall_mem_singleton.2 (by decide +kernel)
  exact absurd (hstatus.2 havailable) (by decide +kernel)

end LfsBuilder.ValidationSuite
