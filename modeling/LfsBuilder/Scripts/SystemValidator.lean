import LfsBuilder.Scripts.Validators

/-!
# The system validator

`system_validator.sh`, which sources the same files as the other validators. It calls
functions that none of them defines, so that the shell looks for programs of these names.

* `lookup_eq_program`: which of the names is looked for on the path;
* `exitStatus_systemValidator_iff`: the verdict.
-/

namespace LfsBuilder.Validators

open Shell ValidationSuite

/-- The functions that are defined by the sourced files and the script itself. -/
def functions : List String := [
  -- logging.sh
  "_timestamp", "log_info", "log_success", "log_warning", "log_error",
  -- error_handling.sh
  "handle_error", "on_exit",
  -- package_management.sh
  "check_binary_exists", "verify_checksum", "extract_package", "download_package",
  "build_package",
  -- validation_suite.sh, which defines some of these again
  "check_system_requirements", "check_build_tools", "check_compiler_versions",
  "check_permissions", "check_network", "check_environment", "check_optional_components", "main",
  -- system_validator.sh
  "validate_system"]

/-- What a name without arguments stands for. -/
inductive Command
  | function
  | program
  | missing
  deriving DecidableEq

/-- A function comes before a program on the path. -/
def lookup (h : Host) (name : String) : Command :=
  if name ∈ functions then .function else if h.onPath name then .program else .missing

/-- A command that stands for no function, where the status of a program is given: without one,
    the status is 127. -/
def external (h : Host) (status : String → ℕ) (name : String) : Sh State :=
  .cmd fun _ s => (if lookup h name = .program then status name else 127, s)

/-- `validate_system`, where `GNOME_ENABLED` has the value `gnome`. -/
def validateSystem (h : Host) (status : String → ℕ) (gnome : Option String) : Sh State :=
  .call <| .block [
    .orElse (external h status "validate_lfs_system") (.ret 1),
    .ite (.test fun _ => orDefault gnome "false" = "true")
      (.orElse (external h status "validate_gnome_desktop") (.ret 1)) .skip]

/-- The body of `main` of `system_validator.sh`. -/
def validatorMain (h : Host) (status : String → ℕ) (gnome : Option String) : Sh State := .block [
  logLine .info "Validating final system",
  validateSystem h status gnome,
  logLine .success "System validation complete"]

/-- `system_validator.sh` -/
def systemValidator (h : Host) (status : String → ℕ) (gnome : Option String) : Sh State :=
  .block [prelude h, .callTrap (onError 26) (validatorMain h status gnome)]

variable {h : Host} {status : String → ℕ} {gnome : Option String}

/-- There is a program with the name, and it succeeds. -/
def Succeeds (h : Host) (status : String → ℕ) (name : String) : Prop :=
  h.onPath name = true ∧ status name = 0

theorem lookup_eq_program {name : String} (hname : name ∉ functions) :
    lookup h name = .program ↔ h.onPath name = true := by
  rw [lookup, if_neg hname]
  by_cases hpath : h.onPath name = true
  · simp [hpath]
  · simp [hpath]

/-- Where no function has the name, the next command is carried out if there is a program that
    succeeds, and otherwise `validate_system` returns 1. -/
theorem wp_external {name : String} {c : Ctx} {Q : Post State} {s : State}
    (hname : name ∉ functions) (hok : Succeeds h status name → Q.next 0 s)
    (hbad : ¬Succeeds h status name → Q.ret 1 s) :
    wp (.orElse (external h status name) (.ret 1)) c Q s := by
  have hfail (hn : ¬Succeeds h status name) : wp (Sh.ret 1) c Q s := wp_ret.2 (hbad hn)
  rw [wp_orElse, external, wp_cmd, Post.finish_guard]
  by_cases hpath : h.onPath name = true
  · rw [if_pos ((lookup_eq_program hname).2 hpath)]
    dsimp only
    by_cases hstatus : status name = 0
    · rw [if_pos hstatus]
      exact hok ⟨hpath, hstatus⟩
    · rw [if_neg hstatus]
      exact hfail fun h => hstatus h.2
  · rw [if_neg fun h => hpath ((lookup_eq_program hname).1 h)]
    exact hfail fun h => hpath h.1

/-- What `validate_system` asks for. -/
def Validates (h : Host) (status : String → ℕ) (gnome : Option String) : Prop :=
  Succeeds h status "validate_lfs_system" ∧
    (orDefault gnome "false" = "true" → Succeeds h status "validate_gnome_desktop")

theorem wp_validateSystem {Q : Post State} {s : State}
    (hok : Validates h status gnome → Q.next 0 s)
    (hbad : ¬Validates h status gnome → Q.exit 1 s) :
    wp (validateSystem h status gnome) Ctx.top Q s := by
  have hnext (hv : Validates h status gnome) : Q.finish Ctx.top 0 s := Post.finish_zero.2 (hok hv)
  have hret (hv : ¬Validates h status gnome) : Q.finish Ctx.top 1 s :=
    (Post.finish_succ rfl).2 (hbad hv)
  rw [validateSystem, wp_call]
  refine wp_block_cons.2 (wp_external (by decide) (fun hlfs => ?_) fun hlfs => ?_)
  · refine wp_block_singleton.2 (wp_ite_test.2 ?_)
    split
    · next hgnome =>
      refine wp_external (by decide) (fun hdesktop => ?_) fun hdesktop => ?_
      · exact hnext ⟨hlfs, fun _ => hdesktop⟩
      · exact hret fun hv => hdesktop (hv.2 (of_decide_eq_true hgnome))
    · next hgnome =>
      exact wp_skip.2 (hnext ⟨hlfs, fun h => absurd (decide_eq_true h) hgnome⟩)
  · exact hret fun hv => hlfs hv.1

/-- The validator passes exactly on a ready host that has a program with the name of the function
    which no file defines, and, if the desktop is enabled, one with the name of the other. -/
theorem exitStatus_systemValidator_iff : exitStatus (systemValidator h status gnome) = some 0 ↔
    Ready h ∧ Succeeds h status "validate_lfs_system" ∧
      (orDefault gnome "false" = "true" → Succeeds h status "validate_gnome_desktop") := by
  refine exitStatus_eq_zero_iff fun s _ Q hok hbad => ?_
  rw [validatorMain]
  refine wp_block_cons.2 (wp_assign.2 (wp_block_cons.2 (wp_validateSystem ?_ ?_)))
  · exact fun hv => hok hv _
  · exact fun hv => (hbad hv _).2

end LfsBuilder.Validators
