import LfsBuilder.Library.Decimal
import LfsBuilder.Scripts.VersionOrder

/-!
# The support of Arch hosts

`validate_arch_system` of `scripts/arch-support.sh`, with `check_aur_helper`,
on a host given by the outcomes of the probes.

* `validateArchSystem_passes_iff`: the function reports a version of glibc as
  compatible exactly if bc is installed and finds it to be at least 2.31;
* `gates_agree_iff`: for which versions this is what `version_compare` of
  `scripts/arch-validation.sh` says, where bc is installed.
-/

namespace LfsBuilder.ArchSupport

open Shell

/-- The outcomes of the probes: what the commands print, and which of them succeed. -/
structure Host where
  /-- `uname -r` -/
  kernelVersion : String
  /-- `ldd --version | head -n1 | grep -oE '[0-9]+\.[0-9]+' | head -n1` -/
  glibcVersion : String
  gccVersion : String
  /-- The available kilobytes that df prints. -/
  availableSpace : String
  /-- The available megabytes that free prints. -/
  availableMemory : String
  hasMultilib : Bool
  /-- `command -v` -/
  hasCommand : String → Bool
  /-- The value of a text that is not a numeral. -/
  expression : String → Arith

/-- The variables of the functions, and the messages. -/
structure State where
  validationPassed : Bool := true
  spaceGb : ℤ := 0
  log : List (Level × String) := []

/-- `log_info`, `log_success`, `log_warning`, `log_error` -/
def logLine (level : Level) (line : String) : Sh State :=
  .assign fun s => { s with log := s.log ++ [(level, line)] }

/-- The helpers that `check_aur_helper` looks for. -/
def aurHelpers : List String := ["yay", "paru", "trizen", "yaourt"]

/-- `check_aur_helper`: the name that it prints, if it succeeds. -/
def Host.aurHelper? (h : Host) : Option String := aurHelpers.find? h.hasCommand

/-- `$(echo "$version >= minimum" | bc -l) -eq 1`, where bc is installed -/
def Host.bcTest (h : Host) (version minimum : String) : Option Bool :=
  (Arith.eval h.expression (Decimal.bcGreaterEqual version minimum)).compare (fun a b => a = b)
    (.value 1)

/-- The same test on the host. Without bc, there is nothing to compare with one. -/
def Host.versionTest (h : Host) (version minimum : String) : Option Bool :=
  if h.hasCommand "bc" then h.bcTest version minimum
  else (Arith.eval h.expression "").compare (fun a b => a = b) (.value 1)

/-- A test of a version by bc, with its messages. -/
def requireVersion (h : Host) (name version minimum : String) : Sh State :=
  .ite (.compare (h.versionTest version minimum))
    (logLine .success (name ++ " version " ++ version ++ " is compatible"))
    (.block [
      logLine .error
        (name ++ " version " ++ version ++ " may be too old (need >= " ++ minimum ++ ")"),
      .assign fun s => { s with validationPassed := false }])

/-- `required_space`: 50GB in KB -/
def requiredSpace : ℤ := 52428800

/-- `[[ "$available_space" -gt "$required_space" ]]` -/
def Host.spaceTest (h : Host) : Option Bool :=
  (Arith.eval h.expression h.availableSpace).compare (fun a b => a > b) (.value requiredSpace)

/-- `$(( available_space / 1024 / 1024 ))` -/
def Host.spaceGb (h : Host) : Option ℤ :=
  (Arith.eval h.expression h.availableSpace).number?.map fun n => (n.tdiv 1024).tdiv 1024

/-- `[[ "$available_memory" -gt 2048 ]]` -/
def Host.memoryTest (h : Host) : Option Bool :=
  (Arith.eval h.expression h.availableMemory).compare (fun a b => a > b) (.value 2048)

/-- `validate_arch_system` -/
def validateArchSystem (h : Host) : Sh State :=
  .call <| .block [
    logLine .info "Validating Arch Linux system for LFS building...",
    .assign fun s => { s with validationPassed := true },
    -- Check kernel version
    logLine .info ("Kernel version: " ++ h.kernelVersion),
    -- Check glibc version
    requireVersion h "Glibc" h.glibcVersion "2.31",
    -- Check GCC version
    requireVersion h "GCC" h.gccVersion "9.0",
    -- Check available disk space
    .ite (.compare h.spaceTest)
      (.block [
        .expand h.spaceGb fun n s => { s with spaceGb := n },
        .read fun s => logLine .success
          ("Sufficient disk space available (" ++ toString s.spaceGb ++ "GB)")])
      (.block [
        logLine .error "Insufficient disk space (need at least 50GB)",
        .assign fun s => { s with validationPassed := false }]),
    -- Check available memory
    .ite (.compare h.memoryTest)
      (logLine .success ("Sufficient memory available (" ++ h.availableMemory ++ "MB)"))
      (logLine .warning
        ("Low memory available (" ++ h.availableMemory ++ "MB), consider adding swap")),
    -- Check for multilib support
    .ite (.test fun _ => h.hasMultilib)
      (logLine .success "Multilib repository enabled")
      (logLine .info "Multilib repository not enabled (may be needed for some packages)"),
    -- Check for AUR helper
    .ite (.test fun _ => h.aurHelper?.isSome)
      (logLine .success ("AUR helper available: " ++ h.aurHelper?.getD ""))
      (logLine .info "No AUR helper detected (will install yay if needed)"),
    .ite (.test fun s => s.validationPassed)
      (.block [logLine .success "System validation passed", .ret 0])
      (.block [logLine .error "System validation failed", .ret 1])]

variable {h : Host} {c : Ctx} {Q : Post State} {s : State}

@[simp] theorem wp_logLine {level : Level} {line : String} : wp (logLine level line) c Q s ↔
    Q.next 0 { s with log := s.log ++ [(level, line)] } := Iff.rfl

theorem wp_requireVersion {name version minimum : String} :
    wp (requireVersion h name version minimum) c Q s ↔
      (h.versionTest version minimum).elim (Q.exit 1 s) fun b =>
        if b then Q.next 0
          { s with log := s.log ++
            [(.success, name ++ " version " ++ version ++ " is compatible")] }
        else Q.next 0
          { s with
            validationPassed := false
            log := s.log ++ [(.error, name ++ " version " ++ version ++
              " may be too old (need >= " ++ minimum ++ ")")] } := by
  simp only [requireVersion, wp_ite_compare, wp_logLine, wp_block_cons, wp_block_singleton,
    wp_assign]

/-- A version passes its test exactly if bc is installed and finds it to be large enough. -/
theorem versionTest_iff {version minimum : String} : h.versionTest version minimum = some true ↔
    h.hasCommand "bc" = true ∧ h.bcTest version minimum = some true := by
  have hempty : (Arith.eval h.expression "").compare (fun a b => a = b) (.value 1) =
      some false := by
    rw [Arith.eval, if_pos rfl]
    rfl
  rw [Host.versionTest]
  split
  · next hbc => exact (and_iff_right hbc).symm
  · next hbc =>
    rw [hempty]
    exact iff_of_false (fun h => by cases h) fun h => hbc h.1

/-- Space that passes its test is a number. -/
theorem spaceGb_of_spaceTest (hspace : h.spaceTest = some true) : ∃ n, h.spaceGb = some n := by
  rw [Host.spaceTest] at hspace
  rw [Host.spaceGb]
  cases hvalue : Arith.eval h.expression h.availableSpace with
  | value n => exact ⟨_, rfl⟩
  | error => rw [hvalue] at hspace; cases hspace
  | unset => rw [hvalue] at hspace; cases hspace

theorem elim_false {α : Type*} (o : Option α) : (o.elim False fun _ => False) ↔ False := by
  cases o <;> rfl

theorem elim_if {o : Option Bool} {P : Prop} :
    (o.elim False fun b => if b then P else False) ↔ o = some true ∧ P := by
  rcases o with _ | _ | _ <;> simp

/-- The system passes the validation exactly if glibc, gcc and the disk space pass their tests,
    and the memory can be compared. -/
theorem validateArchSystem_passes_iff :
    (∃ s', validateArchSystem h c s = (.next 0, s')) ↔
      h.versionTest h.glibcVersion "2.31" = some true ∧
        h.versionTest h.gccVersion "9.0" = some true ∧ h.spaceTest = some true ∧
        h.memoryTest.isSome := by
  rw [← wp_ok]
  simp only [validateArchSystem, wp_call, wp_block_cons, wp_block_singleton, wp_logLine, wp_assign,
    wp_requireVersion, wp_ite_compare, wp_expand, wp_read, wp_ite_test, wp_ret, ite_self, if_true,
    Bool.false_eq_true, if_false, Post.ok_exit, Post.finish_ok, one_ne_zero, elim_false, elim_if,
    and_false]
  refine and_congr_right' (and_congr_right' (and_congr_right fun hspace => ?_))
  obtain ⟨n, hn⟩ := spaceGb_of_spaceTest hspace
  rw [hn, Option.elim_some]
  cases h.memoryTest <;> simp

/-! ## The two gates -/

/-- The first two digits of a number with two digits or more. -/
def leadingTwo (n : ℕ) : ℕ := n / 10 ^ ((Nat.toDigits 10 n).length - 2)

/-- Thirty-one hundredths, or more, after the point. -/
theorem hundredths_le_iff (n : ℕ) : 31 * 10 ^ (Nat.toDigits 10 n).length ≤ 100 * n ↔
    4 ≤ n ∧ n < 10 ∨ 10 ≤ n ∧ 31 ≤ leadingTwo n := by
  have hone : (Nat.toDigits 10 n).length ≤ 1 ↔ n < 10 :=
    Nat.length_toDigits_le_iff (by decide) (by decide)
  have hpos : 0 < (Nat.toDigits 10 n).length := Nat.length_toDigits_pos
  rw [leadingTwo]
  rcases lt_or_ge n 10 with hn | hn
  · have hlength : (Nat.toDigits 10 n).length = 1 := by
      have := hone.2 hn
      omega
    rw [hlength]
    omega
  · obtain ⟨d, hd⟩ : ∃ d, (Nat.toDigits 10 n).length = d + 2 :=
      ⟨(Nat.toDigits 10 n).length - 2, by omega⟩
    rw [hd, Nat.add_sub_cancel, Nat.le_div_iff_mul_le (by positivity), pow_add]
    omega

/-- Two numerals with a point between them are at least 2.31, as decimal numbers. -/
theorem decimal_le_iff (major minor : ℕ) :
    (⟨231, 2⟩ : Decimal).le ⟨major * 10 ^ (Nat.toDigits 10 minor).length + minor,
      (Nat.toDigits 10 minor).length⟩ = true ↔
      2 < major ∨ major = 2 ∧ (4 ≤ minor ∧ minor < 10 ∨ 10 ≤ minor ∧ 31 ≤ leadingTwo minor) := by
  have hminor : minor < 10 ^ (Nat.toDigits 10 minor).length :=
    (Nat.length_toDigits_le_iff (by decide) Nat.length_toDigits_pos).1 le_rfl
  rw [← hundredths_le_iff, Decimal.le, decide_eq_true_eq]
  dsimp only
  generalize 10 ^ (Nat.toDigits 10 minor).length = p at *
  rcases lt_trichotomy major 2 with hlt | rfl | hgt
  · have : major * p ≤ 1 * p := Nat.mul_le_mul_right p (by omega)
    omega
  · omega
  · have : 3 * p ≤ major * p := Nat.mul_le_mul_right p hgt
    omega

/-- The test by bc, for two numerals with a point between them. -/
theorem bcTest_dotted (h : Host) (major minor : ℕ) :
    h.bcTest (ArchValidation.dotted [major, minor]) "2.31" = some (decide (2 < major ∨
      major = 2 ∧ (4 ≤ minor ∧ minor < 10 ∨ 10 ≤ minor ∧ 31 ≤ leadingTwo minor))) := by
  have hversion := Decimal.parse?_numerals
    (ArchValidation.splitOn_dotted (List.cons_ne_nil major [minor]))
  have hminimum : Decimal.parse? "2.31".toList = some ⟨231, 2⟩ := by decide +kernel
  have hone : Arith.eval h.expression "1" = .value 1 := Arith.eval_repr (n := 1) _ (by decide)
  have hzero : Arith.eval h.expression "0" = .value 0 := Arith.eval_repr (n := 0) _ (by decide)
  rw [Host.bcTest, Decimal.bcGreaterEqual, hversion, hminimum]
  dsimp only
  simp only [decimal_le_iff]
  split
  · next hle => rw [hone, decide_eq_true hle]; rfl
  · next hle => rw [hzero, decide_eq_false hle]; rfl

/-- Numerals that are too large for bash wrap around. -/
def Wraps (h : ArchValidation.Host) : Prop :=
  ∀ n : ℕ, 2 ^ 63 ≤ n → h.expression n.repr = .value (Arith.wrap n)

theorem Wraps.eval_repr {h : ArchValidation.Host} (hwraps : Wraps h) (n : ℕ) :
    Arith.eval h.expression n.repr = .value (Arith.wrap n) := by
  rcases lt_or_ge n (2 ^ 63) with hn | hn
  · rw [Arith.eval_repr _ hn, Arith.wrap_of_lt hn]
  · rw [Arith.eval, if_neg Nat.repr_ne_empty, Arith.numeral?_repr, if_neg hn.not_gt]
    exact hwraps n hn

/-- The fields of numerals with dots between them. -/
theorem Wraps.field {h : ArchValidation.Host} (hwraps : Wraps h) (xs : List ℕ) {i : ℕ}
    (hi : i < xs.length) : h.field (h.fields (ArchValidation.dotted xs)) i =
      .value (Arith.wrap (xs.getD i 0)) := by
  rw [ArchValidation.Host.field,
    ArchValidation.fields_dotted h (List.ne_nil_of_length_pos (by omega)),
    List.getD_eq_getElem _ _ (by rwa [List.length_map]), List.getElem_map,
    List.getD_eq_getElem _ _ hi, ArchValidation.orDefault, if_neg Nat.repr_ne_empty,
    hwraps.eval_repr]

/-- `version_compare` on two fields. -/
theorem orderFrom_pair {h : ArchValidation.Host} {ver1 ver2 : List String} {a b x y : ℤ}
    (ha : h.field ver1 0 = .value a) (hb : h.field ver1 1 = .value b)
    (hx : h.field ver2 0 = .value x) (hy : h.field ver2 1 = .value y) :
    h.orderFrom ver1 ver2 [0, 1] = some (decide (x < a ∨ a = x ∧ y ≤ b)) := by
  simp only [ArchValidation.Host.orderFrom, ha, hb, hx, hy, Arith.compare]
  rcases lt_trichotomy a x with hlt | rfl | hgt
  · simp [hlt, hlt.ne, hlt.not_gt]
  · rcases lt_or_ge b y with hlt | hge
    · simp [hlt, hlt.not_gt]
    · simp [hge, hge.not_gt]
  · simp [hgt]

/-- `version_compare` with 2.31, for two numerals with a point between them. -/
theorem atLeast_dotted {h : ArchValidation.Host} (hwraps : Wraps h) (major minor : ℕ) :
    h.atLeast (ArchValidation.dotted [major, minor]) "2.31" = some (decide
      (2 < Arith.wrap major ∨ Arith.wrap major = 2 ∧ 31 ≤ Arith.wrap minor)) := by
  have htext : "2.31" = ArchValidation.dotted [2, 31] := by decide +kernel
  have hmajor := hwraps.field [major, minor] Nat.two_pos
  have hminor := hwraps.field [major, minor] Nat.one_lt_two
  have htwo := hwraps.field [2, 31] Nat.two_pos
  have hthirtyOne := hwraps.field [2, 31] Nat.one_lt_two
  rw [htext, ArchValidation.Host.atLeast]
  split
  · next heq =>
    rw [heq] at hmajor hminor
    have hmajor : Arith.wrap major = 2 := Arith.value.inj (hmajor.symm.trans htwo)
    have hminor : Arith.wrap minor = 31 := Arith.value.inj (hminor.symm.trans hthirtyOne)
    simp [hmajor, hminor]
  · have hlength : max (h.fields (ArchValidation.dotted [major, minor])).length
        (h.fields (ArchValidation.dotted [2, 31])).length = 2 := by
      simp [ArchValidation.fields_dotted]
    rw [hlength]
    exact orderFrom_pair hmajor hminor htwo hthirtyOne

/-- The versions for which bc and bash agree whether they are at least 2.31. -/
def GatesAgree (major minor : ℕ) : Prop :=
  major < 2 ∨
  major = 2 ∧ (minor < 4 ∨ 10 ≤ minor ∧ (31 ≤ leadingTwo minor ↔ 31 ≤ Arith.wrap minor)) ∨
  2 < major ∧ (2 < Arith.wrap major ∨ Arith.wrap major = 2 ∧ 31 ≤ Arith.wrap minor)

/-- The two gates agree for a version, where bc is installed, exactly if the first digits of the
    minor number say about 31 what the number says. -/
theorem gates_agree_iff (g : Host) {h : ArchValidation.Host} (hwraps : Wraps h)
    (c : Ctx) (s : ArchValidation.State) (major minor : ℕ) :
    (g.bcTest (ArchValidation.dotted [major, minor]) "2.31" = some true ↔
      ∃ s', ArchValidation.versionCompare h (ArchValidation.dotted [major, minor]) "2.31" c s =
        (.next 0, s')) ↔ GatesAgree major minor := by
  rw [bcTest_dotted, ← wp_ok, ArchValidation.wp_versionCompare, atLeast_dotted hwraps,
    Option.elim_some, Post.finish_ok, ite_eq_left_iff, GatesAgree]
  simp only [Option.some.injEq, decide_eq_true_eq, one_ne_zero, imp_false, not_not]
  rcases lt_trichotomy major 2 with hlt | rfl | hgt
  · rw [Arith.wrap_of_lt (by omega)]
    omega
  · have htwo : Arith.wrap (2 : ℕ) = 2 := rfl
    rcases lt_or_ge minor 10 with hminor | hminor
    · rw [Arith.wrap_of_lt (by omega : minor < 2 ^ 63)]
      omega
    · omega
  · omega

/-- The value of a numeral that is too large for bash. -/
def wrapNumeral (text : String) : Arith :=
  if text.toList.all Char.isDigit then .value (Arith.wrap (Nat.ofDigitChars 10 text.toList 0))
  else .unset

theorem wraps_wrapNumeral (h : ArchValidation.Host) :
    Wraps { h with expression := wrapNumeral } := fun n _ => by
  have hdigits : (Nat.toDigits 10 n).all Char.isDigit = true :=
    List.all_eq_true.2 fun d hd => Nat.isDigit_of_mem_toDigits (by decide) (by decide) hd
  simp only [wrapNumeral, Nat.toList_repr, hdigits, if_true, Nat.ofDigitChars_ten_toDigits]

/-- A host with glibc 2.39. -/
def current : Host where
  kernelVersion := "6.7.4-arch1-1"
  glibcVersion := "2.39"
  gccVersion := "13.2"
  availableSpace := "104857600"
  availableMemory := "8192"
  hasMultilib := true
  hasCommand _ := true
  expression := wrapNumeral

theorem gates_agree_2_39 :
    current.bcTest (ArchValidation.dotted [2, 39]) "2.31" = some true ↔
      ∃ s', ArchValidation.versionCompare
        { ArchValidation.equipped with expression := wrapNumeral }
        (ArchValidation.dotted [2, 39]) "2.31" Ctx.top {} = (.next 0, s') :=
  (gates_agree_iff current (wraps_wrapNumeral _) _ _ 2 39).2
    (.inr (.inl ⟨rfl, .inr ⟨by decide, by decide +kernel⟩⟩))

/-- bc takes 2.4 for more than 2.31, and `version_compare` for less. -/
theorem gates_disagree : current.bcTest "2.4" "2.31" = some true ∧
    ¬∃ s', ArchValidation.versionCompare
      { ArchValidation.equipped with expression := wrapNumeral } "2.4" "2.31" Ctx.top {} =
        (.next 0, s') := by
  have htext : "2.4" = ArchValidation.dotted [2, 4] := by decide +kernel
  rw [← wp_ok, ArchValidation.wp_versionCompare, htext, bcTest_dotted,
    atLeast_dotted (wraps_wrapNumeral _), Option.elim_some, Post.finish_ok]
  decide +kernel

end LfsBuilder.ArchSupport
