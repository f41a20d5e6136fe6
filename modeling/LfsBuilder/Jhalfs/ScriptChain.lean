import LfsBuilder.Library.Make
import LfsBuilder.Library.Text

/-!
# Chains of scripts

The Makefiles that jhalfs writes have a target for each script, which depends on the one
before it, and some goals that depend on scripts. The recipe of a target carries out the
script, makes an entry in a tracking file, and touches the target, so that `make` can check
if it has already been made.

* `Chain`: the scripts and the goals of such a Makefile;
* `Made`: what holds between the runs of `make`;
* `Chain.runs_made`: the targets are made in the order of the chain, each of them once,
  whatever the goals of the runs are, and however they end.
-/

namespace LfsBuilder.Jhalfs

open DepthFirst Text

/-- Scripts in their order, goals with their prerequisites, and the entries for the tracking
    file that the recipe of a script makes. -/
structure Chain where
  scripts : List Str
  nodup : scripts.Nodup
  goals : List (Str × List Str)
  goals_subset : ∀ goal ∈ goals, goal.2 ⊆ scripts
  goals_notMem : ∀ goal ∈ goals, goal.1 ∉ scripts
  record : Str → Finset Str

/-- How the recipe of a script ends. -/
inductive Outcome
  /-- A command fails before the entry in the tracking file. -/
  | failed
  /-- The entry is made, but the target is not touched. -/
  | tracked
  /-- The target is touched, but a command after that fails. -/
  | touched
  | ok
  deriving DecidableEq

/-- The directory in which `make` runs: the files of the targets, the entries in the tracking
    file, the scripts that have been started, and those whose target has been touched. -/
structure Work where
  mtime : Str → Option ℕ
  now : ℕ
  tracking : Finset Str
  started : List Str
  built : List Str

namespace Work

def clean : Work := ⟨fun _ => none, 0, ∅, [], []⟩

def start (w : Work) (s : Str) : Work := { w with started := w.started ++ [s] }

def track (w : Work) (entries : Finset Str) : Work := { w with tracking := entries ∪ w.tracking }

def touch (w : Work) (s : Str) : Work :=
  { w with
    mtime := Function.update w.mtime s (some w.now)
    now := w.now + 1
    built := w.built ++ [s] }

end Work

/-- The targets of some scripts, with the prerequisite that is written for each of them. -/
def writeEntries : (prev : Option Str) → List Str → List (Str × List Str)
  | _, [] => []
  | prev, thisScript :: scripts => (thisScript, prev.toList) :: writeEntries (some thisScript) scripts

namespace Chain

/-- The recipes of a run. A goal has none, or one that leaves the state as it is. -/
def recipe (c : Chain) (outcome : Str → Outcome) (target : Str) (w : Work) : Bool × Work :=
  if target ∈ c.scripts then
    match outcome target with
    | .failed => (false, w.start target)
    | .tracked => (false, (w.start target).track (c.record target))
    | .touched => (false, ((w.start target).track (c.record target)).touch target)
    | .ok => (true, ((w.start target).track (c.record target)).touch target)
  else (true, w)

/-- The Makefile, in a run with given outcomes. -/
def makefile (c : Chain) (outcome : Str → Outcome) : Makefile Str Work where
  rules target := (c.goals ++ writeEntries none c.scripts).lookup target
  mtime := Work.mtime
  recipe := c.recipe outcome

/-- A run of `make`, with a goal and the outcomes of the recipes. -/
structure Run where
  goal : Str
  outcome : Str → Outcome

/-- Some runs, one after the other. -/
def runs (c : Chain) (calls : ℕ) (rs : List Run) (w : Work) : Option Work :=
  rs.foldlM (fun w r => ((c.makefile r.outcome).make calls r.goal w).map Prod.snd) w

/-! ## The traversal -/

section

variable {c : Chain} {outcome : Str → Outcome} {done mid rest ps : List Str} {s goal : Str}

theorem lookup_writeEntries {prev : Option Str} (hs : s ∉ done) :
    (writeEntries prev (done ++ s :: rest)).lookup s = some (done.getLast?.or prev).toList := by
  induction done generalizing prev with
  | nil => simp [writeEntries]
  | cons t done ih =>
    rw [List.mem_cons, not_or] at hs
    rw [List.cons_append, writeEntries, List.lookup_cons, beq_eq_false_iff_ne.2 hs.1]
    dsimp only
    rw [ih hs.2, List.getLast?_cons]
    cases done.getLast? <;> rfl

theorem notMem_of_split (hl : c.scripts = done ++ s :: rest) : s ∉ done ∧ s ∉ rest := by
  have hnodup := c.nodup
  rw [hl, List.nodup_append] at hnodup
  exact ⟨fun h => hnodup.2.2 s h s List.mem_cons_self rfl, (List.nodup_cons.1 hnodup.2.1).1⟩

/-- A script depends on the one before it. -/
theorem rules_script (hl : c.scripts = done ++ s :: rest) :
    (c.makefile outcome).rules s = some done.getLast?.toList := by
  have hgoals : c.goals.lookup s = none := by
    rw [List.lookup_eq_none_iff]
    intro p hp
    have hne : p.1 ≠ s := fun h => c.goals_notMem p hp (h ▸ hl ▸ by simp)
    simpa using hne.symm
  rw [makefile]
  dsimp only
  rw [List.lookup_append, hgoals, Option.none_or, hl, lookup_writeEntries (notMem_of_split hl).1,
    Option.or_none]

theorem prereqs_script (hl : c.scripts = done ++ s :: rest) :
    (c.makefile outcome).prereqs s = done.getLast?.toList := by
  rw [Makefile.prereqs, rules_script hl, Option.getD_some]

/-- From where the scripts of `done` are left, a traversal to a later script leaves those up to
    it. -/
theorem leaves_script {g : List Str} (hl : c.scripts = done ++ mid ++ s :: rest)
    (hg : ∀ n ∈ mid ++ [s], n ∉ g) :
    Leaves (c.makefile outcome).prereqs g [s] done (done ++ mid ++ [s]) := by
  induction mid using List.reverseRecOn generalizing s rest g with
  | nil =>
    rw [List.append_nil] at hl ⊢
    refine .visit (notMem_of_split hl).1 (hg s (by simp)) ?_ .nil
    rw [prereqs_script hl]
    exact .of_subset fun d hd => List.mem_of_getLast? (Option.mem_toList.1 hd)
  | append_singleton mid t ih =>
    have hl' : c.scripts = done ++ mid ++ t :: s :: rest := by simp [hl]
    have hs := (notMem_of_split hl).1
    have hprereqs : (c.makefile outcome).prereqs s = [t] := by
      rw [prereqs_script hl]
      simp
    have hts : Leaves (c.makefile outcome).prereqs (s :: g) ((c.makefile outcome).prereqs s) done
        (done ++ mid ++ [t]) := by
      rw [hprereqs]
      refine ih hl' fun n hn hng => ?_
      rcases List.mem_cons.1 hng with rfl | hng
      · exact hs (List.mem_append_right _ hn)
      · exact hg n (List.mem_append_left _ hn) hng
    rw [← List.append_assoc done mid [t]]
    exact .visit (fun h => hs (List.mem_append_left _ h)) (hg s (by simp)) hts .nil

/-- From where the first scripts are left, a traversal to some others leaves the scripts up to the
    last of them. -/
theorem exists_leaves_scripts (outcome : Str → Outcome) {g : List Str} (hps : ps ⊆ c.scripts) (hdone : done <+: c.scripts)
    (hg : ∀ n ∈ c.scripts, n ∉ g) : ∃ a, a <+: c.scripts ∧ done <+: a ∧ ps ⊆ a ∧
      (∀ a', a' <+: c.scripts → done <+: a' → ps ⊆ a' → a <+: a') ∧
      Leaves (c.makefile outcome).prereqs g ps done a := by
  induction ps generalizing done with
  | nil => exact ⟨done, hdone, List.prefix_rfl, List.nil_subset _, fun _ _ h _ => h, .nil⟩
  | cons p ps ih =>
    rw [List.cons_subset] at hps
    by_cases hp : p ∈ done
    · obtain ⟨a, ha, hda, hpa, hmin, hleaves⟩ := ih hps.2 hdone
      refine ⟨a, ha, hda, List.cons_subset.2 ⟨hda.subset hp, hpa⟩, fun a' ha' hda' hpa' => ?_,
        .left hp hleaves⟩
      exact hmin a' ha' hda' (List.cons_subset.1 hpa').2
    · obtain ⟨tail, htail⟩ := hdone
      have hpt : p ∈ tail := (List.mem_append.1 (htail ▸ hps.1)).resolve_left hp
      obtain ⟨mid, rest, rfl⟩ := List.append_of_mem hpt
      have hl : c.scripts = done ++ mid ++ p :: rest := by simp [← htail]
      have hpre : done ++ mid ++ [p] <+: c.scripts := ⟨rest, by simp [hl]⟩
      have hfirst : Leaves (c.makefile outcome).prereqs g [p] done (done ++ mid ++ [p]) := by
        refine leaves_script hl fun n hn => hg n (hpre.subset ?_)
        rw [List.append_assoc]
        exact List.mem_append_right _ hn
      obtain ⟨a, ha, hda, hpa, hmin, hleaves⟩ := ih hps.2 hpre
      have hdone' : done <+: done ++ mid ++ [p] := by
        rw [List.append_assoc]
        exact List.prefix_append _ _
      refine ⟨a, ha, hdone'.trans hda, List.cons_subset.2 ⟨hda.subset (by simp), hpa⟩,
        fun a' ha' hda' hpa' => hmin a' ha' ?_ (List.cons_subset.1 hpa').2, hfirst.append hleaves⟩
      -- A prefix with `p` has all that comes before it.
      rcases List.prefix_or_prefix_of_prefix hpre ha' with h | h
      · exact h
      · rcases List.prefix_concat_iff.1 h with rfl | h
        · exact List.prefix_rfl
        · exact absurd (h.subset (List.cons_subset.1 hpa').1) (notMem_of_split hl).1

theorem prereqs_subset (hgoal : goal ∉ c.scripts) :
    (c.makefile outcome).prereqs goal ⊆ c.scripts := by
  have hentries : (writeEntries none c.scripts).lookup goal = none := by
    have hkeys {prev : Option Str} {l : List Str} (hl : goal ∉ l) :
        (writeEntries prev l).lookup goal = none := by
      induction l generalizing prev with
      | nil => rfl
      | cons t l ih =>
        rw [List.mem_cons, not_or] at hl
        rw [writeEntries, List.lookup_cons, beq_eq_false_iff_ne.2 hl.1]
        exact ih hl.2
    exact hkeys hgoal
  rw [Makefile.prereqs, makefile]
  dsimp only
  rw [List.lookup_append, hentries, Option.or_none]
  cases hlookup : c.goals.lookup goal with
  | none => exact List.nil_subset _
  | some ps =>
    obtain ⟨l₁, l₂, hl, -⟩ := List.lookup_eq_some_iff.1 hlookup
    have hmem : (goal, ps) ∈ c.goals := hl ▸ by simp
    exact c.goals_subset _ hmem

/-- A run considers the first scripts, up to the one that is the goal, or the last one that the
    goal depends on. -/
theorem make_eq (c : Chain) (outcome : Str → Outcome) (goal : Str) : ∃ a, a <+: c.scripts ∧
    ∃ order calls₀, (order = a ∨ goal ∉ c.scripts ∧ order = a ++ [goal]) ∧
      (∀ calls ≥ calls₀, ∀ w, (c.makefile outcome).make calls goal w =
        some ((c.makefile outcome).sequence order w)) ∧
      (goal ∉ c.scripts → order = a ++ [goal] ∧ (c.makefile outcome).prereqs goal ⊆ a ∧
        ∀ a', a' <+: c.scripts → (c.makefile outcome).prereqs goal ⊆ a' → a <+: a') := by
  by_cases hgoal : goal ∈ c.scripts
  · have hps : [goal] ⊆ c.scripts := by simpa using hgoal
    obtain ⟨a, ha, -, -, -, hleaves⟩ := exists_leaves_scripts outcome (g := []) hps
      List.nil_prefix fun _ _ => List.not_mem_nil
    obtain ⟨calls₀, hmake⟩ := Makefile.make_eq hleaves
    exact ⟨a, ha, a, calls₀, .inl rfl, hmake, fun h => absurd hgoal h⟩
  · obtain ⟨a, ha, -, hps, hmin, hleaves⟩ := exists_leaves_scripts outcome (g := [goal])
      (prereqs_subset hgoal) List.nil_prefix
      fun n hn h => hgoal (List.mem_singleton.1 h ▸ hn)
    obtain ⟨calls₀, hmake⟩ :=
      Makefile.make_eq (.visit List.not_mem_nil List.not_mem_nil hleaves .nil)
    exact ⟨a, ha, a ++ [goal], calls₀, .inr ⟨hgoal, rfl⟩, hmake,
      fun _ => ⟨rfl, hps, fun a' ha' hps' => hmin a' ha' List.nil_prefix hps'⟩⟩

end

end Chain

/-! ## Between the runs -/

/-- What holds between the runs, when the targets of `done` have been touched, and those of `rest`
    have not: the times of the targets follow the order of the scripts; a script has been
    started once at least if its target has been touched, and not at all if it comes after
    the first of the others; and the tracking file has the entries of the scripts that are
    done, and perhaps those of this first one. -/
structure Made (c : Chain) (w : Work) (done rest : List Str) : Prop where
  built : w.built = done
  made : ∀ s ∈ done, ∃ time < w.now, w.mtime s = some time
  sorted : done.Pairwise fun s s' => ∀ t ∈ w.mtime s, ∀ t' ∈ w.mtime s', t < t'
  missing : ∀ s ∉ done, w.mtime s = none
  started : ∃ count : Str → ℕ,
    w.started = (done ++ rest).flatMap (fun s => List.replicate (count s) s) ∧
      (∀ s ∈ done, 0 < count s) ∧ ∀ s ∈ rest.tail, count s = 0
  tracking : (∀ s ∈ done, c.record s ⊆ w.tracking) ∧
    ∀ p ∈ w.tracking, ∃ s ∈ done ++ rest.take 1, p ∈ c.record s

namespace Made

variable {c : Chain} {w : Work} {done mid rest : List Str} {s : Str} {outcome : Str → Outcome}

theorem clean : Made c .clean [] rest := by
  refine ⟨rfl, fun _ h => absurd h List.not_mem_nil, .nil, fun _ _ => rfl, ⟨fun _ => 0, ?_, ?_, ?_⟩,
    fun _ h => absurd h List.not_mem_nil, fun _ h => absurd h (Finset.notMem_empty _)⟩
  · simp [Work.clean]
  · exact fun _ h => absurd h List.not_mem_nil
  · exact fun _ _ => rfl

/-- One more start of the first script whose target has not been touched. -/
theorem exists_count (h : Made c w done (s :: rest)) (hs : s ∉ done ∧ s ∉ rest) :
    ∃ count : Str → ℕ, (w.start s).started =
      (done ++ s :: rest).flatMap (fun s => List.replicate (count s) s) ∧
        (∀ x ∈ done ++ [s], 0 < count x) ∧ ∀ x ∈ rest, count x = 0 := by
  obtain ⟨count, hstarted, hdone, hrest⟩ := h.started
  rw [List.tail_cons] at hrest
  have hother {x : Str} (hx : x ≠ s) : Function.update count s (count s + 1) x = count x :=
    Function.update_of_ne hx _ _
  have hflat {l : List Str} (hl : s ∉ l) : l.flatMap (fun x => List.replicate
      (Function.update count s (count s + 1) x) x) =
      l.flatMap (fun x => List.replicate (count x) x) := by
    refine List.flatMap_congr fun x hx => ?_
    rw [hother (ne_of_mem_of_not_mem hx hl)]
  have hnone : rest.flatMap (fun x => List.replicate (count x) x) = [] := by
    rw [List.flatMap_eq_nil_iff]
    intro x hx
    rw [hrest x hx, List.replicate_zero]
  refine ⟨Function.update count s (count s + 1), ?_, fun x hx => ?_, fun x hx => ?_⟩
  · rw [Work.start, hstarted]
    simp only [List.flatMap_append, List.flatMap_cons]
    rw [hflat hs.1, hflat hs.2, hnone, Function.update_self, List.replicate_succ']
    simp
  · rcases List.mem_append.1 hx with hx | hx
    · rw [hother (ne_of_mem_of_not_mem hx hs.1)]
      exact hdone x hx
    · rw [List.mem_singleton.1 hx, Function.update_self]
      exact Nat.succ_pos _
  · rw [hother (ne_of_mem_of_not_mem hx hs.2)]
    exact hrest x hx

theorem start (h : Made c w done (s :: rest)) (hs : s ∉ done ∧ s ∉ rest) :
    Made c (w.start s) done (s :: rest) := by
  obtain ⟨count, hstarted, hdone, hrest⟩ := h.exists_count hs
  exact ⟨h.built, h.made, h.sorted, h.missing,
    ⟨count, hstarted, fun x hx => hdone x (List.mem_append_left _ hx), hrest⟩, h.tracking⟩

theorem track (h : Made c w done (s :: rest)) :
    Made c (w.track (c.record s)) done (s :: rest) := by
  refine ⟨h.built, h.made, h.sorted, h.missing, h.started,
    fun x hx => (h.tracking.1 x hx).trans Finset.subset_union_right, fun p hp => ?_⟩
  rcases Finset.mem_union.1 hp with hp | hp
  · exact ⟨s, by simp, hp⟩
  · exact h.tracking.2 p hp

/-- When a recipe has come to its end, its target is the newest one. -/
theorem touch (h : Made c w done (s :: rest)) (hs : s ∉ done ∧ s ∉ rest) :
    Made c (((w.start s).track (c.record s)).touch s) (done ++ [s]) rest := by
  obtain ⟨count, hstarted, hdone, hrest⟩ := h.exists_count hs
  have hself : (((w.start s).track (c.record s)).touch s).mtime s = some w.now :=
    Function.update_self ..
  have hother {x : Str} (hx : x ≠ s) :
      (((w.start s).track (c.record s)).touch s).mtime x = w.mtime x :=
    Function.update_of_ne hx _ _
  refine ⟨congrArg (· ++ [s]) h.built, fun x hx => ?_, ?_, fun x hx => ?_,
    ⟨count, ?_, hdone, fun x hx => hrest x (List.mem_of_mem_tail hx)⟩, fun x hx => ?_,
    fun p hp => ?_⟩
  · rcases List.mem_append.1 hx with hx | hx
    · obtain ⟨time, htime, hmade⟩ := h.made x hx
      exact ⟨time, htime.trans (Nat.lt_succ_self _),
        (hother (ne_of_mem_of_not_mem hx hs.1)).trans hmade⟩
    · rw [List.mem_singleton.1 hx]
      exact ⟨w.now, Nat.lt_succ_self _, hself⟩
  · rw [List.pairwise_append]
    refine ⟨h.sorted.imp_of_mem fun hx hy hxy => ?_, List.pairwise_singleton _ _,
      fun x hx y hy => ?_⟩
    · rw [hother (ne_of_mem_of_not_mem hx hs.1), hother (ne_of_mem_of_not_mem hy hs.1)]
      exact hxy
    · rw [List.mem_singleton.1 hy, hself, hother (ne_of_mem_of_not_mem hx hs.1)]
      obtain ⟨time, htime, hmade⟩ := h.made x hx
      rw [hmade]
      rintro t ⟨⟩ t' ⟨⟩
      exact htime
  · rw [List.mem_append, not_or, List.mem_singleton] at hx
    exact (hother hx.2).trans (h.missing x hx.1)
  · rw [List.append_assoc, List.singleton_append]
    exact hstarted
  · rcases List.mem_append.1 hx with hx | hx
    · exact (h.tracking.1 x hx).trans Finset.subset_union_right
    · rw [List.mem_singleton.1 hx]
      exact Finset.subset_union_left
  · rcases Finset.mem_union.1 hp with hp | hp
    · exact ⟨s, by simp, hp⟩
    · obtain ⟨x, hx, hpx⟩ := h.tracking.2 p hp
      exact ⟨x, List.mem_append_left _ (by simpa using hx), hpx⟩

/-! ## A run -/

/-- Targets that have been touched are up to date. -/
theorem bring_done (h : Made c w done rest) (hl : c.scripts = done ++ rest) (hs : s ∈ done) :
    (c.makefile outcome).bring s w = (true, w) := by
  obtain ⟨a, b, rfl⟩ := List.append_of_mem hs
  have hl' : c.scripts = a ++ s :: (b ++ rest) := by simp [hl]
  obtain ⟨time, -, hmade⟩ := h.made s hs
  have hfresh : (c.makefile outcome).isOutdated w s = false := by
    have htime : (c.makefile outcome).mtime w s = some time := hmade
    rw [Makefile.isOutdated, htime, Chain.prereqs_script hl']
    dsimp only
    rw [List.any_eq_false]
    intro p hp
    have hpa : p ∈ a := List.mem_of_getLast? (Option.mem_toList.1 hp)
    obtain ⟨time', -, hmade'⟩ := h.made p (List.mem_append_left _ hpa)
    have hlt := (List.pairwise_append.1 h.sorted).2.2 p hpa s List.mem_cons_self
      time' hmade' time hmade
    have hpw : (c.makefile outcome).mtime w p = some time' := hmade'
    rw [hpw]
    simpa using hlt.le
  rw [Makefile.bring, Chain.rules_script hl']
  dsimp only
  rw [hfresh]
  rfl

/-- A target that has not been touched is made. -/
theorem bring_next (h : Made c w done (s :: rest)) (hl : c.scripts = done ++ s :: rest) :
    (c.makefile outcome).bring s w = c.recipe outcome s w := by
  have hmissing : (c.makefile outcome).mtime w s = none :=
    h.missing s (Chain.notMem_of_split hl).1
  rw [Makefile.bring, Chain.rules_script hl]
  dsimp only
  rw [Makefile.isOutdated, hmissing]
  rfl

/-- What a run does with the next scripts: it goes on to the first one that fails. -/
theorem sequence_mid (outcome : Str → Outcome) (h : Made c w done (mid ++ rest))
    (hl : c.scripts = done ++ (mid ++ rest)) :
    (((c.makefile outcome).sequence mid w).1 = true ↔ ∀ s ∈ mid, outcome s = .ok) ∧
    ∃ more rest', mid ++ rest = more ++ rest' ∧
      Made c ((c.makefile outcome).sequence mid w).2 (done ++ more) rest' ∧
      (((c.makefile outcome).sequence mid w).1 = true → more = mid) := by
  induction mid generalizing done w with
  | nil =>
    refine ⟨iff_of_true rfl fun _ h => absurd h List.not_mem_nil, [], rest, rfl, ?_, fun _ => rfl⟩
    rw [List.append_nil]
    exact h
  | cons s mid ih =>
    rw [List.cons_append] at hl h
    have hs := Chain.notMem_of_split hl
    have hmem : s ∈ c.scripts := hl ▸ by simp
    rw [Makefile.sequence, h.bring_next hl, Chain.recipe, if_pos hmem, List.forall_mem_cons]
    cases hout : outcome s with
    | failed =>
      refine ⟨iff_of_false Bool.false_ne_true fun h => absurd h.1 (by decide), [], s :: mid ++ rest,
        rfl, ?_, fun h => absurd h Bool.false_ne_true⟩
      rw [List.append_nil]
      exact h.start hs
    | tracked =>
      refine ⟨iff_of_false Bool.false_ne_true fun h => absurd h.1 (by decide), [], s :: mid ++ rest,
        rfl, ?_, fun h => absurd h Bool.false_ne_true⟩
      rw [List.append_nil]
      exact (h.start hs).track
    | touched =>
      exact ⟨iff_of_false Bool.false_ne_true fun h => absurd h.1 (by decide), [s], mid ++ rest, rfl,
        h.touch hs, fun h => absurd h Bool.false_ne_true⟩
    | ok =>
      obtain ⟨hok, more, rest', hrest, hmade, hend⟩ :=
        ih (h.touch hs) (by rw [hl, List.append_assoc, List.singleton_append])
      rw [List.append_assoc] at hmade
      exact ⟨hok.trans (and_iff_right rfl).symm, s :: more, rest', congrArg (s :: ·) hrest, hmade,
        fun h => congrArg (s :: ·) (hend h)⟩

/-- The same with the scripts up to a given one, of which some may be done. -/
theorem sequence_prefix (outcome : Str → Outcome) (h : Made c w done rest)
    (hl : c.scripts = done ++ rest) {a : List Str} (ha : a <+: c.scripts) :
    (((c.makefile outcome).sequence a w).1 = true ↔ ∀ s ∈ a, s ∉ done → outcome s = .ok) ∧
    ∃ more rest', rest = more ++ rest' ∧
      Made c ((c.makefile outcome).sequence a w).2 (done ++ more) rest' ∧
      (((c.makefile outcome).sequence a w).1 = true → a <+: done ++ more) := by
  have hdone : done <+: c.scripts := ⟨rest, hl.symm⟩
  have hfresh {l : List Str} (hsub : l ⊆ done) :
      (c.makefile outcome).sequence l w = (true, w) :=
    Makefile.sequence_eq_self fun s hs => h.bring_done hl (hsub hs)
  rcases List.prefix_or_prefix_of_prefix ha hdone with hpre | ⟨mid, rfl⟩
  · rw [hfresh hpre.subset]
    refine ⟨iff_of_true rfl fun s hs hn => absurd (hpre.subset hs) hn, [], rest, rfl, ?_, fun _ => ?_⟩
    · rw [List.append_nil]
      exact h
    · rw [List.append_nil]
      exact hpre
  · obtain ⟨tail, htail⟩ := ha
    have hrest : rest = mid ++ tail := by
      rw [hl, List.append_assoc] at htail
      exact (List.append_cancel_left htail).symm
    subst hrest
    obtain ⟨hok, more, rest', hmore, hmade, hend⟩ := h.sequence_mid outcome hl
    rw [Makefile.sequence_append, hfresh (List.Subset.refl _), if_pos rfl]
    refine ⟨hok.trans ?_, more, rest', hmore, hmade, fun h => ?_⟩
    · rw [List.forall_mem_append]
      refine ⟨fun h => ⟨fun s hs hn => absurd hs hn, fun s hs _ => h s hs⟩, fun h s hs => h.2 s hs ?_⟩
      obtain ⟨b, b', rfl⟩ := List.append_of_mem hs
      have hsplit : c.scripts = (done ++ b) ++ s :: (b' ++ tail) := by simp [hl]
      exact fun hmem => (Chain.notMem_of_split hsplit).1 (List.mem_append_left _ hmem)
    · rw [hend h]

/-- A goal leaves the state as it is, and does not fail if there is a rule for it. -/
theorem bring_goal {goal : Str} (hgoal : goal ∉ c.scripts) :
    ((c.makefile outcome).bring goal w).2 = w ∧
      ∀ ps, c.goals.lookup goal = some ps → (c.makefile outcome).bring goal w = (true, w) := by
  have hrecipe : (c.makefile outcome).recipe goal w = (true, w) := if_neg hgoal
  rw [Makefile.bring]
  cases hrules : (c.makefile outcome).rules goal with
  | none =>
    refine ⟨rfl, fun ps hps => ?_⟩
    rw [Chain.makefile] at hrules
    dsimp only at hrules
    rw [List.lookup_append, hps] at hrules
    cases hrules
  | some ps =>
    dsimp only
    rw [hrecipe, ite_self]
    exact ⟨rfl, fun _ _ => rfl⟩

/-- A whole run. -/
theorem make (goal : Str) (outcome : Str → Outcome) (h : Made c w done rest)
    (hl : c.scripts = done ++ rest) : ∃ ok w' calls₀ more rest',
      (∀ calls ≥ calls₀, (c.makefile outcome).make calls goal w = some (ok, w')) ∧
      rest = more ++ rest' ∧ Made c w' (done ++ more) rest' ∧
      ∀ ps, c.goals.lookup goal = some ps → ∃ a, a <+: c.scripts ∧ ps ⊆ a ∧
        (∀ a', a' <+: c.scripts → ps ⊆ a' → a <+: a') ∧
        (ok = true ↔ ∀ s ∈ a, s ∉ done → outcome s = .ok) ∧
        (ok = true → a <+: done ++ more) := by
  obtain ⟨a, ha, order, calls₀, horder, hmake, hgoal⟩ := c.make_eq outcome goal
  obtain ⟨hok, more, rest', hrest, hmade, hend⟩ := h.sequence_prefix outcome hl ha
  have hstate : ((c.makefile outcome).sequence order w).2 =
      ((c.makefile outcome).sequence a w).2 := by
    rcases horder with rfl | ⟨hnot, rfl⟩
    · rfl
    · rw [Makefile.sequence_append]
      split
      · rw [Makefile.sequence, Makefile.sequence]
        split
        · exact (bring_goal hnot).1
        · exact (bring_goal hnot).1
      · rfl
  refine ⟨((c.makefile outcome).sequence order w).1, ((c.makefile outcome).sequence order w).2,
    calls₀, more, rest', fun calls hcalls => hmake calls hcalls w, hrest, ?_, fun ps hps => ?_⟩
  · rw [hstate]
    exact hmade
  · have hnot : goal ∉ c.scripts := by
      obtain ⟨l₁, l₂, hgoals, -⟩ := List.lookup_eq_some_iff.1 hps
      exact c.goals_notMem (goal, ps) (hgoals ▸ by simp)
    obtain ⟨rfl, hsub, hmin⟩ := hgoal hnot
    have hprereqs : (c.makefile outcome).prereqs goal = ps := by
      rw [Makefile.prereqs, Chain.makefile]
      dsimp only
      rw [List.lookup_append, hps]
      rfl
    rw [hprereqs] at hsub hmin
    have hfst : ((c.makefile outcome).sequence (a ++ [goal]) w).1 =
        ((c.makefile outcome).sequence a w).1 := by
      rw [Makefile.sequence_append]
      split
      · next h => rw [Makefile.sequence, (bring_goal hnot).2 ps hps, if_pos rfl, h]; rfl
      · rfl
    rw [hfst]
    exact ⟨a, ha, hsub, hmin, hok, hend⟩

/-- A run for a goal that depends on the last script. -/
theorem make_last {goal : Str} {ps : List Str} (outcome : Str → Outcome) (h : Made c w done rest)
    (hl : c.scripts = done ++ rest) (hps : c.goals.lookup goal = some ps)
    (hlast : ∀ s ∈ c.scripts.getLast?, s ∈ ps) : ∃ ok w' calls₀,
      (∀ calls ≥ calls₀, (c.makefile outcome).make calls goal w = some (ok, w')) ∧
      (ok = true ↔ ∀ s ∈ rest, outcome s = .ok) ∧ (ok = true → Made c w' c.scripts []) := by
  obtain ⟨ok, w', calls₀, more, rest', hmake, hrest, hmade, hgoal⟩ := h.make goal outcome hl
  obtain ⟨a, ha, hsub, -, hok, hend⟩ := hgoal ps hps
  have hall : a = c.scripts := by
    rcases List.eq_nil_or_concat c.scripts with hnil | ⟨init, s, hs⟩
    · rw [hnil] at ha ⊢
      exact List.prefix_nil.1 ha
    · rw [List.concat_eq_append] at hs
      have hsa : s ∈ a := hsub (hlast s (by simp [hs]))
      rw [hs] at ha ⊢
      refine (List.prefix_concat_iff.1 ha).resolve_right fun hpre => ?_
      exact (Chain.notMem_of_split hs).1 (hpre.subset hsa)
  subst hall
  have hnot : ∀ s ∈ rest, s ∉ done := by
    intro s hs hmem
    obtain ⟨b, b', rfl⟩ := List.append_of_mem hs
    have hsplit : c.scripts = (done ++ b) ++ s :: b' := by simp [hl]
    exact (Chain.notMem_of_split hsplit).1 (List.mem_append_left _ hmem)
  refine ⟨ok, w', calls₀, hmake, hok.trans ⟨fun hout s hs => ?_, fun hout s hs hn => ?_⟩,
    fun h => ?_⟩
  · exact hout s (hl ▸ List.mem_append_right _ hs) (hnot s hs)
  · exact hout s ((List.mem_append.1 (hl ▸ hs)).resolve_left hn)
  · have hl' : c.scripts = done ++ more ++ rest' := by rw [hl, hrest, List.append_assoc]
    have heq : c.scripts = done ++ more := (hend h).eq_of_length_le (by simp [hl'])
    have hnil : rest' = [] := by
      rw [heq] at hl'
      exact List.append_right_eq_self.1 hl'.symm
    rw [hnil, ← heq] at hmade
    exact hmade

end Made

/-- However some runs end, and whatever their goals are, the targets that have been touched after
    them are the first ones of the chain. -/
theorem Chain.runs_made (c : Chain) (rs : List Chain.Run) :
    ∃ w done rest, c.scripts = done ++ rest ∧ Made c w done rest ∧
      ∃ calls₀, ∀ calls ≥ calls₀, c.runs calls rs .clean = some w := by
  suffices hruns : ∀ w done rest, c.scripts = done ++ rest → Made c w done rest →
      ∃ w' done' rest', c.scripts = done' ++ rest' ∧ Made c w' done' rest' ∧
        ∃ calls₀, ∀ calls ≥ calls₀, c.runs calls rs w = some w' from
    hruns .clean [] c.scripts rfl .clean
  induction rs with
  | nil => exact fun w done rest hl hmade => ⟨w, done, rest, hl, hmade, 0, fun _ _ => rfl⟩
  | cons r rs ih =>
    intro w done rest hl hmade
    obtain ⟨ok, w₁, calls₁, more, rest₁, hmake, hrest, hmade₁, -⟩ := hmade.make r.goal r.outcome hl
    obtain ⟨w', done', rest', hl', hmade', calls₂, hruns⟩ :=
      ih w₁ (done ++ more) rest₁ (by rw [hl, hrest, List.append_assoc]) hmade₁
    refine ⟨w', done', rest', hl', hmade', max calls₁ calls₂, fun calls hcalls => ?_⟩
    rw [runs, List.foldlM_cons, hmake calls (le_of_max_le_left hcalls)]
    exact hruns calls (le_of_max_le_right hcalls)

end LfsBuilder.Jhalfs
