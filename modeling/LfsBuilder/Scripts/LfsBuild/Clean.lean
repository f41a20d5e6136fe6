import LfsBuilder.Scripts.LfsBuild.Stages

/-!
# Cleaning between two builds

`lfs-clean`, which removes what a build has put into the workspace, and the build
that follows it. The script does not run under `set -e`: it goes on when a removal
fails, but it can be stopped there.

* `lfsClean_spared`, `lfsClean_sources`: what a run of it leaves, whatever becomes of it;
* `main_after_clean_iff`: when a build reaches its end after it.
-/

namespace LfsBuilder.LfsBuild.Stages

open Shell FileTree

/-- The context of a script that does not run under `set -e`. -/
def loose : Ctx := ⟨true, false⟩

/-- `$SCRIPT_DIR/logs` -/
def logs : Place Root := ⟨.elsewhere, ["logs"]⟩

/-- A file that `"$SCRIPT_DIR/logs/"*.log` stands for. -/
def IsLog (p : Place Root) : Prop :=
  p.parent = logs ∧ ∃ name ∈ p.path.getLast?, ".log".toList <:+ name.toList

instance : DecidablePred IsLog := fun p =>
  inferInstanceAs (Decidable (_ ∧ ∃ name ∈ p.path.getLast?, _))

/-- `rm -rf` with the trees at `places`. -/
def removeTrees (e : Env) (places : List (Place Root)) : Sh State :=
  external e (fun _ => true) fun s => { s with disk := places.foldl Disk.remove s.disk }

/-- `rm -f` with the files that a pattern stands for. -/
def removeFiles (e : Env) (matched : Place Root → Bool) : Sh State :=
  external e (fun _ => true) fun s =>
    { s with disk := fun k q => s.disk k q && !(k = .file && matched q) }

/-- `$LFS_WORKSPACE/lfs-system.tar.gz` -/
def image : Place Root := workspace.child ["lfs-system.tar.gz"]

/-- The trees of the first removal. `inside` tells whether the target system is in the
    workspace, at `$LFS_WORKSPACE/lfs`. -/
def targets (inside : Bool) : List (Place Root) :=
  workspace.child ["lfs"] :: if inside then [lfs] else []

/-- `lfs-clean`, after it has read the configuration. -/
def lfsClean (inside : Bool) (e : Env) : Sh State :=
  .block [
    removeTrees e (targets inside),
    removeTrees e [sources],
    removeFiles e fun q => q = image,
    removeFiles e fun q => IsLog q,
    .skip]

/-! ## What a removal leaves -/

/-- The script is stopped at the command. -/
def Outcome.stops : Outcome → Bool
  | .ok => false
  | .failed _ _ => false
  | .killed _ => true

/-- The command has had its effect at the place. -/
def Outcome.reached : Outcome → Kind → Place Root → Bool
  | .ok => fun _ _ => true
  | .failed _ reached => reached
  | .killed reached => reached

variable {h : Host} {c : Ctx} {Q : Post State} {s : State} {e : Env} {k : Kind} {q : Place Root}

/-- The disk after a command with the outcome `o` that makes `d'` of `d`. -/
def Outcome.leaves (o : Outcome) (d d' : Disk Root) : Disk Root := d.mix o.reached d'

theorem leaves_eq_or (o : Outcome) (d d' : Disk Root) :
    o.leaves d d' k q = d' k q ∨ o.leaves d d' k q = d k q := by
  rw [Outcome.leaves, Disk.mix]
  split
  · exact .inl rfl
  · exact .inr rfl

/-- A command that changes the disk only, where a failure ends nothing. -/
theorem wp_change {f : Disk Root → Disk Root}
    (hstop : (e s.clock).stops = true →
      Q.exit 130 { s with disk := (e s.clock).leaves s.disk (f s.disk) }.tick)
    (hnext : (e s.clock).stops = false →
      ∀ n, Q.next n { s with disk := (e s.clock).leaves s.disk (f s.disk) }.tick) :
    wp (external e (fun _ => true) fun s => { s with disk := f s.disk }) loose Q s := by
  rw [wp, external]
  cases he : e s.clock with
  | ok =>
    rw [he] at hnext
    exact hnext rfl 0
  | failed status reached =>
    rw [he] at hnext
    exact hnext rfl _
  | killed reached =>
    rw [he] at hstop
    exact hstop rfl

theorem foldl_remove {places : List (Place Root)} {d : Disk Root} :
    places.foldl Disk.remove d k q = (d k q && places.all fun p => !p.Under q) := by
  induction places generalizing d with
  | nil => simp
  | cons p places ih => rw [List.foldl_cons, ih, List.all_cons, Disk.remove, Bool.and_assoc]

/-- What no removal is meant for. -/
structure Spared (inside : Bool) (k : Kind) (q : Place Root) : Prop where
  targets : ∀ p ∈ targets inside, ¬p.Under q
  sources : ¬sources.Under q
  image : k = .file → q ≠ image
  log : k = .file → ¬IsLog q

/-- A property of the disk that each removal keeps holds after the script, however it ends. -/
theorem wp_lfsClean_always {inside : Bool} {P : Disk Root → Prop} (hs : P s.disk)
    (hkeep : ∀ (o : Outcome) (d : Disk Root), P d →
      P (o.leaves d ((targets inside).foldl Disk.remove d)) ∧
      P (o.leaves d ([sources].foldl Disk.remove d)) ∧
      P (o.leaves d fun k q => d k q && !(k = .file && q = image)) ∧
      P (o.leaves d fun k q => d k q && !(k = .file && IsLog q))) :
    wp (lfsClean inside e) loose (.always fun s' => P s'.disk) s := by
  have h₁ := (hkeep (e s.clock) _ hs).1
  have h₂ := (hkeep (e (s.clock + 1)) _ h₁).2.1
  have h₃ := (hkeep (e (s.clock + 2)) _ h₂).2.2.1
  have h₄ := (hkeep (e (s.clock + 3)) _ h₃).2.2.2
  refine wp_block_cons.2 (wp_change (f := fun d => (targets inside).foldl Disk.remove d)
    (fun _ => h₁) fun _ _ => ?_)
  refine wp_block_cons.2 (wp_change (f := fun d => [sources].foldl Disk.remove d)
    (fun _ => h₂) fun _ _ => ?_)
  refine wp_block_cons.2 (wp_change (f := fun d k q => d k q && !(k = .file && q = image))
    (fun _ => h₃) fun _ _ => ?_)
  exact wp_block_cons.2 (wp_change (f := fun d k q => d k q && !(k = .file && IsLog q))
    (fun _ => h₄) fun _ _ => h₄)

/-- What is spared stays as it is, whatever becomes of the removals. -/
theorem lfsClean_spared {inside : Bool} (hq : Spared inside k q) :
    (lfsClean inside e loose s).2.disk k q = s.disk k q := by
  have hmix (o : Outcome) {d d' : Disk Root} (hd : d k q = s.disk k q) (hd' : d' k q = d k q) :
      o.leaves d d' k q = s.disk k q :=
    (leaves_eq_or o d d').elim (fun h => h.trans (hd'.trans hd)) fun h => h.trans hd
  refine wp_always.1 (wp_lfsClean_always (P := fun d => d k q = s.disk k q) rfl fun o d hd => ?_)
  refine ⟨hmix o hd ?_, hmix o hd ?_, hmix o hd ?_, hmix o hd ?_⟩
  · have hall : ((targets inside).all fun p => !p.Under q) = true := by
      simpa using hq.targets
    rw [foldl_remove, hall, Bool.and_true]
  · rw [foldl_remove]
    simp [hq.sources]
  · have hne : (decide (k = .file) && decide (q = image)) = false := by
      simpa using hq.image
    rw [hne, Bool.not_false, Bool.and_true]
  · have hne : (decide (k = .file) && decide (IsLog q)) = false := by
      simpa using hq.log
    rw [hne, Bool.not_false, Bool.and_true]

/-- A directory in the tree of the sources is left exactly if the second removal, or the script
    before it, has failed to come to it. -/
theorem lfsClean_sources {inside : Bool} (hq : ∀ p ∈ targets inside, ¬p.Under q)
    (hsources : sources.Under q) :
    (lfsClean inside e loose s).2.disk .dir q =
      (s.disk .dir q && !(!(e s.clock).stops && (e (s.clock + 1)).reached .dir q)) := by
  have hall : ((targets inside).all fun p => !p.Under q) = true := by simpa using hq
  have hfirst (o : Outcome) (d : Disk Root) :
      o.leaves d ((targets inside).foldl Disk.remove d) .dir q = d .dir q :=
    (leaves_eq_or o d _).elim (fun h => h.trans (by rw [foldl_remove, hall, Bool.and_true])) id
  have hfile (o : Outcome) (d : Disk Root) (t : Place Root → Bool) :
      o.leaves d (fun k q => d k q && !(k = .file && t q)) .dir q = d .dir q :=
    (leaves_eq_or o d _).elim (fun h => h.trans (by simp)) id
  have hsecond (o : Outcome) (d : Disk Root) (hd : d .dir q = s.disk .dir q) :
      o.leaves d ([sources].foldl Disk.remove d) .dir q = (s.disk .dir q && !o.reached .dir q) := by
    rw [Outcome.leaves, Disk.mix, foldl_remove, hd]
    cases o.reached .dir q <;> simp [hsources]
  suffices hwp : wp (lfsClean inside e) loose (.always fun s' => s'.disk .dir q =
      (s.disk .dir q && !(!(e s.clock).stops && (e (s.clock + 1)).reached .dir q))) s from
    wp_always.1 hwp
  have h₁ := hfirst (e s.clock) s.disk
  refine wp_block_cons.2 (wp_change (f := fun d => (targets inside).foldl Disk.remove d)
    (fun hstop => ?_) fun hstop _ => ?_)
  · rw [hstop]
    exact h₁.trans (by simp)
  have h₂ := hsecond (e (s.clock + 1)) _ h₁
  rw [hstop]
  refine wp_block_cons.2 (wp_change (f := fun d => [sources].foldl Disk.remove d)
    (fun _ => h₂) fun _ _ => ?_)
  have h₃ := (hfile (e (s.clock + 2)) _ fun q => q = image).trans h₂
  refine wp_block_cons.2 (wp_change (f := fun d k q => d k q && !(k = .file && q = image))
    (fun _ => h₃) fun _ _ => ?_)
  have h₄ := (hfile (e (s.clock + 3)) _ fun q => IsLog q).trans h₃
  exact wp_block_cons.2 (wp_change (f := fun d k q => d k q && !(k = .file && IsLog q))
    (fun _ => h₄) fun _ _ => h₄)

/-! ## The build after it -/

/-- Where every command succeeds that finds what it needs, the script reaches its end exactly if
    no build directory is left. -/
theorem main_next_iff (hh : Equipped h) (hasKernel : State → Bool) (d : Disk Root) :
    (main h reliable hasKernel Ctx.top (start d)).1 = .next 0 ↔ ¬Left d := by
  have hwp : wp (main h reliable hasKernel) Ctx.top
      { next := fun n _ => n = 0 ∧ ¬Left d, exit := fun _ _ => Left d } (start d) :=
    wp_main hh rfl (fun hl _ => hl) fun hl _ => ⟨rfl, hl⟩
  rw [wp] at hwp
  rcases hrun : main h reliable hasKernel Ctx.top (start d) with ⟨_ | _ | _ | _ | _, s⟩ <;>
    rw [hrun] at hwp
  · obtain ⟨rfl, hl⟩ := hwp
    exact iff_of_true rfl hl
  · exact hwp.elim
  · exact hwp.elim
  · exact iff_of_false (fun hrun => by cases hrun) (not_not_intro hwp)
  · exact hwp.elim

/-- After a run of `lfs-clean` that anything may have happened to, on a disk that anything may have
    happened to, a build reaches its end if and only if the removal of the sources has come to the
    build directories that were there; and nothing else in the workspace has been touched, nor the
    target system, unless it is in the workspace. -/
theorem main_after_clean_iff (hh : Equipped h) (hasKernel : State → Bool) (inside : Bool) (e : Env)
    (d : Disk Root) :
    ((main h reliable hasKernel Ctx.top
        (start (lfsClean inside e loose (start d)).2.disk)).1 = .next 0 ↔
      ∀ name ∈ ["binutils-2.42", "gcc-13.2.0", "glibc-2.39"],
        d .dir (sources.child [name, "build"]) = true →
        (e 0).stops = false ∧ (e 1).reached .dir (sources.child [name, "build"]) = true) ∧
      ∀ k q, Spared inside k q → (lfsClean inside e loose (start d)).2.disk k q = d k q := by
  refine ⟨?_, fun k q hq => lfsClean_spared hq⟩
  rw [main_next_iff hh]
  have hdir (name : String) :
      (lfsClean inside e loose (start d)).2.disk .dir (sources.child [name, "build"]) =
        (d .dir (sources.child [name, "build"]) &&
          !(!(e 0).stops && (e 1).reached .dir (sources.child [name, "build"]))) := by
    refine lfsClean_sources (fun p hp => ?_) (sources.under_child _)
    rcases List.mem_cons.1 hp with rfl | hp
    · rintro ⟨-, hpre⟩
      exact absurd (List.cons_prefix_cons.1 hpre).1 (by decide)
    · cases inside with
      | false => exact absurd hp List.not_mem_nil
      | true =>
        rw [List.mem_singleton.1 hp]
        rintro ⟨hroot, -⟩
        cases hroot
  simp only [Left, hdir, Bool.and_eq_true, Bool.not_eq_true', not_exists, not_and]
  refine forall₂_congr fun name _ => imp_congr_right fun _ => ?_
  cases (e 0).stops <;> simp

/-- After the aborted build that the next one cannot resume, a clean makes way for it. -/
theorem main_after_clean_binutils :
    (main plainHost reliable (fun _ => false) Ctx.top (start (lfsClean false reliable loose
      (start (main plainHost (stoppedAt 27) (fun _ => false) Ctx.top
        (start downloaded)).2.disk)).2.disk)).1 = .next 0 :=
  (main_after_clean_iff ⟨.inl rfl, fun _ _ => rfl⟩ _ false reliable _).1.2
    fun _ _ _ => ⟨rfl, rfl⟩

end LfsBuilder.LfsBuild.Stages
