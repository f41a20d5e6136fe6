import LfsBuilder.Library.Coreutils
import LfsBuilder.Library.Shell

/-!
# The downloads of the build script

`download_packages` of `lfs-build.sh`, over the regular files of the sources
directory, and the histories of its runs. A run is given by what its environment
decides: how every call of wget ends, and where the run is stopped. Two calls in
one directory share nothing but the files.

* `wp_downloadPackages`: what a run, however it ends, does to the files: it
  adds files that are missing, and those are as its calls of wget have left them
  (`Tracks`);
* `damaged_history_iff`: a tarball is damaged after a history if it was before,
  or if a call of wget in the history has left it so;
* `downloadPackages_complete_iff`: the runs that follow a history report success
  with complete tarballs only, if no tarball is damaged by then.
-/

namespace LfsBuilder.LfsBuild

open Shell Coreutils

/-- The content of a file. -/
abbrev Bytes := List UInt8

/-- The regular files of the sources directory. -/
abbrev Files := String → Option Bytes

/-- How a call of wget for a missing file ends: with the whole content, with a
    failure, or stopped together with the script. What a failure keeps is the
    beginning of the content, of some length. -/
inductive Fetch
  | complete
  | failed (status : ℕ) (kept : Option ℕ)
  | killed (kept : Option ℕ)

/-- The file that a call leaves, of a given content. -/
def Fetch.leaves (content : Bytes) : Fetch → Option Bytes
  | complete => some content
  | failed _ kept => kept.map content.take
  | killed kept => kept.map content.take

/-- The call leaves a file that is not the whole content. -/
def Fetch.Torn (content : Bytes) (f : Fetch) : Prop := ∃ b, f.leaves content = some b ∧ b ≠ content

/-- What the environment decides in a run. -/
structure Run where
  verbose : Bool
  wget : ℕ → Fetch
  /-- The status of tee, at the end of the pipeline from wget. -/
  tee : ℕ → ℕ
  /-- Whether the run is stopped at the given message, or fails there. -/
  stops : ℕ → Bool

/-- The sources directory, and what the run has done so far. -/
structure State where
  files : Files
  attempts : List (String × Fetch) := []
  messages : ℕ := 0

/-- `log_info`, `log_phase`, `log_error`, `log_success`, `echo` -/
def message (r : Run) : Sh State := fun _ s =>
  (if r.stops s.messages then .exit 1 else .next 0, { s with messages := s.messages + 1 })

/-- `wget "$url"`, where its file is missing; with `VERBOSE`, in a pipeline into tee. -/
def wget (served : String → Bytes) (r : Run) (url : String) : Sh State := .read fun s =>
  let f := r.wget s.attempts.length
  -- Under pipefail, the status of the pipeline is the last failure in it.
  let piped := fun n =>
    if r.verbose ∧ r.tee s.attempts.length ≠ 0 then r.tee s.attempts.length else n
  .seq
    (.assign fun s => { s with
      files := Function.update s.files (basename url) (f.leaves (served url))
      attempts := s.attempts ++ [(url, f)] })
    (match f with
      | .complete => .cmd fun _ s => (piped 0, s)
      | .failed status _ => .cmd fun _ s => (piped (status + 1), s)
      | .killed _ => .exit 130)

/-- `wget_download` -/
def wgetDownload (served : String → Bytes) (r : Run) (url : String) : Sh State :=
  .call <| .block [message r, wget served r url]

/-- The list of `download_packages`. -/
def packages : List String := [
  "https://ftp.gnu.org/gnu/binutils/binutils-2.42.tar.xz",
  "https://ftp.gnu.org/gnu/gcc/gcc-13.2.0/gcc-13.2.0.tar.xz",
  "https://ftp.gnu.org/gnu/mpfr/mpfr-4.2.1.tar.xz",
  "https://ftp.gnu.org/gnu/gmp/gmp-6.3.0.tar.xz",
  "https://ftp.gnu.org/gnu/mpc/mpc-1.3.1.tar.gz",
  "https://cdn.kernel.org/pub/linux/kernel/v6.x/linux-6.7.4.tar.xz",
  "https://ftp.gnu.org/gnu/glibc/glibc-2.39.tar.xz",
  "https://ftp.gnu.org/gnu/bash/bash-5.2.21.tar.gz",
  "https://ftp.gnu.org/gnu/coreutils/coreutils-9.4.tar.xz",
  "https://ftp.gnu.org/gnu/make/make-4.4.1.tar.gz",
  "https://ftp.gnu.org/gnu/sed/sed-4.9.tar.xz",
  "https://ftp.gnu.org/gnu/tar/tar-1.35.tar.xz",
  "https://ftp.gnu.org/gnu/gawk/gawk-5.3.0.tar.xz",
  "https://ftp.gnu.org/gnu/findutils/findutils-4.9.0.tar.xz",
  "https://ftp.gnu.org/gnu/grep/grep-3.11.tar.xz",
  "https://ftp.gnu.org/gnu/gzip/gzip-1.13.tar.xz",
  "https://www.kernel.org/pub/linux/utils/util-linux/v2.41/util-linux-2.41.1.tar.xz"]

/-- The body of the loop over the packages. -/
def downloadPackage (served : String → Bytes) (r : Run) (url : String) : Sh State :=
  .ite (.not (.test fun s => (s.files (basename url)).isSome))
    (.block [
      message r,
      .ite (.not (wgetDownload served r url)) (.block [message r, .exit 1]) .skip])
    (message r)

/-- `download_packages`, in an existing sources directory. -/
def downloadPackages (served : String → Bytes) (r : Run) : Sh State :=
  .call <| .block [message r, .forIn packages (downloadPackage served r), message r]

variable {served : String → Bytes} {r : Run} {c : Ctx} {Q : Post State} {s s' : State}
  {files : Files} {url : String}

/-! ## A single run -/

theorem packages_basename : packages.map basename = [
    "binutils-2.42.tar.xz", "gcc-13.2.0.tar.xz", "mpfr-4.2.1.tar.xz", "gmp-6.3.0.tar.xz",
    "mpc-1.3.1.tar.gz", "linux-6.7.4.tar.xz", "glibc-2.39.tar.xz", "bash-5.2.21.tar.gz",
    "coreutils-9.4.tar.xz", "make-4.4.1.tar.gz", "sed-4.9.tar.xz", "tar-1.35.tar.xz",
    "gawk-5.3.0.tar.xz", "findutils-4.9.0.tar.xz", "grep-3.11.tar.xz", "gzip-1.13.tar.xz",
    "util-linux-2.41.1.tar.xz"] := by
  simp only [packages, List.map_cons, List.map_nil, basename]
  repeat rw [String.toList_ofList]
  decide +kernel

/-- No two packages of the list share a file. -/
theorem basename_ne_of_ne {url' : String} (h : url ∈ packages) (h' : url' ∈ packages)
    (hne : url' ≠ url) : basename url' ≠ basename url := by
  have hnodup : (packages.map basename).Nodup := by
    rw [packages_basename]
    decide +kernel
  exact fun he => hne (List.inj_on_of_nodup_map hnodup h' h he)

/-- The file of a package is there, and not as its server has it. -/
def Damaged (served : String → Bytes) (files : Files) (url : String) : Prop :=
  ∃ b, files (basename url) = some b ∧ b ≠ served url

/-- A run that has started with `files` has damaged the tarballs that a call of
    wget has torn, and no others. -/
def Tracks (served : String → Bytes) (files : Files) (s : State) : Prop :=
  ∀ url ∈ packages, Damaged served s.files url ↔
    Damaged served files url ∨ ∃ f, (url, f) ∈ s.attempts ∧ f.Torn (served url)

theorem Tracks.refl (served : String → Bytes) (files : Files) : Tracks served files { files } :=
  fun _ _ => ⟨.inl, fun h => h.elim id fun ⟨_, h, _⟩ => absurd h List.not_mem_nil⟩

/-- Only a file that is missing is downloaded. -/
theorem Tracks.fetch {f : Fetch} (ht : Tracks served files s) (hmem : url ∈ packages)
    (hnone : s.files (basename url) = none) :
    Tracks served files { s with
      files := Function.update s.files (basename url) (f.leaves (served url))
      attempts := s.attempts ++ [(url, f)] } := by
  intro url' hmem'
  have ht := ht url' hmem'
  by_cases heq : url' = url
  · subst heq
    -- Nothing can have been torn before, as the file is missing.
    have hbefore : ¬Damaged served s.files url' := fun ⟨b, hb, _⟩ => by simp [hnone] at hb
    rw [ht, not_or] at hbefore
    simp only [Damaged, Function.update_self, List.mem_append, List.mem_singleton]
    constructor
    · exact fun h => .inr ⟨f, .inr rfl, h⟩
    · rintro (h | ⟨g, hg | hg, htorn⟩)
      · exact absurd h hbefore.1
      · exact absurd ⟨g, hg, htorn⟩ hbefore.2
      · cases hg
        exact htorn
  · have hne := basename_ne_of_ne hmem hmem' heq
    simp only [Damaged, Function.update_of_ne hne, List.mem_append, List.mem_singleton,
      Prod.mk.injEq, heq, false_and, or_false]
    exact ht

theorem wp_message : wp (message r) c Q s ↔
    if r.stops s.messages then Q.exit 1 { s with messages := s.messages + 1 }
    else Q.next 0 { s with messages := s.messages + 1 } := by
  simp only [wp, message]
  split <;> rfl

/-- The effect of a successful call of wget for a missing file. -/
structure Downloaded (url : String) (s s' : State) : Prop where
  files : ∀ name, name = basename url ∨ (s.files name).isSome → (s'.files name).isSome
  attempts : s'.attempts = s.attempts ++ [(url, .complete)]

/-- A call of wget for a missing file that succeeds has been complete. -/
theorem wp_wgetDownload (hc : c.ignored = true) (hmem : url ∈ packages)
    (hnone : s.files (basename url) = none) (ht : Tracks served files s)
    (hnext : ∀ n s', Tracks served files s' → (n = 0 → Downloaded url s s') → Q.next n s')
    (hexit : ∀ n s', Tracks served files s' → Q.exit n s') :
    wp (wgetDownload served r url) c Q s := by
  simp only [wgetDownload, wp_call, wp_block_cons, wp_block_singleton, wp_message, wget, wp_read,
    wp_seq, wp_assign]
  split
  · exact hexit _ _ ht
  · have ht := ht.fetch (f := r.wget s.attempts.length) hmem hnone
    split
    · next hf =>
      simp only [wp_cmd, Post.finish_of_ignored (c := c.enter) hc, Post.finish_of_ignored hc]
      refine hnext _ _ ht fun _ => ⟨fun name hname => ?_, by rw [hf]⟩
      by_cases heq : name = basename url
      · simp [heq, hf, Fetch.leaves]
      · simpa [heq] using hname
    · simp only [wp_cmd, Post.finish_of_ignored (c := c.enter) hc, Post.finish_of_ignored hc]
      refine hnext _ _ ht fun h0 => absurd h0 ?_
      split
      · next hp => exact hp.2
      · exact Nat.succ_ne_zero _
    · exact hexit _ _ ht

/-- The packages before `rest` have their files, and no call of wget has failed. -/
structure Present (rest : List String) (s : State) : Prop where
  files : ∃ done, packages = done ++ rest ∧ ∀ url ∈ done, (s.files (basename url)).isSome
  attempts : ∀ a ∈ s.attempts, a.2 = .complete

theorem Present.found {rest : List String} (hp : Present (url :: rest) s)
    (hfound : (s.files (basename url)).isSome) : Present rest s := by
  obtain ⟨⟨done, hd, hs⟩, ha⟩ := hp
  refine ⟨⟨done ++ [url], by rw [hd, List.append_assoc]; rfl, fun u hu => ?_⟩, ha⟩
  rcases List.mem_append.1 hu with hu | hu
  · exact hs u hu
  · rwa [List.mem_singleton.1 hu]

theorem Present.downloaded {rest : List String} (hp : Present (url :: rest) s)
    (hd : Downloaded url s s') : Present rest s' := by
  obtain ⟨⟨done, hdone, hs⟩, ha⟩ := hp
  have hp' : Present (url :: rest) s' := by
    refine ⟨⟨done, hdone, fun u hu => hd.files _ (.inr (hs u hu))⟩, fun a h => ?_⟩
    rw [hd.attempts, List.mem_append, List.mem_singleton] at h
    rcases h with h | rfl
    · exact ha a h
    · rfl
  exact hp'.found (hd.files _ (.inl rfl))

/-- A run keeps track of what is torn, however it ends; if it ends well, no
    tarball is missing. -/
theorem wp_downloadPackages
    (hnext : ∀ s', Tracks served files s' → Present [] s' → Q.next 0 s')
    (hexit : ∀ n s', Tracks served files s' → Q.exit n s') :
    wp (downloadPackages served r) Ctx.top Q { files } := by
  simp only [downloadPackages, wp_call, wp_block_cons, wp_block_singleton, wp_message]
  split
  · exact hexit _ _ (.refl served files)
  refine wp_forIn_of_inv (fun rest s => Tracks served files s ∧ Present rest s)
    (fun url rest s h => ?_) (fun n s h => ?_)
    ⟨.refl served files, ⟨[], rfl, fun _ h => absurd h List.not_mem_nil⟩,
      fun _ h => absurd h List.not_mem_nil⟩
  · obtain ⟨ht, hp⟩ := h
    have hmem : url ∈ packages := by
      obtain ⟨⟨done, hd, _⟩, _⟩ := hp
      rw [hd]
      exact List.mem_append_right _ List.mem_cons_self
    simp only [downloadPackage, wp_ite_not_test, wp_block_cons, wp_block_singleton, wp_message]
    split
    · next hsome =>
      split
      · exact hexit _ _ ht
      · exact ⟨ht, (hp.found hsome).files, hp.attempts⟩
    · next hnone =>
      split
      · exact hexit _ _ ht
      simp only [wp_ite, wp_not]
      refine wp_wgetDownload rfl hmem (by simpa using hnone) ht (fun n s' ht' hd => ?_)
        fun n s' => hexit n s'
      by_cases h0 : n = 0
      · simp only [h0, ↓reduceIte, Nat.one_ne_zero, wp_skip]
        exact ⟨ht', hp.downloaded ⟨(hd h0).files, (hd h0).attempts⟩⟩
      · simp only [h0, ↓reduceIte, wp_block_cons, wp_block_singleton, wp_message, wp_exit]
        split
        · exact hexit _ _ ht'
        · exact hexit _ _ ht'
  · obtain ⟨ht, hp⟩ := h
    dsimp only
    split
    · exact hexit _ _ ht
    · rw [Post.finish_zero]
      exact hnext _ ht ⟨hp.files, hp.attempts⟩

/-- A run whose messages pass and whose calls of wget are complete. -/
def online : Run := ⟨false, fun _ => .complete, fun _ => 0, fun _ => false⟩

/-- Such a run reports success, whatever the directory holds. -/
theorem downloadPackages_online (served : String → Bytes) (files : Files) :
    ∃ s, downloadPackages served online Ctx.top { files } = (.next 0, s) := by
  have hwp : wp (downloadPackages served online) Ctx.top { next := fun n _ => n = 0 }
      { files } := by
    simp only [downloadPackages, wp_call, wp_block_cons, wp_block_singleton, wp_message]
    refine wp_forIn_of_inv (fun _ _ => True) (fun url rest s _ => ?_) (fun _ _ _ => ?_) trivial
    · simp [downloadPackage, wp_message, wgetDownload, wget, online]
    · simp [online]
  obtain ⟨_, s, hrun, rfl⟩ := wp_next_iff.1 hwp
  exact ⟨s, hrun⟩

/-! ## Histories of runs -/

/-- The runs `rs`, one after the other, from the directory `files`: the directory
    they leave, and all their calls of wget. -/
def history (served : String → Bytes) : List Run → Files → Files × List (String × Fetch)
  | [], files => (files, [])
  | r :: rs, files =>
    let s := (downloadPackages served r Ctx.top { files }).2
    ((history served rs s.files).1, s.attempts ++ (history served rs s.files).2)

/-- What a run has done when it ends. -/
theorem tracks_downloadPackages :
    Tracks served files (downloadPackages served r Ctx.top { files }).2 := by
  have hwp : wp (downloadPackages served r) Ctx.top (.always (Tracks served files)) { files } :=
    wp_downloadPackages (fun _ ht _ => ht) fun _ _ => id
  exact wp_always.1 hwp

/-- A tarball is damaged by a history if a call of wget has torn it, and no run
    ever repairs it. -/
theorem damaged_history_iff (rs : List Run) (hmem : url ∈ packages) :
    Damaged served (history served rs files).1 url ↔ Damaged served files url ∨
      ∃ f, (url, f) ∈ (history served rs files).2 ∧ f.Torn (served url) := by
  induction rs generalizing files with
  | nil => simp [history]
  | cons r rs ih =>
    rw [history, ih, tracks_downloadPackages url hmem]
    simp only [List.mem_append, or_and_right, exists_or, or_assoc]

/-- A run that reports success has damaged nothing, and no tarball is missing. -/
theorem success_of_downloadPackages
    (hrun : downloadPackages served r Ctx.top { files } = (.next 0, s)) (hmem : url ∈ packages) :
    (s.files (basename url)).isSome ∧ (Damaged served s.files url → Damaged served files url) := by
  have hwp : wp (downloadPackages served r) Ctx.top
      { next := fun _ s => Tracks served files s ∧ Present [] s, exit := fun _ _ => True }
      { files } :=
    wp_downloadPackages (fun _ ht hp => ⟨ht, hp⟩) fun _ _ _ => trivial
  obtain ⟨ht, ⟨done, hd, hs⟩, ha⟩ := (wp_of_eq hrun).1 hwp
  refine ⟨hs url ?_, fun h => (ht url hmem).1 h |>.resolve_right fun htorn => ?_⟩
  · rwa [hd, List.append_nil] at hmem
  · obtain ⟨f, hf, b, hb, hne⟩ := htorn
    cases ha _ hf
    exact hne (Option.some.inj hb).symm

/-- A run takes a damaged tarball for a good one. -/
theorem damaged_of_online (hmem : url ∈ packages) (hd : Damaged served files url) :
    ∃ s, downloadPackages served online Ctx.top { files } = (.next 0, s) ∧
      Damaged served s.files url := by
  obtain ⟨s, hrun⟩ := downloadPackages_online served files
  have ht : Tracks served files (downloadPackages served online Ctx.top { files }).2 :=
    tracks_downloadPackages
  rw [hrun] at ht
  exact ⟨s, hrun, (ht url hmem).2 (.inl hd)⟩

/-- Whatever follows a history, a run that reports success has every tarball
    complete, if and only if none was damaged at the start of the history and no
    call of wget in the history has torn one. -/
theorem downloadPackages_complete_iff (rs : List Run) :
    (∀ r s, downloadPackages served r Ctx.top { files := (history served rs files).1 } =
        (.next 0, s) → ∀ url ∈ packages, s.files (basename url) = some (served url)) ↔
      ∀ url ∈ packages, ¬Damaged served files url ∧
        ∀ f, (url, f) ∈ (history served rs files).2 → ¬f.Torn (served url) := by
  constructor
  · intro h url hmem
    suffices hd : ¬Damaged served (history served rs files).1 url by
      rw [damaged_history_iff rs hmem, not_or, not_exists] at hd
      exact ⟨hd.1, fun f hf htorn => hd.2 f ⟨hf, htorn⟩⟩
    intro hd
    obtain ⟨s, hrun, b, hb, hne⟩ := damaged_of_online hmem hd
    exact hne (Option.some.inj (hb.symm.trans (h online s hrun url hmem)))
  · intro h r s hrun url hmem
    obtain ⟨hsome, hd⟩ := success_of_downloadPackages hrun hmem
    obtain ⟨b, hb⟩ := Option.isSome_iff_exists.1 hsome
    by_contra hne
    have hd := hd ⟨b, hb, fun he => hne (he ▸ hb)⟩
    rcases (damaged_history_iff rs hmem).1 hd with hd | ⟨f, hf, htorn⟩
    · exact (h url hmem).1 hd
    · exact (h url hmem).2 f hf htorn

/-- A run that is stopped while wget has written one byte of two leaves a tarball
    that the next run takes for complete. -/
theorem downloadPackages_torn : ∃ rs s, ∃ url ∈ packages,
    downloadPackages (fun _ => [0, 1]) online Ctx.top
        { files := (history (fun _ => [0, 1]) rs fun _ => none).1 } = (.next 0, s) ∧
      s.files (basename url) ≠ some [0, 1] := by
  have hmem : "https://ftp.gnu.org/gnu/binutils/binutils-2.42.tar.xz" ∈ packages :=
    List.mem_cons_self
  have hd : Damaged (fun _ => [0, 1]) (history (fun _ => [0, 1])
      [⟨false, fun _ => .killed (some 1), fun _ => 0, fun _ => false⟩] fun _ => none).1
      "https://ftp.gnu.org/gnu/binutils/binutils-2.42.tar.xz" := ⟨[0], rfl, by decide⟩
  obtain ⟨s, hrun, b, hb, hne⟩ := damaged_of_online hmem hd
  exact ⟨_, s, _, hmem, hrun, fun h => hne (Option.some.inj (hb.symm.trans h))⟩

end LfsBuilder.LfsBuild
