import LfsBuilder.Library.Coreutils
import LfsBuilder.Library.Dict
import LfsBuilder.Library.Shell

/-!
# Downloading with checksums

The functions of `scripts/download-enhanced.sh`, over the regular files of the
sources directory. What the machine does is given by a `Host`: the tables, the
tools on the path, and what every run of wget or curl leaves under the name it
writes to. The messages are left out.

* `wp_verifyChecksum`, `wp_downloadPackage`: what a call can do to the files,
  and what holds of the file of a package when the call succeeds (`Fetched`)
  and when it fails (`Leaves`);
* `downloadPackagesEnhanced_fetched`: when the whole download succeeds in a
  condition, this holds of every package, whatever later rounds have done.
-/

namespace LfsBuilder.DownloadEnhanced

open Shell Coreutils

/-- The content of a file. -/
abbrev Bytes := List UInt8

/-- What a run of wget or curl ends with: a status, and the file under the name
    it writes to, if there is one. -/
structure Fetch where
  status : ℕ
  file : Option Bytes

/-- The machine: the tables of the script, its environment, the tools on the
    path, and the outcomes of the successive runs of wget or curl. -/
structure Host where
  packages : Dict String String
  checksums : Dict String String
  interactive : Bool
  /-- The answers of the user; `none` at the end of the input. -/
  answers : ℕ → Option String
  online : Bool
  hasWget : Bool
  hasCurl : Bool
  hasSha256sum : Bool
  hasShasum : Bool
  sha256 : Bytes → String
  fetches : ℕ → Fetch

/-- The sources directory and the variables of the functions. -/
structure State where
  files : String → Option Bytes
  fetched : ℕ := 0
  answered : ℕ := 0
  response : String := ""
  actualChecksum : String := ""
  downloadAttempts : ℕ := 0
  downloadedCount : ℕ := 0
  failedCount : ℕ := 0
  verifiedCount : ℕ := 0
  missingPackages : List String := []

/-- The entry of a file in `CHECKSUMS`, empty without one: `${CHECKSUMS[$filename]:-}` -/
def Host.checksum (h : Host) (filename : String) : String := h.checksums.getD filename ""

/-- `[[ -f "$filename" ]]` -/
def exists? (filename : String) : Sh State := .test fun s => (s.files filename).isSome

/-- `((x++))`: the status is that of the value before, a failure when it is zero. -/
def increment (get : State → ℕ) (set : ℕ → State → State) : Sh State :=
  .cmd fun _ s => (if get s = 0 then 1 else 0, set (get s + 1) s)

/-- `rm -f "$filename"` -/
def remove (filename : String) : Sh State :=
  .assign fun s => { s with files := Function.update s.files filename none }

/-- A run of wget or curl, writing to `filename`. -/
def fetch (h : Host) (filename : String) : Sh State :=
  .cmd fun _ s => ((h.fetches s.fetched).status,
    { s with
      files := Function.update s.files filename (h.fetches s.fetched).file
      fetched := s.fetched + 1 })

/-- The SHA-256 of a file, as sha256sum and shasum report it. -/
def Host.sum (h : Host) (filename : String) (s : State) : String :=
  h.sha256 ((s.files filename).getD [])

/-- `verify_checksum` -/
def verifyChecksum (h : Host) (filename expectedChecksum : String) : Sh State :=
  .call <| .block [
    .ite (.not (exists? filename)) (.ret 1) .skip,
    .ite (.test fun _ => h.hasSha256sum)
      (.assign fun s => { s with actualChecksum := h.sum filename s })
      (.ite (.test fun _ => h.hasShasum)
        (.assign fun s => { s with actualChecksum := h.sum filename s })
        (.ret 1)),
    .ite (.test fun s => s.actualChecksum == expectedChecksum) (.ret 0) (.ret 1)]

/-- The attempts that `download_package` allows. -/
def maxAttempts : ℕ := 3

/-- The body of the download loop. -/
def attempt (h : Host) (filename : String) : Sh State :=
  .block [
    increment (·.downloadAttempts) fun n s => { s with downloadAttempts := n },
    .ite (.test fun _ => h.hasWget)
      (.ite (fetch h filename) .brk .skip)
      (.ite (.test fun _ => h.hasCurl)
        (.ite (fetch h filename) .brk .skip)
        (.ret 1)),
    .ite (.test fun s => s.downloadAttempts == maxAttempts) (.ret 1) .skip]

/-- `download_package` -/
def downloadPackage (h : Host) (url : String) : Sh State :=
  let filename := basename url
  .call <| .block [
    -- Check if file already exists and is valid
    .ite (exists? filename)
      (.ite (.test fun _ => h.checksum filename != "")
        (.ite (verifyChecksum h filename (h.checksum filename)) (.ret 0) (remove filename))
        (remove filename))
      .skip,
    -- Download with progress and resume capability
    .assign fun s => { s with downloadAttempts := 0 },
    .whileDo (.test fun s => s.downloadAttempts < maxAttempts) (attempt h filename)
      (maxAttempts + 1),
    -- Verify download completed successfully
    .ite (.not (exists? filename)) (.ret 1) .skip,
    .ite (.test fun s => ((s.files filename).getD []).length == 0)
      (.block [remove filename, .ret 1]) .skip,
    -- Verify checksum if available
    .ite (.test fun _ => h.checksum filename != "")
      (.ite (verifyChecksum h filename (h.checksum filename)) .skip
        (.block [remove filename, .ret 1]))
      .skip,
    .ret 0]

/-- `read -r response`, and the question whether to go on. -/
def askToContinue (h : Host) : Sh State :=
  .block [
    .cmd fun _ s => (if (h.answers s.answered).isSome then 0 else 1,
      { s with response := (h.answers s.answered).getD "", answered := s.answered + 1 }),
    .ite (.test fun s => s.response != "y" && s.response != "Y") (.ret 1) .skip]

/-- The URL in an entry of `PACKAGES`, after the version. -/
def packageUrl (packageInfo : String) : String := substitute (cutRest packageInfo)

/-- The body of the loop over `PACKAGES`. -/
def processPackage (h : Host) (package : String × String) : Sh State :=
  .ite (downloadPackage h (packageUrl package.2))
    (increment (·.downloadedCount) fun n s => { s with downloadedCount := n })
    (.block [
      increment (·.failedCount) fun n s => { s with failedCount := n },
      .ite (.test fun _ => h.interactive) (askToContinue h) .skip])

/-- `download_packages_enhanced`, in an existing sources directory. -/
def downloadPackagesEnhanced (h : Host) : Sh State :=
  .call <| .block [
    .ite (.not (.test fun _ => h.online)) (.ret 1) .skip,
    .assign fun s => { s with downloadedCount := 0, failedCount := 0 },
    .forIn h.packages.entries (processPackage h),
    .ite (.test fun s => 0 < s.failedCount) (.ret 1) (.ret 0)]

/-- The body of the loop over `CHECKSUMS`. -/
def verifyFile (h : Host) (checksum : String × String) : Sh State :=
  .ite (exists? checksum.1)
    (.ite (verifyChecksum h checksum.1 checksum.2)
      (increment (·.verifiedCount) fun n s => { s with verifiedCount := n })
      (increment (·.failedCount) fun n s => { s with failedCount := n }))
    .skip

/-- `verify_all_packages` -/
def verifyAllPackages (h : Host) : Sh State :=
  .call <| .block [
    .assign fun s => { s with verifiedCount := 0, failedCount := 0 },
    .forIn h.checksums.entries (verifyFile h),
    .ite (.test fun s => s.failedCount == 0) (.ret 0) (.ret 1)]

/-- The body of the loop of `check_missing_packages`. -/
def checkPackage (package : String × String) : Sh State :=
  let filename := basename (packageUrl package.2)
  .ite (.not (exists? filename))
    (.assign fun s =>
      { s with missingPackages := s.missingPackages ++ [package.1 ++ " (" ++ filename ++ ")"] })
    .skip

/-- `check_missing_packages` -/
def checkMissingPackages (h : Host) : Sh State :=
  .call <| .block [
    .assign fun s => { s with missingPackages := [] },
    .forIn h.packages.entries checkPackage,
    .ite (.test fun s => s.missingPackages.length == 0) (.ret 0) (.ret 1)]

/-! ## Single packages -/

variable {h : Host} {c : Ctx} {Q : Post State} {s : State}

/-- Only the file `filename` may have changed, and none of the counts. -/
structure Keeps (filename : String) (s s' : State) : Prop where
  files : ∀ f ≠ filename, s'.files f = s.files f
  failedCount : s'.failedCount = s.failedCount
  downloadedCount : s'.downloadedCount = s.downloadedCount

/-- The file of a package is present, matches its checksum, if there is one, and
    is not empty, unless a checksum says so. -/
def Fetched (h : Host) (files : String → Option Bytes) (filename : String) : Prop :=
  ∃ content, files filename = some content ∧
    (h.checksum filename ≠ "" → h.sha256 content = h.checksum filename) ∧
    (content = [] → h.checksum filename ≠ "")

theorem Keeps.refl (filename : String) (s : State) : Keeps filename s s :=
  ⟨fun _ _ => rfl, rfl, rfl⟩

theorem Keeps.trans {filename : String} {s s' s'' : State} (h : Keeps filename s s')
    (h' : Keeps filename s' s'') : Keeps filename s s'' :=
  ⟨fun f hf => (h'.files f hf).trans (h.files f hf), h'.failedCount.trans h.failedCount,
    h'.downloadedCount.trans h.downloadedCount⟩

/-- A change of the file `filename` alone. -/
theorem Keeps.update {filename : String} {s s' : State} (content : Option Bytes)
    (hf : s'.files = Function.update s.files filename content)
    (hn : s'.failedCount = s.failedCount) (hd : s'.downloadedCount = s.downloadedCount) :
    Keeps filename s s' :=
  ⟨fun f hne => by rw [hf, Function.update_of_ne hne], hn, hd⟩

/-- The file is there, has the sum, and there is a tool that says so. -/
def Matches (h : Host) (s : State) (filename expectedChecksum : String) : Prop :=
  (h.hasSha256sum = true ∨ h.hasShasum = true) ∧
    ∃ content, s.files filename = some content ∧ h.sha256 content = expectedChecksum

/-- A verification changes no file, and succeeds on a file with the expected sum only. -/
theorem wp_verifyChecksum (hc : c.ignored = true) {filename expected : String}
    (hok : ∀ a, Matches h s filename expected → Q.next 0 { s with actualChecksum := a })
    (hbad : ∀ a, ¬Matches h s filename expected → Q.next 1 { s with actualChecksum := a }) :
    wp (verifyChecksum h filename expected) c Q s := by
  simp only [verifyChecksum, wp_call, wp_block_cons, wp_block_singleton, exists?, wp_ite_test,
    wp_ite_not_test, wp_ret, wp_skip, wp_assign, Post.finish_of_ignored hc]
  split
  · next he =>
    obtain ⟨content, hf⟩ := Option.isSome_iff_exists.1 he
    have hsum : h.sum filename s = h.sha256 content := by rw [Host.sum, hf, Option.getD_some]
    have hmatches (htool : h.hasSha256sum = true ∨ h.hasShasum = true) :
        Matches h s filename expected ↔ (h.sum filename s == expected) = true := by
      rw [Matches, hsum, beq_iff_eq, and_iff_right htool]
      simp [hf]
    split
    · next htool =>
      split
      · next hb => exact hok _ ((hmatches (.inl htool)).2 hb)
      · next hb => exact hbad _ fun hm => hb ((hmatches (.inl htool)).1 hm)
    · next hno =>
      split
      · next htool =>
        split
        · next hb => exact hok _ ((hmatches (.inr htool)).2 hb)
        · next hb => exact hbad _ fun hm => hb ((hmatches (.inr htool)).1 hm)
      · next hno' => exact hbad s.actualChecksum fun hm => hm.1.elim hno hno'
  · next he =>
    refine hbad s.actualChecksum ?_
    rintro ⟨-, content, hf, -⟩
    rw [hf] at he
    exact he rfl

/-- The state after a run of wget or curl, in a further attempt. -/
def State.attempted (h : Host) (filename : String) (s : State) : State :=
  { s with
    files := Function.update s.files filename (h.fetches s.fetched).file
    fetched := s.fetched + 1
    downloadAttempts := s.downloadAttempts + 1 }

theorem State.keeps_attempted (h : Host) (filename : String) (s : State) :
    Keeps filename s (s.attempted h filename) :=
  .update (h.fetches s.fetched).file rfl rfl rfl

/-- There is a tool to download with. -/
def Host.HasTool (h : Host) : Prop := h.hasWget = true ∨ h.hasCurl = true

/-- The runs of wget or curl from `first` on, `n` of them, fail. -/
def Host.Unreachable (h : Host) (first n : ℕ) : Prop :=
  ∀ k < n, (h.fetches (first + k)).status ≠ 0

theorem Host.unreachable_one {first : ℕ} (hs : (h.fetches first).status ≠ 0) :
    h.Unreachable first 1 := by
  intro k hk
  rw [Nat.lt_one_iff.1 hk]
  exact hs

theorem Host.unreachable_succ {first n : ℕ} (hs : (h.fetches first).status ≠ 0) :
    h.Unreachable first (n + 1) ↔ h.Unreachable (first + 1) n := by
  constructor
  · intro hu k hk
    have hk' := hu (k + 1) (by omega)
    rwa [← Nat.add_assoc, Nat.add_right_comm] at hk'
  · intro hu k hk
    cases k with
    | zero => exact hs
    | succ k =>
      have hk' := hu k (by omega)
      rwa [Nat.add_right_comm] at hk'

/-- A round of the download loop ends the loop, or returns without a tool to
    download with, or after the last attempt. -/
theorem wp_attempt {filename : String} (hc : c.ignored = true)
    (hbrk : (h.fetches s.fetched).status = 0 → Q.brk (s.attempted h filename))
    (hnone : ¬h.HasTool → Q.ret 1 { s with downloadAttempts := s.downloadAttempts + 1 })
    (hlast : h.HasTool → (h.fetches s.fetched).status ≠ 0 →
      s.downloadAttempts + 1 = maxAttempts → Q.ret 1 (s.attempted h filename))
    (hnext : h.HasTool → (h.fetches s.fetched).status ≠ 0 → s.downloadAttempts + 1 ≠ maxAttempts →
      Q.next 0 (s.attempted h filename)) : wp (attempt h filename) c Q s := by
  simp only [attempt, increment, fetch, wp_block_cons, wp_block_singleton, wp_cmd,
    wp_ite_test, wp_ite_cmd, wp_skip, wp_brk, wp_ret, Post.finish_of_ignored hc, beq_iff_eq]
  split
  · next hw =>
    split
    · next hs => exact hbrk hs
    · next hs =>
      split
      · next ha => exact hlast (.inl hw) hs ha
      · next ha => exact hnext (.inl hw) hs ha
  · next hw =>
    split
    · next hcu =>
      split
      · next hs => exact hbrk hs
      · next hs =>
        split
        · next ha => exact hlast (.inr hcu) hs ha
        · next ha => exact hnext (.inr hcu) hs ha
    · next hcu => exact hnone fun ht => ht.elim hw hcu

/-- The download loop returns when no tool is there, or when all the attempts that are left
    fail, with the file as the last one leaves it; else it ends with one that succeeds. -/
theorem wp_attempts {filename : String} (hc : c.ignored = true) (left : ℕ)
    (hleft : s.downloadAttempts + (left + 1) = maxAttempts)
    (hnext : ∀ s', Keeps filename s s' → ¬h.Unreachable s.fetched (left + 1) → Q.next 0 s')
    (hnone : ∀ s', Keeps filename s s' → ¬h.HasTool → s'.fetched = s.fetched → Q.ret 1 s')
    (hlast : ∀ s', Keeps filename s s' → h.HasTool → h.Unreachable s.fetched (left + 1) →
      s.fetched < s'.fetched → s'.files filename = (h.fetches (s.fetched + left)).file →
      Q.ret 1 s') :
    wp (.whileDo (.test fun s => s.downloadAttempts < maxAttempts) (attempt h filename) (left + 2))
      c Q s := by
  have hk := State.keeps_attempted h filename s
  induction left generalizing s with
  | zero => 
    rw [wp_whileDo_succ, wp_test_guard, if_pos (decide_eq_true (by omega))]
    refine wp_attempt hc (fun hs => hnext _ hk fun hu => hu 0 Nat.one_pos hs)
      (fun ht => hnone _ ⟨fun _ _ => rfl, rfl, rfl⟩ ht rfl) (fun ht hs _ => ?_)
      fun ht hs ha => absurd hleft ha
    exact hlast _ hk ht (Host.unreachable_one hs) (Nat.lt_succ_self _)
      (Function.update_self filename _ s.files)
  | succ left ih =>
    rw [wp_whileDo_succ, wp_test_guard, if_pos (decide_eq_true (by omega))]
    refine wp_attempt hc (fun hs => hnext _ hk fun hu => hu 0 (Nat.succ_pos _) hs)
      (fun ht => hnone _ ⟨fun _ _ => rfl, rfl, rfl⟩ ht rfl) (fun ht hs ha => by omega)
      fun ht hs _ => ?_
    refine ih (by simp only [State.attempted]; omega) (fun s' hk' hu => ?_)
      (fun s' hk' hn _ => ?_) (fun s' hk' _ hu hlt hf => ?_) (State.keeps_attempted h filename _)
    · exact hnext s' (hk.trans hk') fun hu' => hu ((Host.unreachable_succ hs).1 hu')
    · exact absurd ht hn
    · refine hlast s' (hk.trans hk') ht ((Host.unreachable_succ hs).2 hu)
        (Nat.lt_of_succ_lt hlt) ?_
      rwa [State.attempted, Nat.add_right_comm] at hf

/-- A call keeps the file that it finds: the file has the sum in the table. -/
def KeepsFile (h : Host) (filename : String) (s : State) : Prop :=
  h.checksum filename ≠ "" ∧ Matches h s filename (h.checksum filename)

/-- The file is not kept, and each attempt to download it fails. -/
structure GivesUp (h : Host) (filename : String) (s : State) : Prop where
  notKept : ¬KeepsFile h filename s
  hasTool : h.HasTool
  unreachable : h.Unreachable s.fetched maxAttempts

/-- What a call that fails leaves of the file: what the last attempt does, when it gives up,
    and otherwise nothing, once it has run wget or curl. -/
inductive Leaves (h : Host) (filename : String) (s s' : State) : Prop
  | removed : ¬GivesUp h filename s → s'.files filename = none → Leaves h filename s s'
  | noTool : ¬GivesUp h filename s → s'.fetched = s.fetched → Leaves h filename s s'
  | last : GivesUp h filename s → s.fetched < s'.fetched →
      s'.files filename = (h.fetches (s.fetched + 2)).file → Leaves h filename s s'

/-- The end of `download_package`, after its loop. -/
def checkDownloaded (h : Host) (filename : String) : Sh State :=
  .block [
    .ite (.not (exists? filename)) (.ret 1) .skip,
    .ite (.test fun s => ((s.files filename).getD []).length == 0)
      (.block [remove filename, .ret 1]) .skip,
    .ite (.test fun _ => h.checksum filename != "")
      (.ite (verifyChecksum h filename (h.checksum filename)) .skip
        (.block [remove filename, .ret 1]))
      .skip,
    .ret 0]

/-- After the loop, the file is fetched, or it is not there in the end. -/
theorem wp_checkDownloaded {filename : String}
    (hok : ∀ s', Keeps filename s s' → Fetched h s'.files filename → Q.ret 0 s')
    (hbad : ∀ s', Keeps filename s s' → s'.files filename = none → Q.ret 1 s') :
    wp (checkDownloaded h filename) c Q s := by
  have hremoved (s' : State) (hk : Keeps filename s s') :
      Q.ret 1 { s' with files := Function.update s'.files filename none } :=
    hbad _ (hk.trans (.update none rfl rfl rfl)) (Function.update_self filename none s'.files)
  simp only [checkDownloaded, exists?, wp_block_cons, wp_block_singleton, wp_ite_not_test,
    wp_ite_test, wp_ret, wp_skip]
  split
  · next hex =>
    obtain ⟨content, hf⟩ := Option.isSome_iff_exists.1 hex
    split
    · exact hremoved s (.refl _ _)
    · next hlen =>
      have hne : content ≠ [] := by simpa [hf] using hlen
      split
      · rw [wp_ite]
        refine wp_verifyChecksum rfl (fun a hm => ?_) fun a _ => ?_
        · obtain ⟨-, content', hf', he⟩ := hm
          rw [hf] at hf'
          cases hf'
          simp only [↓reduceIte, wp_skip]
          exact hok _ ⟨fun _ _ => rfl, rfl, rfl⟩
            ⟨content, hf, fun _ => he, fun h => absurd h hne⟩
        · exact hremoved { s with actualChecksum := a } ⟨fun _ _ => rfl, rfl, rfl⟩
      · next hsum =>
        exact hok s (.refl _ _)
          ⟨content, hf, fun h => absurd h (by simpa using hsum), fun h => absurd h hne⟩
  · next hex => exact hbad s (.refl _ _) (Option.not_isSome_iff_eq_none.1 hex)

/-- The part of `download_package` for a file that is not kept. -/
def downloadFile (h : Host) (filename : String) : Sh State :=
  .seq (.assign fun s => { s with downloadAttempts := 0 })
    (.seq (.whileDo (.test fun s => s.downloadAttempts < maxAttempts) (attempt h filename)
      (maxAttempts + 1)) (checkDownloaded h filename))

theorem wp_downloadFile {filename : String} {s₁ : State} (hc : c.ignored = true)
    (hk : Keeps filename s s₁) (hfetched : s₁.fetched = s.fetched)
    (hkept : ¬KeepsFile h filename s)
    (hok : ∀ s', Keeps filename s s' → ¬GivesUp h filename s → Fetched h s'.files filename →
      Q.ret 0 s')
    (hbad : ∀ s', Keeps filename s s' → Leaves h filename s s' → Q.ret 1 s') :
    wp (downloadFile h filename) c Q s₁ := by
  have hk : Keeps filename s { s₁ with downloadAttempts := 0 } :=
    ⟨hk.files, hk.failedCount, hk.downloadedCount⟩
  rw [downloadFile, wp_seq, wp_assign]
  refine wp_seq.2 (wp_attempts hc 2 rfl (fun s₂ hk₂ hr => ?_) (fun s₂ hk₂ ht hn => ?_)
    fun s₂ hk₂ ht hu hlt hf => ?_)
  · have hr : ¬GivesUp h filename s := fun hg => hr (hfetched ▸ hg.unreachable)
    exact wp_checkDownloaded (fun s₃ hk₃ => hok s₃ ((hk.trans hk₂).trans hk₃) hr) fun s₃ hk₃ hf =>
      hbad s₃ ((hk.trans hk₂).trans hk₃) (.removed hr hf)
  · exact hbad _ (hk.trans hk₂) (.noTool (fun hg => ht hg.hasTool) (hn.trans hfetched))
  · rw [show ({ s₁ with downloadAttempts := 0 } : State).fetched = s.fetched from hfetched]
      at hu hlt hf
    exact hbad _ (hk.trans hk₂) (.last ⟨hkept, ht, hu⟩ hlt hf)

/-- A call that succeeds leaves the file fetched, and has not given up; no call changes
    another file. -/
theorem wp_downloadPackage {url : String} (hc : c.ignored = true)
    (hok : ∀ s', Keeps (basename url) s s' → ¬GivesUp h (basename url) s →
      Fetched h s'.files (basename url) → Q.next 0 s')
    (hbad : ∀ s', Keeps (basename url) s s' → Leaves h (basename url) s s' → Q.next 1 s') :
    wp (downloadPackage h url) c Q s := by
  have hend (s' : State) (hn : Q.next 0 s') : Q.finish c 0 s' := Post.finish_zero.2 hn
  have hfail (s' : State) (hn : Q.next 1 s') : Q.finish c 1 s' := (Post.finish_of_ignored hc).2 hn
  have hdownload (s₁ : State) (hk : Keeps (basename url) s s₁) (hf : s₁.fetched = s.fetched)
      (hkept : ¬KeepsFile h (basename url) s) : wp (downloadFile h (basename url)) c.enter
        { Q with next := Q.finish c, ret := Q.finish c, brk := Q.next 0 } s₁ :=
    wp_downloadFile (c := c.enter) hc hk hf hkept
      (fun s' hk' hg hf' => hend s' (hok s' hk' hg hf')) fun s' hk' hl => hfail s' (hbad s' hk' hl)
  rw [downloadPackage, wp_call, wp_block_cons]
  -- An existing file is fetched if it is verified, and otherwise removed.
  simp only [exists?, wp_ite_test, wp_skip]
  split
  · split
    · next hsum =>
      have hsum : h.checksum (basename url) ≠ "" := by simpa using hsum
      rw [wp_ite]
      refine wp_verifyChecksum rfl (fun a hm => ?_) fun a hm => ?_
      · simp only [↓reduceIte, wp_ret, Post.finish_zero]
        obtain ⟨content, hf, he⟩ := hm.2
        exact hok _ ⟨fun _ _ => rfl, rfl, rfl⟩ (fun hg => hg.notKept ⟨hsum, hm⟩)
          ⟨content, hf, fun _ => he, fun _ => hsum⟩
      · exact hdownload _ (.update none rfl rfl rfl) rfl fun hk => hm hk.2
    · next hsum =>
      exact hdownload _ (.update none rfl rfl rfl) rfl fun hk => hsum (bne_iff_ne.2 hk.1)
  · next hex =>
    refine hdownload s (.refl _ _) rfl ?_
    rintro ⟨-, -, content, hf, -⟩
    exact hex (by rw [hf]; rfl)

/-! ## The whole table -/

theorem wp_askToContinue (hc : c.ignored = true)
    (hret : ∀ s', s'.files = s.files → s'.failedCount = s.failedCount → Q.ret 1 s')
    (hnext : ∀ s', s'.files = s.files → s'.failedCount = s.failedCount → Q.next 0 s') :
    wp (askToContinue h) c Q s := by
  simp only [askToContinue, wp_block_cons, wp_block_singleton, wp_cmd, wp_ite_test, wp_ret, wp_skip,
    Post.finish_of_ignored hc]
  split
  · exact hret _ rfl rfl
  · exact hnext _ rfl rfl

/-- The packages before `rest` are fetched, if none has failed. -/
def Progress (h : Host) (rest : List (String × String)) (s : State) : Prop :=
  ∃ done, h.packages.entries = done ++ rest ∧
    (s.failedCount = 0 → ∀ e ∈ done, Fetched h s.files (basename (packageUrl e.2)))

/-- A round keeps the progress made: a package that shares its file with an
    earlier one has it fetched again. -/
theorem Progress.of_fetched {e : String × String} {rest : List (String × String)} {s s' : State}
    (hp : Progress h (e :: rest) s)
    (hfiles : ∀ f ≠ basename (packageUrl e.2), s'.files f = s.files f)
    (hn : s'.failedCount = s.failedCount)
    (hf : Fetched h s'.files (basename (packageUrl e.2))) : Progress h rest s' := by
  obtain ⟨done, hd, hs⟩ := hp
  refine ⟨done ++ [e], by rw [hd, List.append_assoc]; rfl, fun h0 e' he' => ?_⟩
  rcases eq_or_ne (basename (packageUrl e'.2)) (basename (packageUrl e.2)) with heq | hne
  · rw [heq]
    exact hf
  · rcases List.mem_append.1 he' with he' | he'
    · obtain ⟨content, hc⟩ := hs (by rw [← hn, h0]) e' he'
      exact ⟨content, (hfiles _ hne).trans hc.1, hc.2⟩
    · rw [List.mem_singleton.1 he'] at hne
      exact absurd rfl hne

theorem Progress.of_failed {e : String × String} {rest : List (String × String)} {s s' : State}
    (hp : Progress h (e :: rest) s) (hn : s'.failedCount ≠ 0) : Progress h rest s' := by
  obtain ⟨done, hd, _⟩ := hp
  exact ⟨done ++ [e], by rw [hd, List.append_assoc]; rfl, fun h0 => absurd h0 hn⟩

/-- A round of the loop keeps the progress, or ends the download with a failure. -/
theorem wp_processPackage {e : String × String} {rest : List (String × String)}
    (hc : c.ignored = true) (hp : Progress h (e :: rest) s)
    (hnext : ∀ n s', Progress h rest s' → Q.next n s') (hret : ∀ s', Q.ret 1 s') :
    wp (processPackage h e) c Q s := by
  rw [processPackage, wp_ite]
  refine wp_downloadPackage rfl (fun s' hk _ hf => ?_) fun s' hk _ => ?_
  · simp only [↓reduceIte, increment, wp_cmd, Post.finish_of_ignored hc]
    exact hnext _ _ (hp.of_fetched hk.files hk.failedCount hf)
  · simp only [Nat.one_ne_zero, ↓reduceIte, increment, wp_block_cons, wp_block_singleton, wp_cmd,
      Post.finish_of_ignored hc, wp_ite_test, wp_skip]
    split
    · refine wp_askToContinue hc (fun s'' _ _ => hret s'') fun s'' _ hn => ?_
      exact hnext 0 s'' (hp.of_failed (by rw [hn]; exact Nat.succ_ne_zero _))
    · have hfail : Progress h rest { s' with failedCount := s'.failedCount + 1 } :=
        hp.of_failed (Nat.succ_ne_zero _)
      exact hnext 0 _ hfail

/-- A download that succeeds where errexit is ignored has fetched every package. -/
theorem wp_downloadPackagesEnhanced (hc : c.ignored = true)
    (hok : ∀ s', (∀ e ∈ h.packages.entries, Fetched h s'.files (basename (packageUrl e.2))) →
      Q.next 0 s')
    (hbad : ∀ s', Q.next 1 s') : wp (downloadPackagesEnhanced h) c Q s := by
  simp only [downloadPackagesEnhanced, wp_call, wp_block_cons, wp_block_singleton, wp_ite_not_test,
    wp_ite_test, wp_ret, wp_skip, wp_assign, Post.finish_of_ignored hc]
  split
  · refine wp_forIn_of_inv (Progress h) (fun e rest s₁ hp => ?_) (fun n s₁ hp => ?_) ?_
    · exact wp_processPackage (c := c.enter) hc hp (fun _ _ h => h) fun s' =>
        (Post.finish_of_ignored hc).2 (hbad s')
    · obtain ⟨done, hd, hs⟩ := hp
      dsimp only
      split
      · exact hbad s₁
      · next h0 =>
        refine hok s₁ fun e he => hs (by simpa using h0) e ?_
        rwa [hd, List.append_nil] at he
    · exact ⟨[], rfl, fun _ _ he => absurd he List.not_mem_nil⟩
  · exact hbad s

/-- What a successful download is meant to give: every package has a file, not
    empty, and with the sum that the table has for it. -/
def AllVerified (h : Host) (files : String → Option Bytes) : Prop :=
  ∀ e ∈ h.packages.entries, ∃ content, files (basename (packageUrl e.2)) = some content ∧
    content ≠ [] ∧
    ∀ sum, h.checksums.get? (basename (packageUrl e.2)) = some sum → h.sha256 content = sum

/-- In a condition, a successful download leaves a file for every package; it has
    the sum that the table has for it, unless that entry is empty, and it is not
    empty, unless its entry is the sum of the empty file. -/
theorem downloadPackagesEnhanced_fetched {s s' : State}
    (hrun : downloadPackagesEnhanced h Ctx.top.guard s = (.next 0, s')) :
    ∀ e ∈ h.packages.entries, ∃ content, s'.files (basename (packageUrl e.2)) = some content ∧
      (content ≠ [] ∨ h.checksums.get? (basename (packageUrl e.2)) = some (h.sha256 [])) ∧
      ∀ sum, h.checksums.get? (basename (packageUrl e.2)) = some sum → sum ≠ "" →
        h.sha256 content = sum := by
  have hwp : wp (downloadPackagesEnhanced h) Ctx.top.guard ⟨fun n s' => n = 0 →
      ∀ e ∈ h.packages.entries, Fetched h s'.files (basename (packageUrl e.2)),
      fun _ => False, fun _ _ => False, fun _ _ => False, fun _ => False⟩ s :=
    wp_downloadPackagesEnhanced rfl (fun _ h _ => h) fun _ h => absurd h Nat.one_ne_zero
  intro e he
  obtain ⟨content, hf, hsum, hempty⟩ := (wp_of_eq hrun).1 hwp rfl e he
  have hget {sum : String} (h' : h.checksums.get? (basename (packageUrl e.2)) = some sum) :
      h.checksum (basename (packageUrl e.2)) = sum := by rw [Host.checksum, Dict.getD, h']; rfl
  refine ⟨content, hf, ?_, fun sum h' hne => ?_⟩
  · by_cases hc : content = []
    · right
      subst hc
      cases h' : h.checksums.get? (basename (packageUrl e.2)) with
      | none => exact absurd (by rw [Host.checksum, Dict.getD, h']; rfl) (hempty rfl)
      | some sum => rw [← hget h', hsum (hempty rfl)]
    · exact .inl hc
  · rw [← hget h'] at hne ⊢
    exact hsum hne

/-- A machine with one package, whose file has the sum `sum` in the table, and a
    network that serves one byte. -/
def oneFile (sum : String) : Host where
  packages := ⟨[("file", "5.45 https://astron.com/pub/file/file-5.45.tar.gz")], by decide⟩
  checksums := ⟨[("file-5.45.tar.gz", sum)], by simp⟩
  interactive := false
  answers _ := none
  online := true
  hasWget := true
  hasCurl := true
  hasSha256sum := true
  hasShasum := true
  sha256 content := if content = [] then
      "e3b0c44298fc1c149afbf4c8996fb92427ae41e4649b934ca495991b7852b855"
    else "6e340b9cffb37a989ca544e6bb780a2c78901d3fb33738768511a30617afa01d"
  fetches _ := ⟨0, some [0]⟩

/-- An empty file whose sum is in the table is kept, and an empty entry of the
    table is not compared with. -/
theorem downloadPackagesEnhanced_not_allVerified :
    (∃ s', downloadPackagesEnhanced
        (oneFile "e3b0c44298fc1c149afbf4c8996fb92427ae41e4649b934ca495991b7852b855") Ctx.top.guard
        { files := fun f => if f = "file-5.45.tar.gz" then some [] else none } = (.next 0, s') ∧
      ¬AllVerified
        (oneFile "e3b0c44298fc1c149afbf4c8996fb92427ae41e4649b934ca495991b7852b855") s'.files) ∧
    ∃ s', downloadPackagesEnhanced (oneFile "") Ctx.top.guard { files := fun _ => none } =
        (.next 0, s') ∧ ¬AllVerified (oneFile "") s'.files := by
  refine ⟨⟨_, rfl, fun h => ?_⟩, ⟨_, rfl, fun h => ?_⟩⟩
  · obtain ⟨content, hf, hne, _⟩ := h _ (List.mem_singleton_self _)
    have hf : some [] = some content := hf
    exact hne (Option.some.inj hf).symm
  · obtain ⟨content, hf, hne, hs⟩ := h _ (List.mem_singleton_self _)
    have hf : some [0] = some content := hf
    have hs := hs "" rfl
    rw [← Option.some.inj hf] at hs
    exact absurd hs (by decide)

/-- A machine with two packages that share a file, and a network that serves one byte. -/
def mirrored : Host :=
  { oneFile "6e340b9cffb37a989ca544e6bb780a2c78901d3fb33738768511a30617afa01d" with
    packages := ⟨[("file", "5.45 https://astron.com/pub/file/file-5.45.tar.gz"),
      ("mirror", "5.45 https://mirror.org/file-5.45.tar.gz")], by decide⟩ }

theorem downloadPackagesEnhanced_mirrored :
    (downloadPackagesEnhanced mirrored Ctx.top.guard { files := fun _ => none }).1 = .next 0 := by
  decide +kernel

/-- How a run ends, and what it leaves. -/
theorem run_eq_of_fst {r : Flow × State} {flow : Flow} (h : r.1 = flow) : r = (flow, r.2) :=
  Prod.ext h rfl

/-- The file of both packages is fetched, and has the sum in the table. -/
theorem downloadPackagesEnhanced_fetched_mirrored :
    ∃ s', downloadPackagesEnhanced mirrored Ctx.top.guard { files := fun _ => none } =
        (.next 0, s') ∧
      ∃ content, s'.files "file-5.45.tar.gz" = some content ∧ mirrored.sha256 content =
        "6e340b9cffb37a989ca544e6bb780a2c78901d3fb33738768511a30617afa01d" := by
  obtain ⟨s', hrun⟩ : ∃ s', downloadPackagesEnhanced mirrored Ctx.top.guard
      { files := fun _ => none } = (.next 0, s') :=
    ⟨_, run_eq_of_fst downloadPackagesEnhanced_mirrored⟩
  refine ⟨s', hrun, ?_⟩
  obtain ⟨content, hcontent, -, hsum⟩ := downloadPackagesEnhanced_fetched hrun
    ("mirror", "5.45 https://mirror.org/file-5.45.tar.gz") (by decide +kernel)
  have hname : basename (packageUrl "5.45 https://mirror.org/file-5.45.tar.gz") =
      "file-5.45.tar.gz" := by decide +kernel
  rw [hname] at hcontent hsum
  exact ⟨content, hcontent, hsum _ (by decide +kernel) (by decide)⟩

end LfsBuilder.DownloadEnhanced
