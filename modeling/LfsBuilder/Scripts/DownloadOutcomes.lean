import LfsBuilder.Scripts.DownloadEnhanced
import LfsBuilder.Scripts.LfsBuild.Download

/-!
# What failed downloads leave, and how they are counted

`check_missing_packages`, and `download_packages` of `lfs-build.sh`, take a file
under the name of a package for the package. So a call of `download_package` that
fails must leave none, and a loop over the packages must count each of them.

* `downloadPackage_untaken_iff`: a call that fails after a download leaves
  nothing to be taken for the package, unless it gives up with a file left by
  its last attempt;
* `accounts_iff`: under errexit, neither the downloads nor the
  verifications get past the first file that they count.
-/

namespace LfsBuilder.DownloadEnhanced

open Shell Coreutils

variable {h : Host} {c : Ctx} {Q : Post State} {s : State}

/-! ## Files that are left -/

/-- How `check_missing_packages` names a package. -/
def missingLine (package : String × String) : String :=
  package.1 ++ " (" ++ basename (packageUrl package.2) ++ ")"

/-- The lines for the packages without a file. -/
def missingLines (files : String → Option Bytes) (packages : List (String × String)) :
    List String :=
  (packages.filter fun e => (files (basename (packageUrl e.2))).isNone).map missingLine

/-- `check_missing_packages` succeeds if each package has a file of its name. -/
theorem checkMissingPackages_eq (h : Host) (c : Ctx) (s : State) :
    checkMissingPackages h c s =
      (Sh.finish c (if missingLines s.files h.packages.entries = [] then 0 else 1),
        { s with missingPackages := missingLines s.files h.packages.entries }) := by
  rw [← wp_is, checkMissingPackages]
  simp only [wp_call, wp_block_cons, wp_block_singleton, wp_assign]
  refine wp_forIn_of_ok (fun rest s₁ => ∃ done, h.packages.entries = done ++ rest ∧
    s₁ = { s with missingPackages := missingLines s.files done }) ?_ ?_ ⟨[], rfl, rfl⟩
  · rintro e rest _ ⟨done, hd, rfl⟩
    have hd' : h.packages.entries = (done ++ [e]) ++ rest := by rw [hd, List.append_assoc]; rfl
    simp only [checkPackage, exists?, wp_ite_not_test, wp_skip, wp_assign, true_and]
    split
    · next hf =>
      refine ⟨done ++ [e], hd', ?_⟩
      rw [missingLines, missingLines, List.filter_append, List.filter_singleton]
      simp [Option.isNone_eq_false_iff.2 hf]
    · next hf =>
      refine ⟨done ++ [e], hd', ?_⟩
      rw [missingLines, missingLines, List.filter_append, List.filter_singleton]
      simp [Option.not_isSome_iff_eq_none.1 hf, missingLine]
  · rintro _ ⟨done, hd, rfl⟩
    rw [List.append_nil] at hd
    subst hd
    simp only [wp_ite_test, wp_ret, beq_iff_eq, List.length_eq_zero_iff]
    split <;> exact Post.finish_is.2 rfl

/-- Nothing is taken for a package under the name of its file: `check_missing_packages` reports
    each package with this file, and `download_packages` of `lfs-build.sh` fetches it. -/
structure Untaken (h : Host) (filename : String) (s : State) : Prop where
  absent : s.files filename = none
  missing : ∀ e ∈ h.packages.entries, basename (packageUrl e.2) = filename →
    ∀ c, ∃ s', checkMissingPackages h c s = (Sh.finish c 1, s') ∧
      missingLine e ∈ s'.missingPackages
  fetched : ∀ served (r : LfsBuild.Run) url, basename url = filename →
    (∀ n, r.stops n = false) → ∀ c,
      (LfsBuild.downloadPackage served r url c { files := s.files }).2.attempts.map Prod.fst = [url]

/-- A call of `wget_download` is a run of wget for its URL, however it ends. -/
theorem wp_wgetDownload_url {served : String → Bytes} {r : LfsBuild.Run} {url : String}
    {Q : Post LfsBuild.State} {s : LfsBuild.State} (hr : ∀ n, r.stops n = false)
    (hnext : ∀ n s', s'.attempts.map Prod.fst = s.attempts.map Prod.fst ++ [url] → Q.next n s')
    (hexit : ∀ n s', s'.attempts.map Prod.fst = s.attempts.map Prod.fst ++ [url] → Q.exit n s') :
    wp (LfsBuild.wgetDownload served r url) c Q s := by
  simp only [LfsBuild.wgetDownload, LfsBuild.wget, wp_call, wp_block_cons, wp_block_singleton,
    LfsBuild.wp_message, hr, Bool.false_eq_true, ↓reduceIte, wp_read, wp_seq, wp_assign]
  have hfinish (n : ℕ) (s' : LfsBuild.State)
      (hs' : s'.attempts.map Prod.fst = s.attempts.map Prod.fst ++ [url]) : Q.finish c n s' :=
    Post.finish_intro (hnext n s' hs') (hexit n s' hs')
  split
  · refine Post.at_finish.2 (Post.finish_intro (hfinish _ _ ?_) (hexit _ _ ?_))
    all_goals exact List.map_append
  · refine Post.at_finish.2 (Post.finish_intro (hfinish _ _ ?_) (hexit _ _ ?_))
    all_goals exact List.map_append
  · exact hexit _ _ List.map_append

theorem Untaken.of_absent {filename : String} (hf : s.files filename = none) :
    Untaken h filename s := by
  refine ⟨hf, fun e he hname c => ?_, fun served r url hname hr c => ?_⟩
  · have hmem : missingLine e ∈ missingLines s.files h.packages.entries :=
      List.mem_map_of_mem (List.mem_filter.2 ⟨he, by rw [hname, hf]; rfl⟩)
    exact ⟨_, by rw [checkMissingPackages_eq, if_neg (List.ne_nil_of_mem hmem)], hmem⟩
  · rw [← wp_always (P := fun s' : LfsBuild.State => s'.attempts.map Prod.fst = [url]),
      LfsBuild.downloadPackage, wp_ite_not_test, if_neg (by simp [hname, hf])]
    simp only [wp_block_cons, wp_block_singleton, LfsBuild.wp_message, hr, Bool.false_eq_true,
      ↓reduceIte, wp_ite, wp_not]
    refine wp_wgetDownload_url hr (fun n s' hs' => ?_) fun n s' hs' => ?_
    · by_cases h0 : n = 0
      · simp only [h0, ↓reduceIte, Nat.one_ne_zero, wp_skip]
        exact hs'
      · simp only [h0, ↓reduceIte, wp_exit]
        exact hs'
    · exact hs'

/-- A call that fails after a download leaves nothing to be taken for the package, unless it
    gives up and the last attempt leaves a file. -/
theorem downloadPackage_untaken_iff (h : Host) (url : String) (c : Ctx) (s : State) :
    (∀ s', downloadPackage h url c s = (.next 1, s') → s.fetched < s'.fetched →
      Untaken h (basename url) s') ↔
      (c.ignored = true → GivesUp h (basename url) s →
        (h.fetches (s.fetched + 2)).file = none) := by
  constructor
  · intro huntaken hc hg
    have hwp : wp (downloadPackage h url) c
        { next := fun n s' => n = 1 ∧ s.fetched < s'.fetched ∧
            s'.files (basename url) = (h.fetches (s.fetched + 2)).file } s := by
      refine wp_downloadPackage hc (fun s' _ hn _ => absurd hg hn) fun s' _ hl => ?_
      cases hl with
      | removed hn => exact absurd hg hn
      | noTool hn => exact absurd hg hn
      | last _ hlt hf => exact ⟨rfl, hlt, hf⟩
    obtain ⟨_, s', hrun, rfl, hlt, hf⟩ := wp_next_iff.1 hwp
    rw [← hf]
    exact (huntaken s' hrun hlt).absent
  · intro hcond s' hrun hlt
    have hc := ignored_of_call Nat.one_ne_zero hrun
    have hwp : wp (downloadPackage h url) c
        { next := fun n s' => n = 1 → s.fetched < s'.fetched →
            s'.files (basename url) = none } s := by
      refine wp_downloadPackage hc (fun s' _ _ _ h => by cases h) fun s' _ hl _ hlt => ?_
      cases hl with
      | removed _ hf => exact hf
      | noTool _ hn => exact absurd hn hlt.ne'
      | last hg _ hf => rw [hf, hcond hc hg]
    exact .of_absent ((wp_of_eq hrun).1 hwp rfl hlt)

/-- A machine whose downloads break off after the first byte. -/
def brokenOff : Host :=
  { oneFile "e1da06e2a4d0d8d1a5b9a2c8c1d2c5c6f2b0d6fd1cbd8bb6c2f0c4e60f0c3a5d" with
    fetches := fun _ => ⟨4, some [0]⟩ }

/-- After three attempts that break off, what is left of the file is taken for the package. -/
theorem downloadPackage_taken :
    ∃ s', downloadPackage brokenOff "https://astron.com/pub/file/file-5.45.tar.gz" Ctx.top.guard
        { files := fun _ => none } = (.next 1, s') ∧ 0 < s'.fetched ∧
      (checkMissingPackages brokenOff Ctx.top s').1 = .next 0 ∧
      ¬Untaken brokenOff "file-5.45.tar.gz" s' := by
  refine ⟨(downloadPackage brokenOff "https://astron.com/pub/file/file-5.45.tar.gz" Ctx.top.guard
    { files := fun _ => none }).2, Prod.ext ?_ rfl, ?_, ?_, fun hu => absurd hu.absent ?_⟩
  all_goals decide +kernel

/-! ## Counts -/

/-- A function that goes through a table, and counts the entries that succeed and those that
    fail. -/
structure Tally where
  function : Sh State
  entries : List (String × String)
  body : String × String → Sh State
  reset : State → State
  succeeds : (String × String) × State → Bool
  fails : (String × String) × State → Bool
  successes : State → ℕ
  failures : State → ℕ

/-- `download_packages_enhanced` -/
def downloads (h : Host) : Tally where
  function := downloadPackagesEnhanced h
  entries := h.packages.entries
  body := processPackage h
  reset s := { s with downloadedCount := 0, failedCount := 0 }
  succeeds r := (downloadPackage h (packageUrl r.1.2) Ctx.top.guard r.2).1 = .next 0
  fails r := (downloadPackage h (packageUrl r.1.2) Ctx.top.guard r.2).1 ≠ .next 0
  successes := State.downloadedCount
  failures := State.failedCount

/-- `verify_all_packages` -/
def verifications (h : Host) : Tally where
  function := verifyAllPackages h
  entries := h.checksums.entries
  body := verifyFile h
  reset s := { s with verifiedCount := 0, failedCount := 0 }
  succeeds r := (r.2.files r.1.1).isSome ∧
    (verifyChecksum h r.1.1 r.1.2 Ctx.top.guard r.2).1 = .next 0
  fails r := (r.2.files r.1.1).isSome ∧
    (verifyChecksum h r.1.1 r.1.2 Ctx.top.guard r.2).1 ≠ .next 0
  successes := State.verifiedCount
  failures := State.failedCount

/-- The rounds of the loop that begin. -/
def Tally.rounds (t : Tally) (s : State) : List ((String × String) × State) :=
  Sh.rounds t.body Ctx.top t.entries (t.reset s)

/-- A call under errexit visits each entry once, has the right counts after the loop, and
    succeeds if no entry fails. -/
structure Tally.Accounts (t : Tally) (s : State) : Prop where
  visits : (t.rounds s).map Prod.fst = t.entries
  counts : ∃ n s', Sh.forIn t.entries t.body Ctx.top (t.reset s) = (.next n, s') ∧
    t.successes s' = (t.rounds s).countP t.succeeds ∧ t.failures s' = (t.rounds s).countP t.fails
  returns : (∃ s', t.function Ctx.top s = (.next 0, s')) ↔ ∀ r ∈ t.rounds s, t.fails r = false

/-- The first increment of a count fails, and under errexit the shell exits. -/
theorem wp_increment_top {get : State → ℕ} {set : ℕ → State → State} (h0 : get s = 0)
    (hexit : Q.exit 1 (set 1 s)) : wp (increment get set) Ctx.top Q s := by
  rw [increment, wp_cmd, if_pos h0, h0, Post.finish_succ rfl]
  exact hexit

theorem wp_processPackage_top {e : String × String} (hd : s.downloadedCount = 0)
    (hf : s.failedCount = 0) (hexit : ∀ s', Q.exit 1 s') :
    wp (processPackage h e) Ctx.top Q s := by
  rw [processPackage, wp_ite]
  refine wp_downloadPackage rfl (fun s' hk _ _ => ?_) fun s' hk _ => ?_
  · simp only [↓reduceIte]
    exact wp_increment_top (hk.downloadedCount.trans hd) (hexit _)
  · simp only [Nat.one_ne_zero, ↓reduceIte, wp_block_cons]
    exact wp_increment_top (hk.failedCount.trans hf) (hexit _)

/-- The loop over the packages does not get past the first one. -/
theorem wp_processPackages_top {e : String × String} {rest : List (String × String)}
    (hd : s.downloadedCount = 0) (hf : s.failedCount = 0) (hexit : ∀ s', Q.exit 1 s') :
    wp (.forIn (e :: rest) (processPackage h)) Ctx.top Q s :=
  wp_forFrom_cons.2 (wp_processPackage_top hd hf hexit)

theorem verifyFile_of_absent {e : String × String} (hf : s.files e.1 = none) :
    verifyFile h e c s = (.next 0, s) := by
  rw [← wp_is]
  simp [verifyFile, exists?, hf, Post.is]

theorem wp_verifyFile_top {e : String × String} (he : s.files e.1 ≠ none)
    (hv : s.verifiedCount = 0) (hf : s.failedCount = 0) (hexit : ∀ s', Q.exit 1 s') :
    wp (verifyFile h e) Ctx.top Q s := by
  rw [verifyFile, exists?, wp_ite_test, if_pos (Option.isSome_iff_ne_none.2 he), wp_ite]
  refine wp_verifyChecksum rfl (fun a _ => ?_) fun a _ => ?_
  · simp only [↓reduceIte]
    exact wp_increment_top hv (hexit _)
  · simp only [Nat.one_ne_zero, ↓reduceIte]
    exact wp_increment_top hf (hexit _)

/-- The loop over the checksums does not get past the first file that is there. -/
theorem wp_verifyFiles_top {entries : List (String × String)}
    (he : ∃ e ∈ entries, s.files e.1 ≠ none) (hv : s.verifiedCount = 0) (hf : s.failedCount = 0)
    (hexit : ∀ s', Q.exit 1 s') : wp (.forIn entries (verifyFile h)) Ctx.top Q s := by
  suffices hfrom : ∀ n, wp (Sh.forFrom (verifyFile h) n entries) Ctx.top Q s from hfrom 0
  induction entries with
  | nil => simp at he
  | cons e entries ih =>
    intro n
    rw [wp_forFrom_cons]
    by_cases habsent : s.files e.1 = none
    · rw [wp_of_eq (verifyFile_of_absent habsent)]
      exact ih (by simpa [habsent] using he) 0
    · exact wp_verifyFile_top habsent hv hf hexit

/-- A loop that does not get to its end has no counts. -/
theorem Tally.not_accounts {t : Tally}
    (hexit : wp (.forIn t.entries t.body) Ctx.top
      { next := fun _ _ => False, exit := fun n _ => n = 1 } (t.reset s)) : ¬t.Accounts s := by
  intro ha
  obtain ⟨n, s', hrun, -⟩ := ha.counts
  exact (wp_of_eq hrun).1 hexit

/-- A loop with nothing to count has the right counts. -/
theorem Tally.accounts_of_skip {t : Tally}
    (hbody : ∀ e ∈ t.entries, t.body e Ctx.top (t.reset s) = (.next 0, t.reset s))
    (hsucceeds : ∀ e ∈ t.entries, t.succeeds (e, t.reset s) = false)
    (hfails : ∀ e ∈ t.entries, t.fails (e, t.reset s) = false)
    (hzero : t.successes (t.reset s) = 0 ∧ t.failures (t.reset s) = 0)
    (hrun : ∃ s', t.function Ctx.top s = (.next 0, s')) : t.Accounts s := by
  have hrounds : t.rounds s = t.entries.map (·, t.reset s) := rounds_of_skip hbody
  refine ⟨?_, ⟨0, t.reset s, forIn_of_skip hbody, ?_, ?_⟩, iff_of_true hrun fun r hr => ?_⟩
  · rw [hrounds, List.map_map]
    exact List.map_id _
  · rw [hrounds, List.countP_map, hzero.1, eq_comm, List.countP_eq_zero]
    exact fun e he => Bool.eq_false_iff.1 (hsucceeds e he)
  · rw [hrounds, List.countP_map, hzero.2, eq_comm, List.countP_eq_zero]
    exact fun e he => Bool.eq_false_iff.1 (hfails e he)
  · rw [hrounds] at hr
    obtain ⟨e, he, rfl⟩ := List.mem_map.1 hr
    exact hfails e he

theorem downloads_accounts_iff (honline : h.online = true) :
    (downloads h).Accounts s ↔ h.packages.entries = [] := by
  constructor
  · intro ha
    by_contra hne
    obtain ⟨e, rest, hentries⟩ := List.exists_cons_of_ne_nil hne
    refine Tally.not_accounts (s := s) ?_ ha
    rw [show (downloads h).entries = e :: rest from hentries]
    exact wp_processPackages_top rfl rfl fun _ => rfl
  · intro hnil
    have hentries (e : String × String) (he : e ∈ (downloads h).entries) : False := by
      rw [show (downloads h).entries = [] from hnil] at he
      exact List.not_mem_nil he
    refine Tally.accounts_of_skip (fun e he => (hentries e he).elim)
      (fun e he => (hentries e he).elim) (fun e he => (hentries e he).elim) ⟨rfl, rfl⟩ ?_
    refine ⟨(downloads h).reset s, ?_⟩
    rw [← wp_is]
    simp [downloads, downloadPackagesEnhanced, honline, hnil, Post.is]

theorem verifications_accounts_iff :
    (verifications h).Accounts s ↔ ∀ e ∈ h.checksums.entries, s.files e.1 = none := by
  constructor
  · intro ha
    by_contra hex
    push Not at hex
    refine Tally.not_accounts (s := s) ?_ ha
    exact wp_verifyFiles_top (s := (verifications h).reset s) hex rfl rfl fun _ => rfl
  · intro habsent
    have hbody (e : String × String) (he : e ∈ h.checksums.entries) :
        verifyFile h e Ctx.top ((verifications h).reset s) = (.next 0, (verifications h).reset s) :=
      verifyFile_of_absent (habsent e he)
    refine Tally.accounts_of_skip hbody (fun e he => ?_) (fun e he => ?_) ⟨rfl, rfl⟩ ?_
    · simp [verifications, habsent e he]
    · simp [verifications, habsent e he]
    · refine ⟨(verifications h).reset s, ?_⟩
      rw [← wp_is]
      simp only [verifications, verifyAllPackages, wp_call, wp_block_cons, wp_block_singleton,
        wp_assign]
      refine (wp_of_eq (forIn_of_skip hbody)).2 ?_
      simp only [Post.at, wp_ite_test, wp_ret]
      have hzero : ((verifications h).reset s).failedCount == 0 := rfl
      rw [if_pos hzero]
      exact Post.finish_zero.2 rfl

/-- In the shell that the script sets up, where every download is possible, the downloads are
    accounted for when there are none, and the verifications when none of the files is there. -/
theorem accounts_iff (honline : h.online = true) (s : State) :
    ((downloads h).Accounts s ↔ h.packages.entries = []) ∧
      ((verifications h).Accounts s ↔ ∀ e ∈ h.checksums.entries, s.files e.1 = none) :=
  ⟨downloads_accounts_iff honline, verifications_accounts_iff⟩

/-- Nothing to download, and nothing to verify, is accounted for. -/
theorem accounts_nothing :
    (downloads { oneFile "" with packages := ⟨[], by decide⟩ }).Accounts
        { files := fun _ => none } ∧
      (verifications { oneFile "" with packages := ⟨[], by decide⟩ }).Accounts
        { files := fun _ => none } := by
  have ha := accounts_iff (h := { oneFile "" with packages := ⟨[], by decide⟩ }) rfl
    { files := fun _ => none }
  exact ⟨ha.1.2 rfl, ha.2.2 fun _ _ => rfl⟩

/-- A machine that is served the right file. -/
def servedHost : Host := oneFile "6e340b9cffb37a989ca544e6bb780a2c78901d3fb33738768511a30617afa01d"

/-- The directory with that file. -/
def servedFiles (name : String) : Option Bytes :=
  if name = "file-5.45.tar.gz" then some [0] else none

/-- A package that is downloaded, and a file that is verified, make the shell exit. -/
theorem not_accounts_one :
    (downloadPackagesEnhanced servedHost Ctx.top { files := fun _ => none }).1 = .exit 1 ∧
      ¬(downloads servedHost).Accounts { files := fun _ => none } ∧
      (verifyAllPackages servedHost Ctx.top { files := servedFiles }).1 = .exit 1 ∧
      ¬(verifications servedHost).Accounts { files := servedFiles } := by
  refine ⟨by decide +kernel, ?_, by decide +kernel, ?_⟩
  · exact Tally.not_accounts (wp_processPackages_top rfl rfl fun _ => rfl)
  · refine Tally.not_accounts (wp_verifyFiles_top ⟨_, List.mem_singleton_self _, ?_⟩ rfl rfl
      fun _ => rfl)
    simp [verifications, servedFiles]

end LfsBuilder.DownloadEnhanced
