import LfsBuilder.Library.Frames
import LfsBuilder.Scripts.DownloadOutcomes

/-!
# Downloading again

What the functions of `scripts/download-enhanced.sh` do over several runs in one
sources directory: what a run changes at most, what a run does after one that has
succeeded, and what the two audits say about a run.

* `downloadPackagesEnhanced_bounded`: a run, however it ends, changes only the files of
  packages, and runs wget or curl at most three times for each;
* `runs_after_success`: with a sum for each package, the runs after one that has
  succeeded all succeed, and download nothing;
* `audits_iff`: `check_missing_packages` and `verify_all_packages` both pass exactly
  if a run would succeed without the network.
-/

namespace LfsBuilder.DownloadEnhanced

open Shell Coreutils

variable {h : Host} {c : Ctx} {Q : Post State} {s : State}

/-- The name of the file of an entry of `PACKAGES`. -/
def packageFile (package : String × String) : String := basename (packageUrl package.2)

/-! ## What a run changes -/

/-- Changes by at most `n` runs of wget or curl, to the files with a name in `names` only. -/
def Fetches (names : List String) (n : ℕ) (s s' : State) : Prop :=
  (∀ f ∉ names, s'.files f = s.files f) ∧ s'.fetched ≤ s.fetched + n

theorem counted_fetches (names : List String) : Counted (Fetches names) where
  refl _ := ⟨fun _ _ => rfl, le_rfl⟩
  trans h h' := ⟨fun f hf => (h'.1 f hf).trans (h.1 f hf), by have := h.2; have := h'.2; omega⟩
  mono hmn h := ⟨h.1, by have := h.2; omega⟩

section

variable {names : List String} {filename : String}

theorem Fetches.update (hf : filename ∈ names) {content : Option Bytes} {n : ℕ} {s' : State}
    (hs : s'.files = Function.update s.files filename content)
    (hn : s'.fetched ≤ s.fetched + n) : Fetches names n s s' :=
  ⟨fun f hne => by rw [hs, Function.update_of_ne (ne_of_mem_of_not_mem hf hne).symm], hn⟩

theorem spends_verifyChecksum {expected : String} :
    Spends (Fetches names) 0 (verifyChecksum h filename expected) := by
  have hR := counted_fetches names
  have hset : Spends (Fetches names) 0
      (.assign fun s => { s with actualChecksum := h.sum filename s }) := .assign hR.refl
  refine .call (.block_free hR (.ite hR (.not (.test hR)) (.ret hR) (.skip hR)) ?_)
  refine .block_free hR (.ite hR (.test hR) hset (.ite hR (.test hR) hset (.ret hR))) ?_
  exact .block_free hR (.ite hR (.test hR) (.ret hR) (.ret hR)) (.block_nil hR)

theorem spends_attempt (hf : filename ∈ names) :
    Spends (Fetches names) 1 (attempt h filename) := by
  have hR := counted_fetches names
  have hinc : Spends (Fetches names) 0
      (increment (·.downloadAttempts) fun n s => { s with downloadAttempts := n }) :=
    .cmd fun _ => hR.refl
  have hfetch : Spends (Fetches names) 1 (fetch h filename) := .cmd fun _ _ => .update hf rfl le_rfl
  have hrun := Spends.ite_cond (n := 0) hR hfetch (.brk hR) (.skip hR)
  have hlast : Spends (Fetches names) 0
      (.block [.ite (.test fun s => s.downloadAttempts == maxAttempts) (.ret 1) .skip]) :=
    .block_free hR (.ite hR (.test hR) (.ret hR) (.skip hR)) (.block_nil hR)
  refine .block_free hR hinc (.block_cons (m := 1) hR ?_ hlast)
  exact .ite hR (.test hR) hrun (.ite hR (.test hR) hrun (.ret hR))

/-- An attempt after which the loop goes on is counted. -/
theorem downloadAttempts_of_attempt {n : ℕ} {s' : State}
    (hr : attempt h filename c s = (.next n, s')) :
    s'.downloadAttempts = s.downloadAttempts + 1 := by
  suffices hwp : wp (attempt h filename) c
      ⟨fun _ s' => s'.downloadAttempts = s.downloadAttempts + 1, fun _ => True, fun _ _ => True,
        fun _ _ => True, fun _ => True⟩ s from (wp_of_eq hr).1 hwp
  simp only [attempt, increment, fetch, wp_block_cons, wp_block_singleton, wp_cmd, wp_ite_test,
    wp_ite_cmd, wp_skip, wp_brk, wp_ret]
  refine Post.finish_intro ?_ trivial
  dsimp only
  repeat' split
  all_goals first | rfl | trivial

theorem spends_downloadFile (hf : filename ∈ names) :
    Spends (Fetches names) 3 (downloadFile h filename) := by
  have hR := counted_fetches names
  have hremove : Spends (Fetches names) 0 (remove filename) :=
    .assign fun s => .update hf rfl le_rfl
  have hcheck : Spends (Fetches names) 0 (checkDownloaded h filename) := by
    have hfail : Spends (Fetches names) 0 (.block [remove filename, .ret 1]) :=
      .block_free hR hremove (.block_free hR (.ret hR) (.block_nil hR))
    refine .block_free hR (.ite hR (.not (.test hR)) (.ret hR) (.skip hR)) ?_
    refine .block_free hR (.ite hR (.test hR) hfail (.skip hR)) (.block_free hR ?_
      (.block_free hR (.ret hR) (.block_nil hR)))
    exact .ite hR (.test hR) (.ite hR spends_verifyChecksum (.skip hR) hfail) (.skip hR)
  -- The loop starts with its counter at zero, and so has three rounds left.
  have hloop : Spends (Fetches names) 3 (.seq (.assign fun s => { s with downloadAttempts := 0 })
      (.whileDo (.test fun s => s.downloadAttempts < maxAttempts) (attempt h filename)
        (maxAttempts + 1))) := by
    intro c s
    refine Spends.whileDo (k := 1) (v := fun s => maxAttempts - s.downloadAttempts) hR
      (fun s ht => ?_) (fun c s _ => spends_attempt hf c s) (fun c s n s' ht hr => ?_) _ c _
    · exact Nat.sub_pos_of_lt (of_decide_eq_true ht)
    · have ht : s.downloadAttempts < maxAttempts := of_decide_eq_true ht
      rw [downloadAttempts_of_attempt hr]
      omega
  rw [downloadFile, ← seq_assoc]
  exact .seq hR hloop hcheck

theorem spends_downloadPackage {url : String} (hf : basename url ∈ names) :
    Spends (Fetches names) 3 (downloadPackage h url) := by
  have hR := counted_fetches names
  have hremove : Spends (Fetches names) 0 (remove (basename url)) :=
    .assign fun s => .update hf rfl le_rfl
  have hverify : Spends (Fetches names) 0
      (verifyChecksum h (basename url) (h.checksum (basename url))) := spends_verifyChecksum
  have hexisting : Spends (Fetches names) 0 (.ite (exists? (basename url))
      (.ite (.test fun _ => h.checksum (basename url) != "")
        (.ite (verifyChecksum h (basename url) (h.checksum (basename url))) (.ret 0)
          (remove (basename url)))
        (remove (basename url))) .skip) :=
    .ite hR (.test hR) (.ite hR (.test hR) (.ite hR hverify (.ret hR) hremove) hremove) (.skip hR)
  exact .call (.seq (m := 0) hR hexisting (spends_downloadFile hf))

theorem spends_processPackage {e : String × String} (hf : packageFile e ∈ names) :
    Spends (Fetches names) 3 (processPackage h e) := by
  have hR := counted_fetches names
  have hask : Spends (Fetches names) 0 (askToContinue h) :=
    .block_free hR (.cmd fun _ => hR.refl)
      (.block_free hR (.ite hR (.test hR) (.ret hR) (.skip hR)) (.block_nil hR))
  refine .ite_cond (n := 0) hR (spends_downloadPackage hf) (.cmd fun _ => hR.refl) ?_
  exact .block_free hR (.cmd fun _ => hR.refl)
    (.block_free hR (.ite hR (.test hR) hask (.skip hR)) (.block_nil hR))

end

/-- Whatever the network gives, and however it ends, a download changes no file but those of
    packages, and runs wget or curl at most three times for each package. -/
theorem downloadPackagesEnhanced_bounded (h : Host) (c : Ctx) (s : State) :
    (∀ f, (∀ e ∈ h.packages.entries, basename (packageUrl e.2) ≠ f) →
      (downloadPackagesEnhanced h c s).2.files f = s.files f) ∧
    (downloadPackagesEnhanced h c s).2.fetched ≤
      s.fetched + maxAttempts * h.packages.entries.length := by
  have hR := counted_fetches (h.packages.entries.map packageFile)
  have hloop : Spends (Fetches (h.packages.entries.map packageFile))
      (3 * h.packages.entries.length) (.forIn h.packages.entries (processPackage h)) :=
    .forIn hR fun e he => spends_processPackage (List.mem_map_of_mem he)
  have hrun : Spends (Fetches (h.packages.entries.map packageFile))
      (3 * h.packages.entries.length) (downloadPackagesEnhanced h) := by
    refine .call (.block_free hR (.ite hR (.not (.test hR)) (.ret hR) (.skip hR)) ?_)
    refine .block_free hR (.assign hR.refl) (.block_cons (n := 0) hR hloop ?_)
    exact .block_free hR (.ite hR (.test hR) (.ret hR) (.ret hR)) (.block_nil hR)
  refine ⟨fun f hf => (hrun c s).1 f fun hmem => ?_, (hrun c s).2⟩
  obtain ⟨e, he, rfl⟩ := List.mem_map.1 hmem
  exact hf e he rfl

/-! ## Runs after a success -/

/-- The file of each package is kept by a call for it. -/
def AllKept (h : Host) (s : State) : Prop := ∀ e ∈ h.packages.entries, KeepsFile h (packageFile e) s

/-- A package with a file that is kept costs one verification. -/
theorem wp_downloadPackage_kept {url : String} (hk : KeepsFile h (basename url) s)
    (hok : ∀ a, Q.next 0 { s with actualChecksum := a }) : wp (downloadPackage h url) c Q s := by
  obtain ⟨hsum, hm⟩ := hk
  obtain ⟨content, hf, _⟩ := hm.2
  rw [downloadPackage, wp_call, wp_block_cons, exists?, wp_ite_test, if_pos (by rw [hf]; rfl),
    wp_ite_test, if_pos (bne_iff_ne.2 hsum), wp_ite]
  refine wp_verifyChecksum rfl (fun a _ => ?_) fun a hn => absurd hm hn
  simp only [↓reduceIte, wp_ret, Post.finish_zero]
  exact hok a

/-- Where all files are kept, a run in a condition succeeds, and changes no file. -/
theorem wp_downloadPackagesEnhanced_kept (hc : c.ignored = true) (honline : h.online = true)
    (hk : AllKept h s)
    (hok : ∀ s', s'.files = s.files → s'.fetched = s.fetched →
      s'.downloadedCount = h.packages.entries.length → s'.failedCount = 0 → Q.next 0 s') :
    wp (downloadPackagesEnhanced h) c Q s := by
  rw [downloadPackagesEnhanced, wp_call]
  simp only [wp_block_cons, wp_block_singleton, wp_ite_not_test, honline, ↓reduceIte, wp_skip,
    wp_assign]
  refine wp_forIn_of_inv (fun rest s₁ => (∀ e ∈ rest, e ∈ h.packages.entries) ∧
    s₁.files = s.files ∧ s₁.fetched = s.fetched ∧
    s₁.downloadedCount + rest.length = h.packages.entries.length ∧ s₁.failedCount = 0)
    (fun e rest s₁ hI => ?_) (fun n s₁ hI => ?_) ⟨fun _ => id, rfl, rfl, Nat.zero_add _, rfl⟩
  · obtain ⟨hrest, hfiles, hfetched, hcount, hfailed⟩ := hI
    rw [List.forall_mem_cons] at hrest
    rw [List.length_cons] at hcount
    obtain ⟨hsum, htool, content, hf, hsha⟩ := hk e hrest.1
    rw [processPackage, wp_ite]
    refine wp_downloadPackage_kept ⟨hsum, htool, content, hfiles ▸ hf, hsha⟩ fun a => ?_
    simp only [↓reduceIte, increment, wp_cmd, Post.finish_of_ignored (c := c.enter) hc]
    exact ⟨hrest.2, hfiles, hfetched, by omega, hfailed⟩
  · obtain ⟨-, hfiles, hfetched, hcount, hfailed⟩ := hI
    refine wp_ite_test.2 ?_
    rw [if_neg (by simp [hfailed])]
    change Q.finish c 0 s₁
    exact Post.finish_zero.2 (hok s₁ hfiles hfetched hcount hfailed)

/-- Another machine with the tables, and at another time: it can compute sums, and it is
    online, but what the network gives and what the user says may differ. -/
structure Again (h h' : Host) : Prop where
  packages : h'.packages = h.packages
  checksums : h'.checksums = h.checksums
  sha256 : h'.sha256 = h.sha256
  sums : h'.hasSha256sum = true ∨ h'.hasShasum = true
  online : h'.online = true

/-- Runs of `download_packages_enhanced` in conditions, one after the other: how they end, and
    what they leave. -/
def runs : List Host → State → List Flow × State
  | [], s => ([], s)
  | h :: hs, s =>
    let r := downloadPackagesEnhanced h Ctx.top.guard s
    ((r.1 :: (runs hs r.2).1), (runs hs r.2).2)

/-- Runs that find all files kept succeed, and change no file. -/
theorem runs_kept {hs : List Host} (hk : ∀ h' ∈ hs, ∀ s', s'.files = s.files → AllKept h' s')
    (honline : ∀ h' ∈ hs, h'.online = true) :
    (runs hs s).1 = hs.map (fun _ => .next 0) ∧ (runs hs s).2.files = s.files ∧
      (runs hs s).2.fetched = s.fetched := by
  induction hs generalizing s with
  | nil => exact ⟨rfl, rfl, rfl⟩
  | cons h' hs ih =>
    rw [List.forall_mem_cons] at hk honline
    have hwp : wp (downloadPackagesEnhanced h') Ctx.top.guard
        { next := fun n s' => n = 0 ∧ s'.files = s.files ∧ s'.fetched = s.fetched } s :=
      wp_downloadPackagesEnhanced_kept rfl honline.1 (hk.1 s rfl) fun s' hf hn _ _ => ⟨rfl, hf, hn⟩
    obtain ⟨n, s', hrun, rfl, hfiles, hfetched⟩ := wp_next_iff.1 hwp
    obtain ⟨hflows, hfiles', hfetched'⟩ :=
      ih (s := s') (fun h'' hh s'' hs'' => hk.2 h'' hh s'' (hs''.trans hfiles)) honline.2
    rw [runs, hrun, List.map_cons]
    exact ⟨congrArg _ hflows, hfiles'.trans hfiles, hfetched'.trans hfetched⟩

/-- Once a run has succeeded, and the tables have a sum for each package, the runs that follow,
    as many as there are, succeed without a download, and leave the files as they are. -/
theorem runs_after_success {s s' : State}
    (hsum : ∀ e ∈ h.packages.entries, h.checksum (basename (packageUrl e.2)) ≠ "")
    (hrun : downloadPackagesEnhanced h Ctx.top.guard s = (.next 0, s')) {hs : List Host}
    (hs' : ∀ h' ∈ hs, Again h h') :
    (runs hs s').1 = hs.map (fun _ => .next 0) ∧ (runs hs s').2.files = s'.files ∧
      (runs hs s').2.fetched = s'.fetched := by
  have hwp : wp (downloadPackagesEnhanced h) Ctx.top.guard ⟨fun n s' => n = 0 →
      ∀ e ∈ h.packages.entries, Fetched h s'.files (basename (packageUrl e.2)),
      fun _ => False, fun _ _ => False, fun _ _ => False, fun _ => False⟩ s :=
    wp_downloadPackagesEnhanced rfl (fun _ h _ => h) fun _ h => absurd h Nat.one_ne_zero
  have hfetched := (wp_of_eq hrun).1 hwp rfl
  refine runs_kept (fun h' hh s₁ hs₁ e he => ?_) fun h' hh => (hs' h' hh).online
  have ha := hs' h' hh
  have hchecksum (f : String) : h'.checksum f = h.checksum f := by
    rw [Host.checksum, Host.checksum, ha.checksums]
  rw [ha.packages] at he
  obtain ⟨content, hf, hsha, -⟩ := hfetched e he
  rw [KeepsFile, Matches, hchecksum, ha.sha256, hs₁]
  exact ⟨hsum e he, ha.sums, content, hf, hsha (hsum e he)⟩

/-- The file that two packages share is downloaded once. -/
theorem runs_after_success_served : ∃ s', downloadPackagesEnhanced mirrored Ctx.top.guard
      { files := fun _ => none } = (.next 0, s') ∧
    (runs [mirrored, mirrored] s').1 = [.next 0, .next 0] ∧
    (runs [mirrored, mirrored] s').2.files = s'.files ∧
    (runs [mirrored, mirrored] s').2.fetched = s'.fetched := by
  have hrun := run_eq_of_fst downloadPackagesEnhanced_mirrored
  refine ⟨_, hrun, runs_after_success (by decide +kernel) hrun fun h' hh => ?_⟩
  have hh : h' = mirrored := by simpa using hh
  subst hh
  exact ⟨rfl, rfl, rfl, .inl rfl, rfl⟩

/-! ## The audits -/

/-- A file, if it is there, has the sum that the table has for it. -/
def Passes (h : Host) (s : State) (checksum : String × String) : Prop :=
  s.files checksum.1 ≠ none → Matches h s checksum.1 checksum.2

/-- In a condition, the verification of all files succeeds exactly if each passes. -/
theorem wp_verifyAllPackages (hc : c.ignored = true)
    (hok : (∀ e ∈ h.checksums.entries, Passes h s e) → ∀ s', Q.next 0 s')
    (hbad : ¬(∀ e ∈ h.checksums.entries, Passes h s e) → ∀ s', Q.next 1 s') :
    wp (verifyAllPackages h) c Q s := by
  rw [verifyAllPackages, wp_call]
  simp only [wp_block_cons, wp_block_singleton, wp_assign]
  refine wp_forIn_of_inv (fun rest s₁ => ∃ done, h.checksums.entries = done ++ rest ∧
    s₁.files = s.files ∧ (s₁.failedCount = 0 ↔ ∀ e ∈ done, Passes h s e))
    (fun e rest s₁ hI => ?_) (fun n s₁ hI => ?_) ⟨[], rfl, rfl, by simp⟩
  · obtain ⟨done, hd, hfiles, hfailed⟩ := hI
    have hd' : h.checksums.entries = (done ++ [e]) ++ rest := by rw [hd, List.append_assoc]; rfl
    have hpasses : Passes h s₁ e ↔ Passes h s e := by rw [Passes, Passes, Matches, Matches, hfiles]
    have hall : (∀ e' ∈ done ++ [e], Passes h s e') ↔ s₁.failedCount = 0 ∧ Passes h s₁ e := by
      rw [hfailed, hpasses]
      simp [or_imp, forall_and]
    rw [verifyFile, exists?, wp_ite_test]
    split
    · next hex =>
      rw [wp_ite]
      refine wp_verifyChecksum rfl (fun a hm => ?_) fun a hm => ?_
      · simp only [↓reduceIte, increment, wp_cmd, Post.finish_of_ignored (c := c.enter) hc]
        exact ⟨_, hd', hfiles, by rw [hall]; exact (and_iff_left fun _ => hm).symm⟩
      · simp only [one_ne_zero, ↓reduceIte, increment, wp_cmd,
          Post.finish_of_ignored (c := c.enter) hc]
        refine ⟨_, hd', hfiles, iff_of_false (Nat.succ_ne_zero _) fun h => hm ?_⟩
        exact (hall.1 h).2 (Option.isSome_iff_ne_none.1 hex)
    · next hex =>
      rw [Option.isSome_iff_ne_none] at hex
      exact ⟨_, hd', hfiles, by rw [hall]; exact (and_iff_left fun h => absurd h hex).symm⟩
  · obtain ⟨done, hd, -, hfailed⟩ := hI
    rw [List.append_nil] at hd
    refine wp_ite_test.2 ?_
    split
    · next h0 =>
      change Q.finish c 0 s₁
      exact Post.finish_zero.2 (hok (hd ▸ hfailed.1 (beq_iff_eq.1 h0)) s₁)
    · next h0 =>
      change Q.finish c 1 s₁
      refine (Post.finish_of_ignored hc).2 (hbad (fun h => h0 ?_) s₁)
      exact beq_iff_eq.2 (hfailed.2 (hd ▸ h))

/-- Without the network, a run in a condition succeeds only where all files are kept. -/
theorem wp_downloadPackagesEnhanced_offline (hc : c.ignored = true) (htool : h.HasTool)
    (hnet : ∀ k, (h.fetches k).status ≠ 0) (hok : AllKept h s → ∀ s', Q.next 0 s')
    (hbad : ∀ s', Q.next 1 s') : wp (downloadPackagesEnhanced h) c Q s := by
  rw [downloadPackagesEnhanced, wp_call]
  simp only [wp_block_cons, wp_block_singleton, wp_ite_not_test, wp_ret, wp_skip, wp_assign]
  split
  swap
  · exact (Post.finish_of_ignored hc).2 (hbad s)
  -- As long as nothing has failed, the files are as they were, and have all been kept.
  refine wp_forIn_of_inv (fun rest s₁ => ∃ done, h.packages.entries = done ++ rest ∧
    (s₁.failedCount = 0 → s₁.files = s.files ∧ ∀ e ∈ done, KeepsFile h (packageFile e) s))
    (fun e rest s₁ hI => ?_) (fun n s₁ hI => ?_) ⟨[], rfl, fun _ => ⟨rfl, by simp⟩⟩
  · obtain ⟨done, hd, hI⟩ := hI
    have hd' : h.packages.entries = (done ++ [e]) ++ rest := by rw [hd, List.append_assoc]; rfl
    have hfail (n : ℕ) (s₂ : State) (hn : s₂.failedCount ≠ 0) : ∃ done,
        h.packages.entries = done ++ rest ∧ (s₂.failedCount = 0 → s₂.files = s.files ∧
          ∀ e ∈ done, KeepsFile h (packageFile e) s) :=
      ⟨_, hd', fun h0 => absurd h0 hn⟩
    rw [processPackage, wp_ite]
    by_cases hk : KeepsFile h (basename (packageUrl e.2)) s₁
    · refine wp_downloadPackage_kept hk fun a => ?_
      simp only [↓reduceIte, increment, wp_cmd, Post.finish_of_ignored (c := c.enter) hc]
      refine ⟨_, hd', fun h0 => ⟨(hI h0).1, fun e' he' => ?_⟩⟩
      rcases List.mem_append.1 he' with he' | he'
      · exact (hI h0).2 e' he'
      · rw [List.mem_singleton.1 he', packageFile]
        obtain ⟨hsum, htool, content, hf, hsha⟩ := hk
        exact ⟨hsum, htool, content, (hI h0).1 ▸ hf, hsha⟩
    · refine wp_downloadPackage rfl (fun s₂ _ hg _ => ?_) fun s₂ _ _ => ?_
      · exact absurd ⟨hk, htool, fun k _ => hnet _⟩ hg
      · simp only [one_ne_zero, ↓reduceIte, increment, wp_block_cons, wp_block_singleton, wp_cmd,
          Post.finish_of_ignored (c := c.enter) hc, wp_ite_test, wp_skip]
        split
        · refine wp_askToContinue (c := c.enter) hc (fun s₃ _ _ => ?_) fun s₃ _ hn => ?_
          · exact (Post.finish_of_ignored hc).2 (hbad s₃)
          · exact hfail 0 s₃ (by rw [hn]; exact Nat.succ_ne_zero _)
        · exact hfail 0 { s₂ with failedCount := s₂.failedCount + 1 } (Nat.succ_ne_zero _)
  · obtain ⟨done, hd, hI⟩ := hI
    rw [List.append_nil] at hd
    refine wp_ite_test.2 ?_
    split
    · change Q.finish c 1 s₁
      exact (Post.finish_of_ignored hc).2 (hbad s₁)
    · next h0 =>
      change Q.finish c 0 s₁
      refine Post.finish_zero.2 (hok (fun e he => ?_) s₁)
      exact (hI (by simpa using h0)).2 e (hd ▸ he)

/-- With a sum for each package, and for nothing else, the audits pass both exactly if all files
    are kept. -/
theorem audits_pass_iff
    (hsum : ∀ e ∈ h.packages.entries, h.checksum (basename (packageUrl e.2)) ≠ "")
    (hkeys : ∀ f ∈ h.checksums, ∃ e ∈ h.packages.entries, basename (packageUrl e.2) = f) :
    missingLines s.files h.packages.entries = [] ∧ (∀ e ∈ h.checksums.entries, Passes h s e) ↔
      AllKept h s := by
  have hpresent : missingLines s.files h.packages.entries = [] ↔
      ∀ e ∈ h.packages.entries, s.files (packageFile e) ≠ none := by
    simp [missingLines, packageFile]
  rw [hpresent]
  constructor
  · rintro ⟨hfiles, hpass⟩ e he
    have hne : h.checksum (packageFile e) ≠ "" := hsum e he
    have hentry : (packageFile e, h.checksum (packageFile e)) ∈ h.checksums.entries := by
      rw [Dict.mem_entries_iff]
      rw [Host.checksum, Dict.getD] at hne ⊢
      cases hget : h.checksums.get? (packageFile e) with
      | none =>
        rw [hget] at hne
        exact absurd Option.getD_none hne
      | some sum => rfl
    have hm : Passes h s (packageFile e, h.checksum (packageFile e)) := hpass _ hentry
    dsimp only [Passes] at hm
    exact ⟨hne, hm (hfiles e he)⟩
  · intro hk
    refine ⟨fun e he => ?_, fun e he _ => ?_⟩
    · obtain ⟨-, -, content, hf, -⟩ := hk e he
      rw [hf]
      exact Option.some_ne_none content
    · obtain ⟨e', he', hname⟩ := hkeys e.1 (List.mem_map_of_mem he)
      have hget : h.checksum e.1 = e.2 := by
        rw [Host.checksum, Dict.getD, Dict.mem_entries_iff.1 he, Option.getD_some]
      have hm := (hk e' he').2
      rw [packageFile, hname, hget] at hm
      exact hm

/-- With a sum for each package, and for nothing else, both audits pass exactly where a run of
    the download would succeed without the network: where it has nothing to fetch. -/
theorem audits_iff (honline : h.online = true) (htool : h.HasTool)
    (hsum : ∀ e ∈ h.packages.entries, h.checksum (basename (packageUrl e.2)) ≠ "")
    (hkeys : ∀ f ∈ h.checksums, ∃ e ∈ h.packages.entries, basename (packageUrl e.2) = f)
    (hnet : ∀ k, (h.fetches k).status ≠ 0) (s : State) :
    ((∃ s', checkMissingPackages h Ctx.top.guard s = (.next 0, s')) ∧
      ∃ s', verifyAllPackages h Ctx.top.guard s = (.next 0, s')) ↔
    ∃ s', downloadPackagesEnhanced h Ctx.top.guard s = (.next 0, s') := by
  have hcheck : (∃ s', checkMissingPackages h Ctx.top.guard s = (.next 0, s')) ↔
      missingLines s.files h.packages.entries = [] := by
    rw [checkMissingPackages_eq]
    simp [Sh.finish]
  have hverify : (∃ s', verifyAllPackages h Ctx.top.guard s = (.next 0, s')) ↔
      ∀ e ∈ h.checksums.entries, Passes h s e := by
    rw [← wp_ok]
    constructor
    · intro hwp
      by_contra hn
      have hwp' : wp (verifyAllPackages h) Ctx.top.guard { next := fun n _ => n = 1 } s :=
        wp_verifyAllPackages rfl (fun h => absurd h hn) fun _ _ => rfl
      obtain ⟨n, s', hrun, rfl⟩ := wp_next_iff.1 hwp'
      exact absurd ((wp_of_eq hrun).1 hwp) one_ne_zero
    · exact fun hp => wp_verifyAllPackages rfl (fun _ _ => rfl) fun hn => absurd hp hn
  rw [hcheck, hverify, audits_pass_iff hsum hkeys, ← wp_ok]
  constructor
  · exact fun hk => wp_downloadPackagesEnhanced_kept rfl honline hk fun _ _ _ _ _ => rfl
  · intro hwp
    by_contra hn
    have hwp' : wp (downloadPackagesEnhanced h) Ctx.top.guard { next := fun n _ => n = 1 } s :=
      wp_downloadPackagesEnhanced_offline rfl htool hnet (fun hk => absurd hk hn) fun _ => rfl
    obtain ⟨n, s', hrun, rfl⟩ := wp_next_iff.1 hwp'
    exact absurd ((wp_of_eq hrun).1 hwp) one_ne_zero

/-- A machine with two packages and their files, and a network on which all runs of wget and curl
    fail. -/
def unservedHost : Host :=
  { servedHost with
    packages := ⟨[("file", "5.45 https://astron.com/pub/file/file-5.45.tar.gz"),
      ("m4", "1.4.19 https://ftp.gnu.org/gnu/m4/m4-1.4.19.tar.xz")], by decide⟩
    checksums := ⟨[
      ("file-5.45.tar.gz", "6e340b9cffb37a989ca544e6bb780a2c78901d3fb33738768511a30617afa01d"),
      ("m4-1.4.19.tar.xz", "6e340b9cffb37a989ca544e6bb780a2c78901d3fb33738768511a30617afa01d")],
      by decide⟩
    fetches := fun _ => ⟨4, none⟩ }

def unservedFiles (name : String) : Option Bytes :=
  if name = "file-5.45.tar.gz" ∨ name = "m4-1.4.19.tar.xz" then some [0] else none

theorem audits_unserved :
    (checkMissingPackages unservedHost Ctx.top.guard { files := unservedFiles }).1 = .next 0 ∧
    (verifyAllPackages unservedHost Ctx.top.guard { files := unservedFiles }).1 = .next 0 := by
  decide +kernel

/-- With the files of both packages in the directory, a run needs no network. -/
theorem audits_iff_unserved : ∃ s', downloadPackagesEnhanced unservedHost Ctx.top.guard
    { files := unservedFiles } = (.next 0, s') :=
  (audits_iff (h := unservedHost) rfl (.inl rfl) (by decide +kernel) (by decide +kernel)
    (fun _ => Nat.succ_ne_zero 3) { files := unservedFiles }).1
    ⟨⟨_, run_eq_of_fst audits_unserved.1⟩, _, run_eq_of_fst audits_unserved.2⟩

end LfsBuilder.DownloadEnhanced
