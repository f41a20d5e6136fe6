import LfsBuilder.Library.Search

/-!
# The dependency graph

The search for dependencies of the package book, as `BLFS/libs/func_dependencies`
of jhalfs does it before it makes a build order. A package is a node, with a file
of lines for the packages that it depends on: the weight of the dependency, its
qualifier, and the name.

* `generateSubgraph`: the files that are made, following the dependencies that are
  not heavier than asked for; `mem_generateSubgraph_iff` says for which packages;
* `pathTo`: the search for a path, with a list of the nodes that it has seen;
  `pathTo_iff` says that it finds one exactly if there is one.
-/

namespace LfsBuilder.Jhalfs

open DepthFirst Relation

variable {α : Type*}

/-- The qualifiers of a dependency, `b`, `a` and `f` in the files. -/
inductive Qualifier
  | before
  | after
  | first
  deriving DecidableEq

/-- A line of a file of dependencies. Its weight is 1 if the dependency is required, 2 if it
    is recommended, 3 if it is optional, and 4 if it is external. -/
structure Line (α : Type*) where
  prio : ℕ
  build : Qualifier
  id : α
  deriving DecidableEq

/-- The names on the lines that are not heavier than `prio`. -/
def upTo (prio : ℕ) (lines : List (Line α)) : List α :=
  (lines.filter fun line => line.prio ≤ prio).map Line.id

theorem mem_upTo {prio : ℕ} {lines : List (Line α)} {d : α} :
    d ∈ upTo prio lines ↔ ∃ line ∈ lines, line.prio ≤ prio ∧ line.id = d := by
  simp [upTo, and_assoc]

theorem upTo_cons {prio : ℕ} {line : Line α} {lines : List (Line α)} :
    upTo prio (line :: lines) =
      if prio < line.prio then upTo prio lines else line.id :: upTo prio lines := by
  by_cases h : prio < line.prio
  · rw [if_pos h, upTo, List.filter_cons_of_neg (by simpa using h), ← upTo]
  · rw [if_neg h, upTo, List.filter_cons_of_pos (by simpa using h), List.map_cons, ← upTo]

theorem upTo_subset {p q : ℕ} (hpq : p ≤ q) {lines : List (Line α)} {d : α}
    (hd : d ∈ upTo p lines) : d ∈ upTo q lines := by
  obtain ⟨line, hl, hp, rfl⟩ := mem_upTo.1 hd
  exact mem_upTo.2 ⟨line, hl, hp.trans hpq, rfl⟩

/-- The lines that the stylesheet makes of the book for each package, the packages that are
    requested, and `DEP_LEVEL`. -/
structure Book (α : Type*) where
  lines : α → List (Line α)
  targets : List α
  depLevel : ℕ

namespace Book

variable (b : Book α)

/-- The lines of a node, where the node `root` has no name in the book. -/
def linesOf : Option α → List (Line α)
  | none => b.targets.map fun t => ⟨1, .before, t⟩
  | some n => b.lines n

/-- The local variable `dep_level` of `generate_subgraph`. -/
def levelAt (depth : ℕ) : ℕ :=
  let depLevel := if b.depLevel = 3 ∧ 2 < depth then 2 else b.depLevel
  if 3 < depLevel then 3 else depLevel

variable {b}

theorem levelAt_of_two_lt {depth : ℕ} (hd : 2 < depth) : b.levelAt depth = b.levelAt 3 := by
  simp [levelAt, hd]

theorem levelAt_three_le : b.levelAt 3 ≤ b.levelAt 2 := by
  simp only [levelAt]
  split_ifs <;> omega

theorem levelAt_two (h : b.depLevel ≠ 3) : b.levelAt 2 = b.levelAt 3 := by
  simp [levelAt, h]

end Book

variable [DecidableEq α]

/-- A round of the loop of `generate_subgraph`, where `subgraph` is the call for the next
    node. -/
def processLine (b : Book α) (subgraph : α → Finset α → Option (Finset α)) (depth : ℕ)
    (files : Finset α) (line : Line α) : Option (Finset α) :=
  -- Has this entry already been seen? The requested packages are taken up again for their
  -- optional dependencies.
  if line.id ∈ files ∧ ¬(depth = 1 ∧ b.depLevel = 3) then some files
  else if b.levelAt depth < line.prio then some files
  else if b.lines line.id = [] then some (insert line.id files)
  else subgraph line.id (insert line.id files)

/-- `generate_subgraph`, with `calls` nested calls allowed: the names with a file, after the
    lines of the node. -/
def generateSubgraph (b : Book α) : (calls : ℕ) → Option α → (depth : ℕ) → Finset α →
    Option (Finset α)
  | 0, _, _, _ => none
  | calls + 1, node, depth, files =>
    (b.linesOf node).foldlM
      (processLine b (fun n => generateSubgraph b calls (some n) (depth + 1)) depth) files

/-- The loop of `path_to`, where `visit` is the call for the next node. -/
def pathThrough (visit : α → Finset α → Option (Bool × Finset α)) (prio : ℕ) :
    List (Line α) → Finset α → Option (Bool × Finset α)
  | [], seen => some (false, seen)
  | line :: lines, seen =>
    if prio < line.prio then pathThrough visit prio lines seen
    else if line.id ∈ seen then pathThrough visit prio lines seen
    else do
      let (found, seen) ← visit line.id seen
      if found then return (true, seen) else pathThrough visit prio lines seen

/-- `path_to`, with `calls` nested calls allowed: whether it returns 0, and the nodes that it
    has seen. -/
def pathTo (lines : α → List (Line α)) (seek : α) (prio : ℕ) : (calls : ℕ) → α → Finset α →
    Option (Bool × Finset α)
  | 0, _, _ => none
  | calls + 1, start, seen =>
    if start = seek then some (true, seen)
    else pathThrough (pathTo lines seek prio calls) prio (lines start) (insert start seen)

/-! ## Paths -/

section

variable {lines : α → List (Line α)} {seek : α} {prio : ℕ}

/-- What an answer of the search says: there is a path, or the nodes that are new have been
    followed, and none of them is sought. -/
def Answer (lines : α → List (Line α)) (seek : α) (prio : ℕ) (ns : List α) (seen : Finset α) :
    Bool × Finset α → Prop
  | (true, _) => ∃ n ∈ ns, Reach (fun n => upTo prio (lines n)) n seek
  | (false, seen') => Marks (fun n => upTo prio (lines n)) ns seen seen' ∧
      ∀ x ∈ seen', x ∉ seen → x ≠ seek

theorem Answer.subset {ns : List α} {seen : Finset α} {r : Bool × Finset α}
    (h : Answer lines seek prio ns seen r) (hr : r.1 = false) : seen ⊆ r.2 := by
  rcases r with ⟨found, seen'⟩
  cases hr
  exact h.1.subset

theorem pathThrough_answer {visit : α → Finset α → Option (Bool × Finset α)}
    (hvisit : ∀ n seen r, n ∉ seen → visit n seen = some r → Answer lines seek prio [n] seen r)
    {ls : List (Line α)} {seen : Finset α} {r : Bool × Finset α}
    (h : pathThrough visit prio ls seen = some r) :
    Answer lines seek prio (upTo prio ls) seen r := by
  induction ls generalizing seen with
  | nil =>
    cases h
    exact ⟨.nil, fun x hx hxs => absurd hx hxs⟩
  | cons line ls ih =>
    rw [pathThrough] at h
    rw [upTo_cons]
    split_ifs at h with hprio hseen
    · rw [if_pos hprio]
      exact ih h
    · rw [if_neg hprio]
      have hr := ih h
      rcases r with ⟨_ | _, seen'⟩
      · exact ⟨.seen hseen hr.1, hr.2⟩
      · obtain ⟨n, hn, hreach⟩ := hr
        exact ⟨n, List.mem_cons_of_mem _ hn, hreach⟩
    · rw [if_neg hprio]
      obtain ⟨⟨found, seen₁⟩, hv, h⟩ := Option.bind_eq_some_iff.1 h
      have hfirst := hvisit _ _ _ hseen hv
      cases found with
      | true =>
        cases h
        obtain ⟨n, hn, hreach⟩ := hfirst
        exact ⟨n, List.mem_cons.2 (.inl (List.mem_singleton.1 hn)), hreach⟩
      | false =>
        have hr := ih h
        rcases r with ⟨_ | _, seen'⟩
        · refine ⟨hfirst.1.append hr.1, fun x hx hxs => ?_⟩
          by_cases hx₁ : x ∈ seen₁
          · exact hfirst.2 x hx₁ hxs
          · exact hr.2 x hx hx₁
        · obtain ⟨n, hn, hreach⟩ := hr
          exact ⟨n, List.mem_cons_of_mem _ hn, hreach⟩

theorem pathTo_answer {calls : ℕ} {start : α} {seen : Finset α} {r : Bool × Finset α}
    (hstart : start ∉ seen) (h : pathTo lines seek prio calls start seen = some r) :
    Answer lines seek prio [start] seen r := by
  induction calls generalizing start seen r with
  | zero => exact absurd h (by simp [pathTo])
  | succ calls ih =>
    rw [pathTo] at h
    split_ifs at h with hseek
    · cases h
      exact ⟨start, List.mem_singleton_self _, hseek ▸ .refl⟩
    · have hr := pathThrough_answer (fun n seen r hn => ih hn) h
      rcases r with ⟨_ | _, seen'⟩
      · refine ⟨.visit hstart hr.1 .nil, fun x hx hxs => ?_⟩
        rcases eq_or_ne x start with rfl | hne
        · exact hseek
        · exact hr.2 x hx fun hi => (Finset.mem_insert.1 hi).elim hne hxs
      · obtain ⟨n, hn, hreach⟩ := hr
        exact ⟨start, List.mem_singleton_self _, .head hn hreach⟩

/-- The loop comes to an end if the calls do. -/
theorem pathThrough_total {visit : α → Finset α → Option (Bool × Finset α)} {seen₀ : Finset α}
    {ls : List (Line α)}
    (hvisit : ∀ n ∈ upTo prio ls, ∀ seen, seen₀ ⊆ seen → n ∉ seen →
      ∃ r, visit n seen = some r ∧ (r.1 = false → seen ⊆ r.2))
    {seen : Finset α} (hs : seen₀ ⊆ seen) : ∃ r, pathThrough visit prio ls seen = some r := by
  induction ls generalizing seen with
  | nil => exact ⟨_, rfl⟩
  | cons line ls ih =>
    rw [pathThrough]
    by_cases hprio : prio < line.prio
    · rw [if_pos hprio]
      rw [upTo_cons, if_pos hprio] at hvisit
      exact ih hvisit hs
    · rw [if_neg hprio]
      rw [upTo_cons, if_neg hprio] at hvisit
      have hrest := fun n hn => hvisit n (List.mem_cons_of_mem _ hn)
      by_cases hseen : line.id ∈ seen
      · rw [if_pos hseen]
        exact ih hrest hs
      · rw [if_neg hseen]
        obtain ⟨⟨found, seen₁⟩, hv, hsub⟩ := hvisit _ List.mem_cons_self seen hs hseen
        rw [hv]
        cases found with
        | true => exact ⟨_, rfl⟩
        | false => exact ih hrest (hs.trans (hsub rfl))

/-- Every call marks another node, so that the calls are not more than the nodes. -/
theorem pathTo_total {u : Finset α} (hu : ∀ n ∈ u, ∀ d ∈ upTo prio (lines n), d ∈ u) {calls : ℕ}
    {start : α} {seen : Finset α} (hstart : start ∈ u) (hseen : start ∉ seen)
    (hcalls : (u \ seen).card ≤ calls) : ∃ r, pathTo lines seek prio calls start seen = some r := by
  induction calls generalizing start seen with
  | zero =>
    have hmem : start ∈ u \ seen := Finset.mem_sdiff.2 ⟨hstart, hseen⟩
    exact absurd (Finset.card_pos.2 ⟨start, hmem⟩) (by omega)
  | succ calls ih =>
    rw [pathTo]
    split_ifs with hseek
    · exact ⟨_, rfl⟩
    · refine pathThrough_total (fun n hn seen' hs hn' => ?_) (Finset.Subset.refl _)
      have hlt := card_sdiff_insert_lt hstart hseen
      have hle := Finset.card_le_card (Finset.sdiff_subset_sdiff (Finset.Subset.refl u) hs)
      obtain ⟨r, hr⟩ := ih (hu start hstart n hn) hn' (by omega)
      exact ⟨r, hr, (pathTo_answer hn' hr).subset⟩

/-- From a node of a book whose dependencies are in the book, the search comes to an end, and
    it finds the node that it seeks exactly if there is a path to it along lines that are
    not heavier than `prio`, whatever cycles there are. -/
theorem pathTo_iff {u : Finset α} (hu : ∀ n ∈ u, ∀ d ∈ upTo prio (lines n), d ∈ u) {start : α}
    (hstart : start ∈ u) :
    ∃ found seen, pathTo lines seek prio u.card start ∅ = some (found, seen) ∧
      (found = true ↔ Reach (fun n => upTo prio (lines n)) start seek) := by
  obtain ⟨⟨found, seen⟩, hr⟩ : ∃ r, pathTo lines seek prio u.card start ∅ = some r :=
    pathTo_total hu hstart (Finset.notMem_empty _) (Finset.card_le_card Finset.sdiff_subset)
  have ha := pathTo_answer (Finset.notMem_empty _) hr
  refine ⟨found, seen, hr, ?_⟩
  cases found with
  | true =>
    obtain ⟨n, hn, hreach⟩ := ha
    rw [List.mem_singleton] at hn
    exact iff_of_true rfl (hn ▸ hreach)
  | false =>
    refine iff_of_false Bool.false_ne_true fun hreach => ?_
    have hmem := ha.1.mem_iff.2 ⟨start, List.mem_singleton_self _, hreach⟩
    exact ha.2 seek hmem (Finset.notMem_empty _) rfl

/-- Three packages, of which the first two require each other, and the second can use the
    third. -/
def loopLines (n : ℕ) : List (Line ℕ) :=
  if n = 0 then [⟨1, .before, 1⟩] else if n = 1 then [⟨1, .before, 0⟩, ⟨3, .before, 2⟩] else []

theorem pathTo_iff_loop : ∃ found seen, pathTo loopLines 2 1 3 0 ∅ = some (found, seen) ∧
    (found = true ↔ Reach (fun n => upTo 1 (loopLines n)) 0 2) :=
  pathTo_iff (u := {0, 1, 2}) (by decide) (by decide)

end

/-! ## The graph -/

section

variable {b : Book α} {calls depth : ℕ} {node : Option α} {files files' : Finset α}

/-- The names that are followed from a node: those on the lines that are not heavier than
    asked for, where a package that is requested may be asked for more. -/
def Book.followed (b : Book α) (n : α) : List α :=
  upTo (b.levelAt (if n ∈ b.targets then 2 else 3)) (b.lines n)

/-- Below the requested packages, the files are marked along the lines that are not heavier
    than the level of the depths from 3 on. -/
theorem generateSubgraph_marks (hd : 2 ≤ depth)
    (h : generateSubgraph b calls node depth files = some files') :
    Marks (fun n => upTo (b.levelAt 3) (b.lines n)) (upTo (b.levelAt depth) (b.linesOf node))
      files files' := by
  induction calls generalizing node depth files files' with
  | zero => exact absurd h (by simp [generateSubgraph])
  | succ calls ih =>
    rw [generateSubgraph] at h
    generalize b.linesOf node = ls at h ⊢
    induction ls generalizing files with
    | nil =>
      cases h
      exact .nil
    | cons line ls ihl =>
      rw [List.foldlM_cons, Option.bind_eq_bind, Option.bind_eq_some_iff] at h
      obtain ⟨files₁, hline, h⟩ := h
      have hrest := ihl h
      rw [upTo_cons]
      rw [processLine] at hline
      by_cases hseen : line.id ∈ files
      · rw [if_pos ⟨hseen, by omega⟩] at hline
        cases hline
        split_ifs
        · exact hrest
        · exact .seen hseen hrest
      rw [if_neg fun hn => hseen hn.1] at hline
      split_ifs at hline with hprio hleaf
      · cases hline
        rw [if_pos hprio]
        exact hrest
      · cases hline
        rw [if_neg hprio]
        refine .visit hseen ?_ hrest
        rw [hleaf]
        exact .nil
      · rw [if_neg hprio]
        refine .visit hseen ?_ hrest
        have hsub := ih (Nat.le_succ_of_le hd) hline
        rw [Book.levelAt_of_two_lt (Nat.lt_succ_of_le hd)] at hsub
        exact hsub

/-- Every call for a package makes another file, so that the calls are not more than the
    packages. -/
theorem generateSubgraph_total {u : Finset α} (hu : ∀ n ∈ u, ∀ line ∈ b.lines n, line.id ∈ u)
    (hd : 2 ≤ depth) (hnode : ∀ line ∈ b.linesOf node, line.id ∈ u)
    (hcalls : (u \ files).card < calls) :
    ∃ files', generateSubgraph b calls node depth files = some files' := by
  induction calls generalizing node depth files with
  | zero => exact absurd hcalls (Nat.not_lt_zero _)
  | succ calls ih =>
    rw [generateSubgraph]
    generalize b.linesOf node = ls at hnode ⊢
    induction ls generalizing files with
    | nil => exact ⟨files, rfl⟩
    | cons line ls ihl =>
      rw [List.forall_mem_cons] at hnode
      -- A line leaves the files that there are, and perhaps some more.
      have hgrow {files₁ : Finset α} (h : files ⊆ files₁) : (u \ files₁).card < calls + 1 :=
        lt_of_le_of_lt (Finset.card_le_card (Finset.sdiff_subset_sdiff (Finset.Subset.refl u) h))
          hcalls
      have hnew (h : line.id ∉ files) := card_sdiff_insert_lt hnode.1 h
      rw [List.foldlM_cons, processLine]
      split_ifs with hseen hprio hleaf
      · exact ihl hcalls hnode.2
      · exact ihl hcalls hnode.2
      · exact ihl (hgrow (Finset.subset_insert _ _)) hnode.2
      · have hseen : line.id ∉ files := fun h => hseen ⟨h, by omega⟩
        have hlt := hnew hseen
        obtain ⟨files₁, hsub⟩ : ∃ files₁, generateSubgraph b calls (some line.id) (depth + 1)
            (insert line.id files) = some files₁ :=
          ih (Nat.le_succ_of_le hd) (hu _ hnode.1) (by omega)
        rw [hsub]
        have hm := generateSubgraph_marks (Nat.le_succ_of_le hd) hsub
        exact ihl (hgrow ((Finset.subset_insert _ _).trans hm.subset)) hnode.2

theorem foldlM_mono {β γ : Type*} {g g' : β → γ → Option β}
    (hg : ∀ x y r, g x y = some r → g' x y = some r) {l : List γ} {x r : β}
    (h : l.foldlM g x = some r) : l.foldlM g' x = some r := by
  induction l generalizing x with
  | nil => exact h
  | cons y l ih =>
    rw [List.foldlM_cons, Option.bind_eq_bind, Option.bind_eq_some_iff] at h ⊢
    obtain ⟨x', hx, h⟩ := h
    exact ⟨x', hg _ _ _ hx, ih h⟩

/-- More calls make no difference once they suffice. -/
theorem generateSubgraph_mono {calls' : ℕ} (hcalls : calls ≤ calls')
    (h : generateSubgraph b calls node depth files = some files') :
    generateSubgraph b calls' node depth files = some files' := by
  induction calls generalizing calls' node depth files files' with
  | zero => exact absurd h (by simp [generateSubgraph])
  | succ calls ih =>
    obtain ⟨calls', rfl⟩ : ∃ k, calls' = k + 1 := ⟨calls' - 1, by omega⟩
    rw [generateSubgraph] at h ⊢
    refine foldlM_mono (fun files line r hr => ?_) h
    rw [processLine] at hr ⊢
    split_ifs at hr ⊢
    · exact hr
    · exact hr
    · exact hr
    · exact ih (Nat.le_of_succ_le_succ hcalls) hr

/-- What holds after the loop over the lines of `root` has come to `done`: the files are
    reached, and what is followed from them, at the level of deeper nodes or, for the
    packages that are done, at that of a requested one, has files as well. -/
structure Grown (b : Book α) (done : List α) (files : Finset α) : Prop where
  reached : ∀ d ∈ files, ∃ t ∈ b.targets, Reach b.followed t d
  closed : ∀ n ∈ files, ∀ d ∈ upTo (b.levelAt 3) (b.lines n), d ∈ files
  done : ∀ t ∈ done, t ∈ files ∧ ∀ d ∈ upTo (b.levelAt 2) (b.lines t), d ∈ files

theorem Book.mem_followed {n d : α} (hd : d ∈ upTo (b.levelAt 3) (b.lines n)) :
    d ∈ b.followed n := by
  rw [followed]
  split_ifs
  · exact upTo_subset levelAt_three_le hd
  · exact hd

theorem Book.mem_followed_of_mem {t d : α} (ht : t ∈ b.targets) :
    d ∈ b.followed t ↔ d ∈ upTo (b.levelAt 2) (b.lines t) := by
  rw [followed, if_pos ht]

theorem Grown.visit {done : List α} {t : α} (h : Grown b done files) (ht : t ∈ b.targets)
    (hm : Marks (fun n => upTo (b.levelAt 3) (b.lines n)) (upTo (b.levelAt 2) (b.lines t))
      (insert t files) files') : Grown b (done ++ [t]) files' := by
  have hsub : files ⊆ files' := (Finset.subset_insert _ _).trans hm.subset
  have htf : t ∈ files' := hm.subset (Finset.mem_insert_self _ _)
  refine ⟨fun d hd => ?_, fun n hn d hd => ?_, fun t' ht' => ?_⟩
  · rcases hm.reach hd with hd | ⟨n, hn, hr⟩
    · rcases Finset.mem_insert.1 hd with rfl | hd
      · exact ⟨d, ht, .refl⟩
      · exact h.reached d hd
    · refine ⟨t, ht, .head ((Book.mem_followed_of_mem ht).2 hn) ?_⟩
      exact ReflTransGen.mono (fun _ _ => Book.mem_followed) n d hr
  · by_cases hni : n ∈ insert t files
    · rcases Finset.mem_insert.1 hni with rfl | hn
      · exact hm.mem d (upTo_subset Book.levelAt_three_le hd)
      · exact hsub (h.closed n hn d hd)
    · exact hm.closed hn hni hd
  · rcases List.mem_append.1 ht' with ht' | ht'
    · exact (h.done t' ht').imp (@hsub t') fun h d hd => hsub (h d hd)
    · rw [List.mem_singleton.1 ht']
      exact ⟨htf, hm.mem⟩

/-- The node `root`, from no files. -/
theorem generateSubgraph_root {u : Finset α} (hu : ∀ n ∈ u, ∀ line ∈ b.lines n, line.id ∈ u)
    (ht : ∀ t ∈ b.targets, t ∈ u) (hlevel : 1 ≤ b.depLevel) :
    ∃ files', generateSubgraph b (u.card + 2) none 1 ∅ = some files' ∧
      Grown b b.targets files' := by
  suffices hloop : ∀ rest done files, b.targets = done ++ rest → Grown b done files →
      ∃ files', (rest.map fun t => ⟨1, .before, t⟩).foldlM
        (processLine b (fun n => generateSubgraph b (u.card + 1) (some n) 2) 1) files =
          some files' ∧ Grown b b.targets files' from
    hloop _ [] ∅ rfl ⟨by simp, by simp, by simp⟩
  have hone : ¬b.levelAt 1 < 1 := by
    simp only [Book.levelAt]
    split_ifs <;> omega
  intro rest
  induction rest with
  | nil =>
    intro done files hd hg
    rw [List.append_nil] at hd
    exact ⟨files, rfl, hd ▸ hg⟩
  | cons t rest ih =>
    intro done files hd hg
    have hd' : b.targets = (done ++ [t]) ++ rest := by rw [hd, List.append_assoc]; rfl
    have htt : t ∈ b.targets := hd ▸ List.mem_append_right _ List.mem_cons_self
    rw [List.map_cons, List.foldlM_cons, processLine, if_neg hone]
    split_ifs with hseen hleaf
    · -- Unless the level is 3, a package that is seen has been followed as a requested one.
      have h3 : b.levelAt 2 = b.levelAt 3 := Book.levelAt_two fun h => hseen.2 ⟨rfl, h⟩
      refine ih _ files hd' ⟨hg.reached, hg.closed, fun t' ht' => ?_⟩
      rcases List.mem_append.1 ht' with ht' | ht'
      · exact hg.done t' ht'
      · rw [List.mem_singleton.1 ht', h3]
        exact ⟨hseen.1, hg.closed t hseen.1⟩
    · refine ih _ _ hd' (hg.visit htt ?_)
      rw [hleaf]
      exact .nil
    · have hcard : (u \ insert t files).card < u.card + 1 :=
        Nat.lt_succ_of_le (Finset.card_le_card Finset.sdiff_subset)
      obtain ⟨files₁, hsub⟩ : ∃ files₁,
          generateSubgraph b (u.card + 1) (some t) 2 (insert t files) = some files₁ :=
        generateSubgraph_total hu le_rfl (hu t (ht t htt)) hcard
      have hm := generateSubgraph_marks le_rfl hsub
      rw [hsub]
      exact ih _ _ hd' (hg.visit htt hm)

/-- When the loop is done, there are files for what is followed from the requested packages. -/
theorem Grown.mem_iff (hg : Grown b b.targets files') {d : α} :
    d ∈ files' ↔ ∃ t ∈ b.targets, Reach b.followed t d := by
  refine ⟨hg.reached d, ?_⟩
  rintro ⟨t, ht, hr⟩
  induction hr with
  | refl => exact (hg.done t ht).1
  | @tail n d _ hd hn =>
    by_cases hnt : n ∈ b.targets
    · exact (hg.done n hnt).2 d ((Book.mem_followed_of_mem hnt).1 hd)
    · rw [Edge, Book.followed, if_neg hnt] at hd
      exact hg.closed n hn d hd

/-- For the requested packages of a book, the generation comes to an end, and it makes a file
    exactly for the packages that are reached from them along lines that are not heavier than
    asked for; if the level is 3, optional dependencies count for the requested packages
    only, in whatever order, and however often, they are seen. -/
theorem mem_generateSubgraph_iff {u : Finset α} (hu : ∀ n ∈ u, ∀ line ∈ b.lines n, line.id ∈ u)
    (ht : ∀ t ∈ b.targets, t ∈ u) (hlevel : 1 ≤ b.depLevel) :
    ∃ files', generateSubgraph b (u.card + 2) none 1 ∅ = some files' ∧
      ∀ d, d ∈ files' ↔ ∃ t ∈ b.targets, Reach b.followed t d := by
  obtain ⟨files', hrun, hg⟩ := generateSubgraph_root hu ht hlevel
  exact ⟨files', hrun, fun _ => hg.mem_iff⟩

/-- A book in which two of the packages require each other, and optional dependencies are
    asked for. -/
def pairBook : Book String where
  lines n :=
    if n = "glib" then [⟨1, .before, "pcre"⟩, ⟨3, .first, "gobject"⟩]
    else if n = "pcre" then [⟨1, .after, "glib"⟩, ⟨3, .before, "valgrind"⟩]
    else if n = "gobject" then [⟨2, .before, "glib"⟩]
    else []
  targets := ["glib"]
  depLevel := 3

theorem mem_generateSubgraph_iff_pair : ∃ files', generateSubgraph pairBook 6 none 1 ∅ =
    some files' ∧ ∀ d, d ∈ files' ↔ ∃ t ∈ ["glib"], Reach pairBook.followed t d :=
  mem_generateSubgraph_iff (b := pairBook) (u := {"glib", "pcre", "gobject", "valgrind"})
    (by decide +kernel) (by decide +kernel) (by decide)

end

end LfsBuilder.Jhalfs
