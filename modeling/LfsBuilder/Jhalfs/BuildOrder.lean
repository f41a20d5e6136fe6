import LfsBuilder.Jhalfs.CleanSubgraph
import LfsBuilder.Jhalfs.DependencyTree

/-!
# The full list of packages

The part of `BLFS/gen_pkg_book.sh` that makes the full list of packages of the three
passes: the files for the requested packages, the cleaned graph, and the order that is
read off the tree.

* `Needs`, `Carries`: a dependency before a package, perhaps by way of a group; no loop of
  the second pass loses one (`Carries.cleanSubgraph`), for a package without dependencies
  before a first build;
* `fullList_respects`: what the list says about the book.
-/

namespace LfsBuilder.Jhalfs

open DepthFirst Relation Text

namespace Dir

/-- The files as the third pass reads them. -/
def deps (d : Dir) : Option Str → List (Line Str)
  | none => d.lines root
  | some n => d.lines n

/-- A line of `n` says that it needs `m` before it. -/
def Needs (d : Dir) (n m : Str) : Prop := ∃ line ∈ d.lines n, line.build = .before ∧ line.id = m

/-- `n` needs `m`, or the group of `m`, which needs `m`. -/
def Carries (d : Dir) (n m : Str) : Prop :=
  d.Needs n m ∨ d.Needs n (groupxx m) ∧ d.Needs (groupxx m) m

section

variable {ls : Listing} {d : Dir} {node n m : Str} {line : Line Str}

/-! ## The second loop -/

/-- A line stays, or it is changed to a line for the group. -/
theorem mem_useGroup {s : Bool × Dir} (parent : Str) (h : line ∈ s.2.lines n) :
    line ∈ (useGroup node s parent).2.lines n ∨
      line.id = node ∧ { line with id := groupxx node } ∈ (useGroup node s parent).2.lines n := by
  rw [useGroup]
  split
  · exact .inl h
  · by_cases hn : n = parent
    · subst hn
      by_cases hid : line.id = node
      · refine .inr ⟨hid, mem_lines_write.2 (.inl ⟨rfl, List.mem_map.2 ⟨line, h, ?_⟩⟩)⟩
        rw [if_pos hid]
      · refine .inl (mem_lines_write.2 (.inl ⟨rfl, List.mem_map.2 ⟨line, h, ?_⟩⟩))
        rw [if_neg hid]
    · exact .inl (mem_lines_write.2 (.inr ⟨hn, h⟩))

theorem mem_foldl_useGroup {parents : List Str} {s : Bool × Dir} (h : line ∈ s.2.lines n) :
    line ∈ (parents.foldl (useGroup node) s).2.lines n ∨ line.id = node ∧
      { line with id := groupxx node } ∈ (parents.foldl (useGroup node) s).2.lines n := by
  refine List.foldlRecOn (motive := fun s' : Bool × Dir => line ∈ s'.2.lines n ∨
    line.id = node ∧ { line with id := groupxx node } ∈ s'.2.lines n) _ _ (.inl h)
    fun s' hs parent _ => ?_
  rcases hs with hs | ⟨hid, hs⟩
  · exact mem_useGroup parent hs
  · exact .inr ⟨hid, (mem_useGroup parent hs).resolve_right fun h => groupxx_ne h.1⟩

/-- A line is changed only if the group is new. -/
theorem mem_makeGroup (h : line ∈ d.lines n) : line ∈ (d.makeGroup ls node).lines n ∨
    groupxx node ∉ d.names ∧ line.id = node ∧
      { line with id := groupxx node } ∈ (d.makeGroup ls node).lines n ∧
      ⟨1, .before, node⟩ ∈ (d.makeGroup ls node).lines (groupxx node) := by
  rw [makeGroup]
  split
  · exact .inl h
  · next hnew =>
    have hn : n ≠ groupxx node := fun hn => hnew (hn ▸ mem_names_of_mem h)
    -- The lines after the group is written, and perhaps added to the root.
    have hrest {x : Line Str} {k : Str} {d' : Dir} {used : Bool}
        (hx : k = groupxx node ∧ x = ⟨1, .before, node⟩ ∨ k ≠ groupxx node ∧ x ∈ d'.lines k) :
        x ∈ (if used then d'.write (groupxx node) [⟨1, .before, node⟩]
          else (d'.write (groupxx node) [⟨1, .before, node⟩]).append root
            ⟨1, .before, groupxx node⟩).lines k := by
      have hwrite : x ∈ (d'.write (groupxx node) [⟨1, .before, node⟩]).lines k :=
        mem_lines_write.2 (hx.imp_left (And.imp_right List.mem_singleton.2))
      split
      · exact hwrite
      · exact mem_lines_append.2 (.inl hwrite)
    rcases mem_foldl_useGroup (s := (false, d)) h with hline | ⟨hid, hline⟩
    · exact .inl (hrest (.inr ⟨hn, hline⟩))
    · exact .inr ⟨hnew, hid, hrest (.inr ⟨hn, hline⟩), hrest (.inl ⟨rfl, rfl⟩)⟩

/-- Once the group is made, a round leaves the lines that are not for dependencies after the
    node. -/
theorem mem_processAfter_of_mem (h : line ∈ (d.makeGroup ls node).lines n)
    (hb : line.build ≠ .after) : line ∈ (d.processAfter ls node).lines n := by
  have hfold : line ∈ (((d.makeGroup ls node).lines node).foldl (addToGroup node)
      (d.makeGroup ls node)).lines n := by
    refine List.foldlRecOn (motive := fun d' : Dir => line ∈ d'.lines n) _ _ h fun d' hd' x _ => ?_
    rw [addToGroup]
    split
    · exact mem_lines_append.2 (.inl hd')
    · exact hd'
  rw [processAfter]
  refine mem_lines_write.2 ?_
  by_cases hn : n = node
  · subst hn
    exact .inl ⟨rfl, List.mem_filter.2 ⟨hfold, by simpa using hb⟩⟩
  · exact .inr ⟨hn, hfold⟩

theorem Needs.processAfter (h : d.Needs n m) : (d.processAfter ls node).Needs n m ∨
    groupxx node ∉ d.names ∧ m = node ∧ (d.processAfter ls node).Needs n (groupxx m) ∧
      (d.processAfter ls node).Needs (groupxx m) m := by
  obtain ⟨line, hline, hb, rfl⟩ := h
  have hafter : line.build ≠ .after := by simp [hb]
  have hgroup : line ∈ (d.makeGroup ls node).lines n ∨ _ := mem_makeGroup hline
  rcases hgroup with hline | ⟨hnew, hid, hline, hgroup⟩
  · exact .inl ⟨line, mem_processAfter_of_mem hline hafter, hb, rfl⟩
  · subst hid
    exact .inr ⟨hnew, rfl, ⟨_, mem_processAfter_of_mem hline hafter, hb, rfl⟩,
      ⟨_, mem_processAfter_of_mem hgroup (by simp), rfl, rfl⟩⟩

/-- A round keeps what the packages need, for a node that is not itself a group. -/
theorem Carries.processAfter (h : d.Carries n m) (hnode : ∀ k, node ≠ groupxx k) :
    (d.processAfter ls node).Carries n m := by
  rcases h with h | ⟨h, hm⟩
  · exact (h.processAfter).imp_right fun h => h.2.2
  · refine .inr ⟨(h.processAfter).resolve_right fun h => hnode m h.2.1.symm,
      (hm.processAfter).resolve_right fun h => h.1 ?_⟩
    obtain ⟨line, hline, -⟩ := hm
    exact h.2.1 ▸ mem_names_of_mem hline

/-! ## The third loop -/

/-- A round leaves the lines of other nodes, if they are no copies. -/
theorem mem_processFirst (hn : n ≠ node) (hcopy : ∀ k, n ≠ pass1 k) (h : line ∈ d.lines n) :
    line ∈ (d.processFirst node).lines n := by
  have hcopies : line ∈ ((d.lines node).foldl (makeCopy node) d).lines n := by
    refine List.foldlRecOn (motive := fun d' : Dir => line ∈ d'.lines n) _ _ h fun d' hd' l _ => ?_
    rw [makeCopy]
    split
    · exact hd'
    · refine mem_lines_write.2 (.inr ⟨hcopy _, ?_⟩)
      split
      · exact hd'
      · exact mem_lines_write.2 (.inr ⟨hcopy _, hd'⟩)
  rw [processFirst]
  refine List.foldlRecOn (motive := fun d' : Dir => line ∈ d'.lines n) _ _ hcopies
    fun d' hd' id _ => ?_
  rw [useCopy]
  have hwrite {l : List (Line Str)} : line ∈ (d'.write node l).lines n :=
    mem_lines_write.2 (.inr ⟨hn, hd'⟩)
  split
  · exact hwrite
  · exact mem_lines_append.2 (.inl hwrite)

theorem Needs.processFirsts (h : d.Needs n m) (hn : ¬d.Has .first n) (hcopy : ∀ k, n ≠ pass1 k) :
    (d.processFirsts ls).Needs n m := by
  obtain ⟨line, hline, hid⟩ := h
  refine ⟨line, ?_, hid⟩
  rw [Dir.processFirsts]
  refine List.foldlRecOn (motive := fun d' : Dir => line ∈ d'.lines n) _ _ hline
    fun d' hd' node hnode => mem_processFirst (fun h => hn ?_) hcopy hd'
  exact h ▸ mem_listWith.1 hnode

/-! ## The pass -/

/-- Nothing depends on the root. -/
def Rootless (d : Dir) : Prop := ∀ n, ∀ line ∈ d.lines n, line.id ≠ root

/-- What holds of the files that are made of the book, if its packages have no names like those
    that the script gives: the requested packages have files, nothing depends on the root, and
    no package with a dependency before its first build has to be built twice. -/
structure Sound (d : Dir) : Prop where
  root_before : ∀ line ∈ d.lines root, line.build = .before
  root_mem : ∀ line ∈ d.lines root, line.id ∈ d.names
  rootless : d.Rootless
  plain : ∀ n ∈ d.names, ∀ m, n ≠ groupxx m ∧ n ≠ pass1 m
  firstSafe : d.FirstSafe

theorem Has.of_removeDanglings {q : Qualifier} (h : (d.removeDanglings ls).Has q n) :
    d.Has q n := by
  obtain ⟨line, hline, hb⟩ := h
  exact ⟨line, mem_removeDanglings hline, hb⟩

theorem Has.of_processAfters {q : Qualifier} (hq : q ≠ .before)
    (h : (d.processAfters ls).Has q n) : d.Has q n := by
  refine List.foldlRecOn (motive := fun d' : Dir => d'.Has q n → d.Has q n) _ _ id
    (fun d' hd' node _ h => hd' (h.of_processAfter hq)) h

theorem Needs.removeDanglings (h : d.Needs n m) (hm : m ∈ d.names) :
    (d.removeDanglings ls).Needs n m := by
  obtain ⟨line, hline, hb, rfl⟩ := h
  refine ⟨line, ?_, hb, rfl⟩
  rw [Dir.removeDanglings, (foldl_removeDangling _ fun n hn => (ls.mem_list _ _).1 hn).2 n]
  split
  · exact List.mem_filter.2 ⟨hline, decide_eq_true hm⟩
  · exact hline

theorem groupxx_ne_pass1 {k : Str} : groupxx m ≠ pass1 k := by
  intro h
  have hlast := congrArg List.getLast? h
  simp [groupxx, pass1] at hlast

theorem Sound.not_has (h : d.Sound) {q : Qualifier} : ¬d.Has q (groupxx m) := by
  rintro ⟨line, hline, -⟩
  exact (h.plain _ (mem_names_of_mem hline) m).1 rfl

/-- No loop loses what a package needs that has no dependencies before its first build. -/
theorem Sound.carries (h : d.Sound) (hn : d.Needs n m) (hm : m ∈ d.names)
    (hfirst : ¬d.Has .first n) : (d.cleanSubgraph ls).Carries n m := by
  have hafters : ((d.removeDanglings ls).processAfters ls).Carries n m := by
    refine List.foldlRecOn (motive := fun d' : Dir => d'.Carries n m) _ _
      (.inl (hn.removeDanglings hm)) fun d' hd' node hnode => hd'.processAfter fun k hk => ?_
    exact h.not_has (hk ▸ (mem_listWith.1 hnode).of_removeDanglings)
  have hnot {k : Str} (hk : ¬d.Has .first k) :
      ¬((d.removeDanglings ls).processAfters ls).Has .first k :=
    fun hhas => hk (hhas.of_processAfters (by decide)).of_removeDanglings
  have hcopy : ∀ k, n ≠ pass1 k := by
    obtain ⟨line, hline, -⟩ := hn
    exact fun k => (h.plain n (mem_names_of_mem hline) k).2
  rcases hafters with hn | ⟨hn, hm⟩
  · exact .inl (hn.processFirsts (hnot hfirst) hcopy)
  · exact .inr ⟨hn.processFirsts (hnot hfirst) hcopy,
      hm.processFirsts (hnot h.not_has) fun _ => groupxx_ne_pass1⟩

theorem groupxx_ne_root : groupxx m ≠ root := by
  intro h
  have hlen := congrArg List.length h
  simp [groupxx, root] at hlen

theorem pass1_ne_root : pass1 m ≠ root := by
  intro h
  have hlen := congrArg List.length h
  simp [pass1, root] at hlen

theorem Rootless.processAfter (h : d.Rootless) (hnode : node ≠ root) :
    (d.processAfter ls node).Rootless := by
  intro n line hline
  cases (rounds_processAfter ls d node).1.lines n line hline with
  | same hl => exact h n _ hl
  | renamed _ _ => exact groupxx_ne_root
  | new hid =>
    rcases hid with rfl | rfl | ⟨l, hl, rfl⟩
    · exact hnode
    · exact groupxx_ne_root
    · exact h node l hl

theorem Rootless.processFirst (h : d.Rootless) : (d.processFirst node).Rootless := by
  have hcopies : ((d.lines node).foldl (makeCopy node) d).Rootless := by
    refine List.foldlRecOn (motive := Rootless) _ _ h fun d' hd' l _ n line hline => ?_
    rcases mem_lines_makeCopy hline with hline | ⟨-, -, hline⟩
    · exact hd' n line hline
    · exact hd' l.id line hline
  rw [Dir.processFirst]
  refine List.foldlRecOn (motive := Rootless) _ _ hcopies fun d' hd' id hid n line hline => ?_
  obtain ⟨l, hl, rfl⟩ := List.mem_map.1 hid
  rcases mem_lines_useCopy hline with ⟨hline, -⟩ | ⟨-, hcopy, -⟩ | ⟨-, rfl⟩
  · exact hd' n line hline
  · exact hcopy ▸ pass1_ne_root
  · exact h node l (List.mem_of_mem_filter hl)

/-- After the pass, nothing depends on the root either. -/
theorem Sound.rootless_cleanSubgraph (h : d.Sound) : (d.cleanSubgraph ls).Rootless := by
  have hafters : ((d.removeDanglings ls).processAfters ls).Rootless := by
    refine List.foldlRecOn (motive := Rootless) _ _
      (fun n line hline => h.rootless n line (mem_removeDanglings hline))
      fun d' hd' node hnode => hd'.processAfter ?_
    rintro rfl
    obtain ⟨l, hl, hb⟩ := (mem_listWith.1 hnode).of_removeDanglings
    have hbefore := h.root_before l hl
    rw [hb] at hbefore
    cases hbefore
  exact List.foldlRecOn (motive := Rootless) _ _ hafters fun _ hd' _ _ => hd'.processFirst

/-- The order that is read off the tree of the cleaned graph. -/
theorem Sound.exists_order {names : Names Str} (h : d.Sound)
    (heven : EvenCycles (d.cleanSubgraph ls).deps) : ∃ order calls₀,
      (∀ calls ≥ calls₀, buildOrder names (d.cleanSubgraph ls).deps calls = some (some order)) ∧
      Leaves (below (d.cleanSubgraph ls).deps) []
        (((d.cleanSubgraph ls).lines root).map Line.id) [] order := by
  have hfile : ∀ n, ∃ k, (d.cleanSubgraph ls).deps n = (d.cleanSubgraph ls).lines k := by
    rintro (_ | n)
    · exact ⟨root, rfl⟩
    · exact ⟨n, rfl⟩
  refine exists_leaves (u := (d.cleanSubgraph ls).names) (fun n line hline => ?_)
    (fun n line hline => ?_) heven
  · obtain ⟨k, hk⟩ := hfile n
    exact closed_cleanSubgraph h.root_mem k line (hk ▸ hline)
  · obtain ⟨k, hk⟩ := hfile n
    rw [hk] at hline
    cases hb : line.build with
    | before => rfl
    | after => exact absurd ⟨line, hline, hb⟩ (not_has_after_cleanSubgraph h.root_mem k)
    | first => exact absurd ⟨line, hline, hb⟩ (not_has_first_cleanSubgraph h.firstSafe k)

/-- In the order, a package is after what it needs, unless that, or the group of it, needs the
    package in turn. -/
theorem Carries.before {order : List Str} (h : d.Carries n m)
    (hl : Leaves (below d.deps) [] ((d.lines root).map Line.id) [] order) (hn : n ∈ order)
    (hm : ¬Reach (below d.deps) m n) (hg : ¬Reach (below d.deps) (groupxx m) n) :
    Before order m n := by
  obtain ⟨s, t, rfl, hs⟩ := hl.split (fun m hm => absurd hm List.not_mem_nil)
    (fun y hy => absurd hy List.not_mem_nil) hn List.not_mem_nil
  have hmem {k p : Str} (hk : k ∈ n :: s) (hp : d.Needs k p) (hback : ¬Reach (below d.deps) p n) :
      p ∈ s := by
    obtain ⟨line, hline, -, rfl⟩ := hp
    exact (hs k hk _ (List.mem_map_of_mem hline)).resolve_right hback
  refine before_append_cons ?_
  rcases h with h | ⟨h, h'⟩
  · exact hmem List.mem_cons_self h hm
  · exact hmem (List.mem_cons_of_mem _ (hmem List.mem_cons_self h hg)) h' hm

/-- What a package in the order needs is in the order, and so is what the root needs. -/
theorem Carries.mem {order : List Str} (h : d.Carries n m)
    (hl : Leaves (below d.deps) [] ((d.lines root).map Line.id) [] order)
    (hn : n ∈ order ∨ n = root) : m ∈ order := by
  have hmem {k p : Str} (hk : k ∈ order ∨ k = root) (hp : d.Needs k p) : p ∈ order := by
    obtain ⟨line, hline, -, rfl⟩ := hp
    rcases hk with hk | rfl
    · exact (hl.closed hk List.not_mem_nil (List.mem_map_of_mem hline)).resolve_right
        List.not_mem_nil
    · exact (hl.mem _ (List.mem_map_of_mem hline)).resolve_right List.not_mem_nil
  rcases h with h | ⟨h, h'⟩
  · exact hmem hn h
  · exact hmem (.inl (hmem hn h)) h'

theorem Rootless.notMem {order : List Str} (h : d.Rootless)
    (hl : Leaves (below d.deps) [] ((d.lines root).map Line.id) [] order) : root ∉ order := by
  intro hmem
  obtain ⟨n, hn, hr⟩ := hl.mem_iff.1 hmem
  obtain ⟨line, hline, rfl⟩ := List.mem_map.1 hn
  rcases ReflTransGen.cases_tail hr with heq | ⟨k, -, hk⟩
  · exact h root line hline heq.symm
  · obtain ⟨l, hl, hid⟩ := List.mem_map.1 hk
    exact h k l hl hid

end

end Dir

open Dir

/-- The files that the first pass makes: that of the root, and those of the packages that it
    finds, with all of their lines. -/
def Book.dir (b : Book Str) (files : Finset Str) : Dir where
  names := insert root files
  lines n := if n = root then b.linesOf none else if n ∈ files then b.lines n else []
  lines_eq_nil n hn := by
    rw [Finset.mem_insert, not_or] at hn
    rw [if_neg hn.1, if_neg hn.2]

/-- `FULL_LIST`, as long as `calls` suffice. -/
def fullList (names : Names Str) (ls : Listing) (b : Book Str) (calls : ℕ) :
    Option (Option (List Str)) :=
  (generateSubgraph b calls none 1 ∅).bind fun files =>
    buildOrder names ((b.dir files).cleanSubgraph ls).deps calls

section

variable {b : Book Str} {files u : Finset Str}

theorem Book.lines_dir_root : (b.dir files).lines root = b.linesOf none := by
  simp [dir]

theorem Book.mem_lines_dir {n : Str} {line : Line Str} (hn : n ≠ root) :
    line ∈ (b.dir files).lines n ↔ n ∈ files ∧ line ∈ b.lines n := by
  rw [dir]
  dsimp only
  rw [if_neg hn]
  split
  · next h => simp [h]
  · next h => simp [h]

theorem Book.sound_dir (hu : ∀ n ∈ u, ∀ line ∈ b.lines n, line.id ∈ u) (hfiles : files ⊆ u)
    (htargets : ∀ t ∈ b.targets, t ∈ files)
    (hnames : ∀ n ∈ u, n ≠ root ∧ ∀ m, n ≠ groupxx m ∧ n ≠ pass1 m)
    (hfirst : ∀ n ∈ u, ∀ line ∈ b.lines n, line.build = .first →
      ∀ l ∈ b.lines line.id, l.build ≠ .first) : (b.dir files).Sound := by
  have hroot {line : Line Str} (h : line ∈ (b.dir files).lines root) :
      line.build = .before ∧ line.id ∈ files := by
    rw [lines_dir_root] at h
    obtain ⟨t, ht, rfl⟩ := List.mem_map.1 h
    exact ⟨rfl, htargets t ht⟩
  refine ⟨fun _ h => (hroot h).1, fun _ h => Finset.mem_insert_of_mem (hroot h).2,
    fun n line hline => ?_, fun n hn m => ?_, fun n line hline hb => ?_⟩
  · by_cases hn : n = root
    · exact (hnames _ (hfiles (hroot (hn ▸ hline)).2)).1
    · obtain ⟨hmem, hline⟩ := (mem_lines_dir hn).1 hline
      exact (hnames _ (hu n (hfiles hmem) line hline)).1
  · rcases Finset.mem_insert.1 hn with rfl | hn
    · exact ⟨groupxx_ne_root.symm, pass1_ne_root.symm⟩
    · exact (hnames n (hfiles hn)).2 m
  · by_cases hn : n = root
    · have hbefore := (hroot (hn ▸ hline)).1
      rw [hb] at hbefore
      cases hbefore
    · obtain ⟨hmem, hline⟩ := (mem_lines_dir hn).1 hline
      rintro ⟨l, hl, hl'⟩
      have hid := (hnames _ (hu n (hfiles hmem) line hline)).1
      exact hfirst n (hfiles hmem) line hline hb l ((mem_lines_dir hid).1 hl).2 hl'

/-- In a book without names like those that the script gives, and without packages that have to be
    built twice before a package which has to be built twice itself, the script comes to an end
    if the lines on a cycle of the cleaned graph have the same weight. The list has no package
    twice, it has the requested ones, and with a package that needs no first build of another
    one it has all packages that it needs before it and that are followed, in front of it,
    but for those that need it in turn, or whose group does. -/
theorem fullList_respects (names : Names Str) (ls : Listing)
    (hu : ∀ n ∈ u, ∀ line ∈ b.lines n, line.id ∈ u) (ht : ∀ t ∈ b.targets, t ∈ u)
    (hlevel : 1 ≤ b.depLevel) (hnames : ∀ n ∈ u, n ≠ root ∧ ∀ m, n ≠ groupxx m ∧ n ≠ pass1 m)
    (hfirst : ∀ n ∈ u, ∀ line ∈ b.lines n, line.build = .first →
      ∀ l ∈ b.lines line.id, l.build ≠ .first) :
    ∃ files : Finset Str, (∀ d, d ∈ files ↔ ∃ t ∈ b.targets, Reach b.followed t d) ∧
      (EvenCycles ((b.dir files).cleanSubgraph ls).deps → ∃ order calls₀,
        (∀ calls ≥ calls₀, fullList names ls b calls = some (some order)) ∧
        order.Nodup ∧ root ∉ order ∧ (∀ t ∈ b.targets, t ∈ order) ∧
        ∀ n ∈ order, n ∈ files → (∀ line ∈ b.lines n, line.build ≠ .first) →
          ∀ line ∈ b.lines n, line.build = .before → line.id ∈ files → line.id ∈ order ∧
            (¬Reach (below ((b.dir files).cleanSubgraph ls).deps) line.id n →
              ¬Reach (below ((b.dir files).cleanSubgraph ls).deps) (groupxx line.id) n →
              Before order line.id n)) := by
  obtain ⟨files, hrun, hg⟩ := generateSubgraph_root hu ht hlevel
  refine ⟨files, fun _ => hg.mem_iff, fun heven => ?_⟩
  have hfiles : files ⊆ u := by
    intro d hd
    obtain ⟨t, ht', hr⟩ := hg.reached d hd
    clear hd
    induction hr with
    | refl => exact ht t ht'
    | tail _ hedge ih =>
      obtain ⟨line, hline, -, rfl⟩ := mem_upTo.1 hedge
      exact hu _ ih line hline
  have htargets : ∀ t ∈ b.targets, t ∈ files := fun t ht' => (hg.done t ht').1
  have hsound := Book.sound_dir hu hfiles htargets hnames hfirst
  obtain ⟨order, calls₀, hruns, hleaves⟩ : ∃ order calls₀, (∀ calls ≥ calls₀,
      buildOrder names ((b.dir files).cleanSubgraph ls).deps calls = some (some order)) ∧
      Leaves (below ((b.dir files).cleanSubgraph ls).deps) []
        ((((b.dir files).cleanSubgraph ls).lines root).map Line.id) [] order :=
    hsound.exists_order heven
  refine ⟨order, max calls₀ (u.card + 2), fun calls hcalls => ?_, hleaves.nodup List.nodup_nil,
    hsound.rootless_cleanSubgraph.notMem hleaves, fun t ht' => ?_,
    fun n hn hnf hnofirst line hline hb hid => ?_⟩
  · rw [fullList, generateSubgraph_mono (le_of_max_le_right hcalls) hrun]
    exact hruns calls (le_of_max_le_left hcalls)
  · have hneeds : (b.dir files).Needs root t := by
      refine ⟨⟨1, .before, t⟩, ?_, rfl, rfl⟩
      rw [Book.lines_dir_root]
      exact List.mem_map_of_mem ht'
    have hroot : ¬(b.dir files).Has .first root := by
      rintro ⟨line, hline, hb⟩
      rw [hsound.root_before line hline] at hb
      cases hb
    exact (hsound.carries hneeds (Finset.mem_insert_of_mem (htargets t ht')) hroot).mem hleaves
      (.inr rfl)
  · have hn' : n ≠ root := (hnames n (hfiles hnf)).1
    have hneeds : (b.dir files).Needs n line.id :=
      ⟨line, (Book.mem_lines_dir hn').2 ⟨hnf, hline⟩, hb, rfl⟩
    have hno : ¬(b.dir files).Has .first n := by
      rintro ⟨l, hl, hl'⟩
      exact hnofirst l ((Book.mem_lines_dir hn').1 hl).2 hl'
    have hcarries : ((b.dir files).cleanSubgraph ls).Carries n line.id :=
      hsound.carries hneeds (Finset.mem_insert_of_mem hid) hno
    exact ⟨hcarries.mem hleaves (.inl hn), hcarries.before hleaves hn⟩

end

/-- A book with two libraries, the first of which has to be built once before the second, and an
    application that uses both, with a tool that it can only use when it is built. -/
def appBook : Book Str where
  lines n :=
    if n = "app".toList then
      [⟨1, .before, "ft".toList⟩, ⟨2, .before, "hb".toList⟩, ⟨2, .after, "tool".toList⟩]
    else if n = "ft".toList then [⟨2, .first, "hb".toList⟩]
    else if n = "hb".toList then [⟨1, .before, "ft".toList⟩]
    else []
  targets := ["app".toList]
  depLevel := 2

theorem fullList_respects_app :
    ∃ files : Finset Str, (∀ d, d ∈ files ↔ ∃ t ∈ appBook.targets, Reach appBook.followed t d) ∧
      (EvenCycles ((appBook.dir files).cleanSubgraph .ofChars).deps → ∃ order calls₀,
        (∀ calls ≥ calls₀, fullList ⟨[none], fun id line => id <:+: line.text⟩ .ofChars appBook calls =
          some (some order)) ∧
        order.Nodup ∧ root ∉ order ∧ (∀ t ∈ appBook.targets, t ∈ order) ∧
        ∀ n ∈ order, n ∈ files → (∀ line ∈ appBook.lines n, line.build ≠ .first) →
          ∀ line ∈ appBook.lines n, line.build = .before → line.id ∈ files → line.id ∈ order ∧
            (¬Reach (below ((appBook.dir files).cleanSubgraph .ofChars).deps) line.id n →
              ¬Reach (below ((appBook.dir files).cleanSubgraph .ofChars).deps)
                (groupxx line.id) n →
              Before order line.id n)) := by
  refine fullList_respects (u := {"app".toList, "ft".toList, "hb".toList, "tool".toList}) _ _
    (by decide +kernel) (by decide +kernel) (by decide) (fun n hn => ?_) (by decide +kernel)
  have hlen : n.length ≤ 4 := by
    revert n
    decide +kernel
  refine ⟨fun h => ?_, fun m => ⟨fun h => ?_, fun h => ?_⟩⟩
  · subst h
    revert hn
    decide +kernel
  · rw [h] at hlen
    simp [groupxx] at hlen
  · rw [h] at hlen
    simp [pass1] at hlen

/-- The tool comes after the application, and the second library is built twice. -/
example : fullList ⟨[none], fun id line => id <:+: line.text⟩ .ofChars appBook 20 = some (some
    ["hb-pass1".toList, "ft".toList, "hb".toList, "app".toList, "tool".toList,
      "appgroupxx".toList]) := by decide +kernel

/-- The second library can use another one, which uses it in turn. -/
def lostBook : Book Str where
  lines n :=
    if n = "ft".toList then [⟨2, .first, "hb".toList⟩]
    else if n = "hb".toList then [⟨1, .before, "ft".toList⟩, ⟨2, .before, "gr".toList⟩]
    else if n = "gr".toList then [⟨2, .before, "hb".toList⟩]
    else []
  targets := ["ft".toList]
  depLevel := 2

/-- Then it is only built for the first time: there is a line for it, so that the root gets none. -/
example : fullList ⟨[none], fun id line => id <:+: line.text⟩ .ofChars lostBook 20 =
    some (some ["hb-pass1".toList, "ft".toList]) := by decide +kernel

end LfsBuilder.Jhalfs
