import LfsBuilder.Jhalfs.DependencyGraph
import LfsBuilder.Library.Text

/-!
# The cleaned graph

The second pass of `BLFS/libs/func_dependencies`, three loops over the files of the
graph. The first one removes the lines for packages that have no file. The second one
puts the dependencies that are needed only after a package into a group with it, and
lets the parents of the package depend on the group, unless such a dependency needs the
parent. The third one makes a copy of a package that has to be built twice, the first
time without the dependencies that lead back.

* `rounds_processAfter`, `mem_lines_makeCopy`, `mem_lines_useCopy`: what a round of the second
  and of the third loop can do to the lines;
* `cleanSubgraph_clean`: after the pass there are no lines for packages without a file, no
  dependencies after a package, and none before its first build, if no package that is
  built twice has such a dependency itself.
-/

namespace LfsBuilder.Jhalfs

open Text

/-- The letter of a qualifier. -/
def Qualifier.letter : Qualifier → Char
  | before => 'b'
  | after => 'a'
  | first => 'f'

/-- A line as it is written. -/
def Line.text (line : Line Str) : Str :=
  line.prio.repr.toList ++ ' ' :: line.build.letter :: ' ' :: line.id

/-- The files `<node>.dep`: their names, without the extension, and their lines. -/
structure Dir where
  names : Finset Str
  lines : Str → List (Line Str)
  lines_eq_nil : ∀ n ∉ names, lines n = []

/-- The order in which the shell lists the files. -/
structure Listing where
  list : Finset Str → List Str
  mem_list : ∀ s n, n ∈ list s ↔ n ∈ s

/-- The name of the node that the requested packages are the dependencies of. -/
def root : Str := "root".toList

def groupxx (node : Str) : Str := node ++ "groupxx".toList

def pass1 (node : Str) : Str := node ++ "-pass1".toList

namespace Dir

def write (d : Dir) (node : Str) (lines : List (Line Str)) : Dir where
  names := insert node d.names
  lines := Function.update d.lines node lines
  lines_eq_nil n hn := by
    rw [Finset.mem_insert, not_or] at hn
    rw [Function.update_of_ne hn.1, d.lines_eq_nil n hn.2]

/-- A line at the end of a file. -/
def append (d : Dir) (node : Str) (line : Line Str) : Dir := d.write node (d.lines node ++ [line])

/-- `path_to` returns 0. The calls are nested no deeper than there are files, but for one that
    is still to be made. -/
def hasPath (d : Dir) (start seek : Str) (prio : ℕ) : Bool :=
  (pathTo d.lines seek prio (d.names.card + 1) start ∅).any Prod.fst

/-! ## Dangling edges -/

/-- A round of the first loop. -/
def removeDangling (d : Dir) (node : Str) : Dir :=
  if node = root then d
  else d.write node ((d.lines node).filter fun line => line.id ∈ d.names)

/-! ## Dependencies after a package -/

/-- A parent of `node` depends on the group from now on, unless one of those that are needed after
    `node` needs the parent. The flag tells whether any parent does. -/
def useGroup (node : Str) (s : Bool × Dir) (parent : Str) : Bool × Dir :=
  if (s.2.lines node).any fun line => line.build = .after ∧ s.2.hasPath line.id parent 3 then s
  else (true, s.2.write parent ((s.2.lines parent).map fun line =>
    if line.id = node then { line with id := groupxx node } else line))

/-- The files with a line that ends with the name of the node are taken for its parents. -/
def parents (ls : Listing) (d : Dir) (node : Str) : List Str :=
  (ls.list d.names).filter fun parent => (d.lines parent).any fun line => node <:+ line.text

/-- The group of a node, if there is none yet. -/
def makeGroup (ls : Listing) (d : Dir) (node : Str) : Dir :=
  if groupxx node ∈ d.names then d
  else
    let (used, d) := (d.parents ls node).foldl (useGroup node) (false, d)
    let d := d.write (groupxx node) [⟨1, .before, node⟩]
    if used then d else d.append root ⟨1, .before, groupxx node⟩

/-- A dependency after the node goes into the group, unless its name is found there. -/
def addToGroup (node : Str) (d : Dir) (line : Line Str) : Dir :=
  if line.build = .after ∧ ¬(d.lines (groupxx node)).any fun l => line.id <:+: l.text then
    d.append (groupxx node) { line with build := .before }
  else d

/-- A round of the second loop. -/
def processAfter (ls : Listing) (d : Dir) (node : Str) : Dir :=
  let d := d.makeGroup ls node
  let d := (d.lines node).foldl (addToGroup node) d
  d.write node ((d.lines node).filter fun line => line.build ≠ .after)

/-! ## Packages that are built twice -/

/-- The lines of the copy that do not lead to `node`. -/
def leadAway (d : Dir) (copy node : Str) : List (Line Str) :=
  (d.lines copy).filter fun line =>
    !(d.lines copy).any fun l => l.id = line.id ∧ d.hasPath l.id node l.prio

/-- A line of `node` for a package that is to be built before it for a first time. -/
def makeCopy (node : Str) (d : Dir) (line : Line Str) : Dir :=
  if line.build ≠ .first then d
  else
    let d := if pass1 line.id ∈ d.names then d else d.write (pass1 line.id) (d.lines line.id)
    d.write (pass1 line.id) (d.leadAway (pass1 line.id) node)

/-- The lines of `node` for the package are changed to lines for its copy. If nothing depends on
    the package any more, the root does. -/
def useCopy (node : Str) (d : Dir) (id : Str) : Dir :=
  let d := d.write node ((d.lines node).map fun line =>
    if line.id = id then
      if line.build = .first then ⟨1, .before, pass1 id⟩ else { line with id := pass1 id }
    else line)
  if ∃ n ∈ d.names, ∃ line ∈ d.lines n, line.id = id then d else d.append root ⟨1, .before, id⟩

/-- A round of the third loop. -/
def processFirst (d : Dir) (node : Str) : Dir :=
  (((d.lines node).filter fun line => line.build = .first).map Line.id).foldl (useCopy node)
    ((d.lines node).foldl (makeCopy node) d)

/-- The files with a line that has a qualifier. -/
def listWith (ls : Listing) (d : Dir) (q : Qualifier) : List Str :=
  (ls.list d.names).filter fun node => (d.lines node).any fun line => line.build = q

/-- The first loop. -/
def removeDanglings (ls : Listing) (d : Dir) : Dir := (ls.list d.names).foldl removeDangling d

/-- The second loop. -/
def processAfters (ls : Listing) (d : Dir) : Dir :=
  (d.listWith ls .after).foldl (processAfter ls) d

/-- The third loop. -/
def processFirsts (ls : Listing) (d : Dir) : Dir := (d.listWith ls .first).foldl processFirst d

/-- `clean_subgraph` -/
def cleanSubgraph (ls : Listing) (d : Dir) : Dir :=
  ((d.removeDanglings ls).processAfters ls).processFirsts ls

section

variable {d : Dir} {m n : Str} {l : List (Line Str)} {line : Line Str}

theorem mem_names_of_mem (h : line ∈ d.lines n) : n ∈ d.names := by
  by_contra hn
  rw [d.lines_eq_nil n hn] at h
  exact List.not_mem_nil h

theorem lines_write_self : (d.write m l).lines m = l := Function.update_self ..

theorem lines_write_of_ne (h : n ≠ m) : (d.write m l).lines n = d.lines n :=
  Function.update_of_ne h _ _

theorem mem_lines_write : line ∈ (d.write m l).lines n ↔
    n = m ∧ line ∈ l ∨ n ≠ m ∧ line ∈ d.lines n := by
  by_cases h : n = m
  · subst h
    simp [lines_write_self]
  · simp [lines_write_of_ne h, h]

theorem mem_lines_append {x : Line Str} : line ∈ (d.append m x).lines n ↔
    line ∈ d.lines n ∨ n = m ∧ line = x := by
  rw [append, mem_lines_write]
  by_cases h : n = m
  · subst h
    simp
  · simp [h]

theorem names_write : (d.write m l).names = insert m d.names := rfl

end

/-- All packages on the lines have a file. -/
def Closed (d : Dir) : Prop := ∀ n, ∀ line ∈ d.lines n, line.id ∈ d.names

section

variable {ls : Listing} {d d₀ : Dir} {node n id : Str} {line l : Line Str}

theorem groupxx_ne : groupxx node ≠ node := by
  intro h
  have hlen := congrArg List.length h
  simp [groupxx] at hlen

/-! ## The first loop -/

theorem foldl_removeDangling (nodes : List Str) (hnodes : ∀ n ∈ nodes, n ∈ d.names) :
    (nodes.foldl removeDangling d).names = d.names ∧ ∀ n,
      (nodes.foldl removeDangling d).lines n =
        if n ∈ nodes ∧ n ≠ root then (d.lines n).filter fun line => line.id ∈ d.names
        else d.lines n := by
  induction nodes using List.reverseRecOn with
  | nil => simp
  | append_singleton nodes m ih =>
    obtain ⟨hm, hnodes⟩ : m ∈ d.names ∧ ∀ n ∈ nodes, n ∈ d.names :=
      ⟨hnodes m (by simp), fun n hn => hnodes n (by simp [hn])⟩
    obtain ⟨hnames, hlines⟩ := ih hnodes
    rw [List.foldl_append, List.foldl_cons, List.foldl_nil, removeDangling]
    split
    · next hroot =>
      refine ⟨hnames, fun n => (hlines n).trans ?_⟩
      by_cases hn : n = m
      · simp [hn, hroot]
      · simp [hn]
    · next hroot =>
      refine ⟨by rw [names_write, hnames, Finset.insert_eq_of_mem hm], fun n => ?_⟩
      by_cases hn : n = m
      · subst hn
        rw [lines_write_self, hnames, hlines n]
        simp only [List.mem_append, List.mem_singleton, or_true, true_and]
        rw [if_pos hroot]
        split <;> simp [List.filter_filter]
      · rw [lines_write_of_ne hn, hlines n]
        simp [hn]

/-- After the first loop the lines are those for packages with a file. -/
theorem closed_removeDanglings (hroot : ∀ line ∈ d.lines root, line.id ∈ d.names) :
    (d.removeDanglings ls).Closed := by
  obtain ⟨hnames, hlines⟩ := foldl_removeDangling (d := d) (ls.list d.names)
    fun n hn => (ls.mem_list _ _).1 hn
  intro n line hline
  rw [removeDanglings, hnames]
  rw [removeDanglings, hlines] at hline
  split at hline
  · simpa using (List.mem_filter.1 hline).2
  · next hn =>
    by_cases hr : n = root
    · exact hroot line (hr ▸ hline)
    · exact absurd ⟨(ls.mem_list _ _).2 (mem_names_of_mem hline), hr⟩ hn

/-! ## The second loop -/

/-- Where a line of the file of `n` can come from, in a round of the second loop for `node`, which
    begins with the files `d₀`. -/
inductive Origin (d₀ : Dir) (node n : Str) : Line Str → Prop
  | same {line : Line Str} : line ∈ d₀.lines n → Origin d₀ node n line
  | renamed {line : Line Str} : line ∈ d₀.lines n → groupxx node ∉ d₀.names →
      Origin d₀ node n { line with id := groupxx node }
  | new {prio : ℕ} {id : Str} : id = node ∨ id = groupxx node ∨ (∃ l ∈ d₀.lines node, l.id = id) →
      Origin d₀ node n ⟨prio, .before, id⟩

theorem Origin.toGroup (h : Origin d₀ node n line) (hnew : groupxx node ∉ d₀.names) :
    Origin d₀ node n { line with id := groupxx node } := by
  cases h with
  | same h => exact .renamed h hnew
  | @renamed line h _ => exact @renamed d₀ node n line h hnew
  | new _ => exact .new (.inr (.inl rfl))

theorem Origin.toBefore (h : Origin d₀ node node line) :
    Origin d₀ node n { line with build := .before } := by
  cases h with
  | same h => exact .new (.inr (.inr ⟨_, h, rfl⟩))
  | renamed _ _ => exact .new (.inr (.inl rfl))
  | new h => exact .new h

/-- What holds in the course of such a round. -/
structure Rounds (d₀ : Dir) (node : Str) (d : Dir) : Prop where
  names : d₀.names ⊆ d.names
  lines : ∀ n, ∀ line ∈ d.lines n, Origin d₀ node n line

theorem Rounds.write (h : Rounds d₀ node d) {l : List (Line Str)}
    (hl : ∀ line ∈ l, Origin d₀ node n line) : Rounds d₀ node (d.write n l) := by
  refine ⟨h.names.trans (Finset.subset_insert _ _), fun m line hline => ?_⟩
  rcases mem_lines_write.1 hline with ⟨hm, hmem⟩ | ⟨-, hmem⟩
  · exact hm ▸ hl line hmem
  · exact h.lines m line hmem

theorem Rounds.append (h : Rounds d₀ node d) (hl : Origin d₀ node n line) :
    Rounds d₀ node (d.append n line) := by
  refine h.write fun x hx => ?_
  rcases List.mem_append.1 hx with hx | hx
  · exact h.lines n x hx
  · exact List.mem_singleton.1 hx ▸ hl

theorem Rounds.useGroup {s : Bool × Dir} (h : Rounds d₀ node s.2)
    (hnew : groupxx node ∉ d₀.names) (parent : Str) :
    Rounds d₀ node (useGroup node s parent).2 := by
  rw [Dir.useGroup]
  split
  · exact h
  · refine h.write fun line hline => ?_
    obtain ⟨l, hl, rfl⟩ := List.mem_map.1 hline
    have hl := h.lines parent l hl
    split
    · exact hl.toGroup hnew
    · exact hl

theorem Rounds.makeGroup (h : Rounds d₀ node d) (hnew : groupxx node ∈ d.names ∨
    groupxx node ∉ d₀.names) : Rounds d₀ node (d.makeGroup ls node) ∧
      groupxx node ∈ (d.makeGroup ls node).names := by
  rw [Dir.makeGroup]
  split
  · next hmem => exact ⟨h, hmem⟩
  · next hmem =>
    have hfold : Rounds d₀ node ((d.parents ls node).foldl (Dir.useGroup node) (false, d)).2 :=
      List.foldlRecOn (motive := fun s : Bool × Dir => Rounds d₀ node s.2) _ _ h
        fun s hs parent _ => hs.useGroup (hnew.resolve_left hmem) parent
    have hgroup := hfold.write (n := groupxx node) (l := [⟨1, .before, node⟩])
      (List.forall_mem_singleton.2 (.new (.inl rfl)))
    dsimp only
    split
    · exact ⟨hgroup, Finset.mem_insert_self _ _⟩
    · refine ⟨hgroup.append (.new (.inr (.inl rfl))), ?_⟩
      exact Finset.mem_insert_of_mem (Finset.mem_insert_self _ _)

theorem Rounds.addToGroup (h : Rounds d₀ node d) (hl : Origin d₀ node node line) :
    Rounds d₀ node (d.addToGroup node line) := by
  rw [Dir.addToGroup]
  split
  · exact h.append hl.toBefore
  · exact h

/-- What a round of the second loop does: no dependency after the node is left. -/
theorem rounds_processAfter (ls : Listing) (d : Dir) (node : Str) :
    Rounds d node (d.processAfter ls node) ∧
    groupxx node ∈ (d.processAfter ls node).names ∧
    ∀ line ∈ (d.processAfter ls node).lines node, line.build ≠ .after := by
  have hstart : Rounds d node d := ⟨Finset.Subset.refl _, fun _ _ hline => .same hline⟩
  obtain ⟨hgroup, hmem⟩ : Rounds d node (d.makeGroup ls node) ∧
      groupxx node ∈ (d.makeGroup ls node).names := hstart.makeGroup (em _)
  -- The lines that are read are those from before the loop.
  have hfold : Rounds d node (((d.makeGroup ls node).lines node).foldl (addToGroup node)
      (d.makeGroup ls node)) ∧ groupxx node ∈ (((d.makeGroup ls node).lines node).foldl
        (addToGroup node) (d.makeGroup ls node)).names := by
    refine List.foldlRecOn (motive := fun d' => Rounds d node d' ∧ groupxx node ∈ d'.names) _ _
      ⟨hgroup, hmem⟩ fun d' hd' line hline => ⟨hd'.1.addToGroup (hgroup.lines node line hline), ?_⟩
    rw [addToGroup]
    split
    · exact Finset.mem_insert_of_mem hd'.2
    · exact hd'.2
  rw [processAfter]
  refine ⟨hfold.1.write fun line hline => ?_, Finset.mem_insert_of_mem hfold.2,
    fun line hline => ?_⟩
  · exact hfold.1.lines node line (List.mem_of_mem_filter hline)
  · rw [lines_write_self] at hline
    simpa using (List.mem_filter.1 hline).2

/-- A round keeps the graph closed. -/
theorem Closed.processAfter (h : Closed d) (hnode : node ∈ d.names) :
    Closed (d.processAfter ls node) := by
  obtain ⟨hr, hgroup, -⟩ := rounds_processAfter ls d node
  intro n line hline
  cases hr.lines n line hline with
  | same hl => exact hr.names (h n _ hl)
  | renamed _ _ => exact hgroup
  | new hid =>
    rcases hid with rfl | rfl | ⟨l, hl, rfl⟩
    · exact hr.names hnode
    · exact hgroup
    · exact hr.names (h node l hl)

/-- A file has a line with the qualifier. -/
def Has (d : Dir) (q : Qualifier) (n : Str) : Prop := ∃ line ∈ d.lines n, line.build = q

theorem mem_listWith {q : Qualifier} : n ∈ d.listWith ls q ↔ Has d q n := by
  simp only [listWith, List.mem_filter, ls.mem_list, List.any_eq_true, decide_eq_true_eq, Has]
  refine ⟨fun h => h.2, fun h => ⟨?_, h⟩⟩
  obtain ⟨line, hline, -⟩ := h
  exact mem_names_of_mem hline

/-- A round brings no other qualifiers to a file than `b`. -/
theorem Has.of_processAfter {q : Qualifier} (hq : q ≠ .before)
    (h : Has (d.processAfter ls node) q n) : Has d q n := by
  obtain ⟨line, hline, rfl⟩ := h
  cases (rounds_processAfter ls d node).1.lines n line hline with
  | same hl => exact ⟨_, hl, rfl⟩
  | @renamed line hl _ => exact ⟨line, hl, rfl⟩
  | new _ => exact absurd rfl hq

/-- After the rounds for the nodes, none of them has a dependency after it. -/
theorem foldl_processAfter (ls : Listing) (nodes : List Str) (hnodes : ∀ n ∈ nodes, n ∈ d.names)
    (h : Closed d) : Closed (nodes.foldl (processAfter ls) d) ∧
      ∀ n, Has (nodes.foldl (processAfter ls) d) .after n → Has d .after n ∧ n ∉ nodes := by
  induction nodes generalizing d with
  | nil => exact ⟨h, fun n hn => ⟨hn, List.not_mem_nil⟩⟩
  | cons m nodes ih =>
    rw [List.forall_mem_cons] at hnodes
    obtain ⟨hr, -, hnot⟩ := rounds_processAfter ls d m
    obtain ⟨hclosed, hafter⟩ := ih (fun n hn => hr.names (hnodes.2 n hn)) (h.processAfter hnodes.1)
    refine ⟨hclosed, fun n hn => ?_⟩
    obtain ⟨hhas, hn⟩ := hafter n hn
    refine ⟨hhas.of_processAfter (by decide), fun hmem => ?_⟩
    rcases List.mem_cons.1 hmem with rfl | hmem
    · obtain ⟨line, hline, hb⟩ := hhas
      exact hnot line hline hb
    · exact hn hmem

/-- The second loop keeps the graph closed, and leaves no dependencies after a package. -/
theorem closed_processAfters (ls : Listing) (h : Closed d) :
    (d.processAfters ls).Closed ∧ ∀ n, ¬Has (d.processAfters ls) .after n := by
  obtain ⟨hclosed, hafter⟩ := foldl_processAfter ls (d.listWith ls .after)
    (fun n hn => (ls.mem_list _ _).1 (List.mem_of_mem_filter hn)) h
  refine ⟨hclosed, fun n hn => ?_⟩
  obtain ⟨hhas, hnot⟩ := hafter n hn
  exact hnot (mem_listWith.2 hhas)

/-! ## The third loop -/

/-- Where a line can come from when a copy is made. -/
theorem mem_lines_makeCopy (h : line ∈ (d.makeCopy node l).lines n) :
    line ∈ d.lines n ∨ l.build = .first ∧ n = pass1 l.id ∧ line ∈ d.lines l.id := by
  rw [makeCopy] at h
  split at h
  · exact .inl h
  · next hfirst =>
    rw [not_not] at hfirst
    dsimp only at h
    -- Before the lines that lead back are removed.
    have hcopy : line ∈ (if pass1 l.id ∈ d.names then d
        else d.write (pass1 l.id) (d.lines l.id)).lines n := by
      rcases mem_lines_write.1 h with ⟨hn, hmem⟩ | ⟨-, hmem⟩
      · rw [hn]
        rw [leadAway] at hmem
        exact List.mem_of_mem_filter hmem
      · exact hmem
    split at hcopy
    · exact .inl hcopy
    · rcases mem_lines_write.1 hcopy with ⟨hn, h⟩ | ⟨-, h⟩
      · exact .inr ⟨hfirst, hn, h⟩
      · exact .inl h

theorem names_makeCopy (d : Dir) (node : Str) (l : Line Str) : d.names ⊆ (d.makeCopy node l).names ∧
    (l.build = .first → pass1 l.id ∈ (d.makeCopy node l).names) := by
  rw [makeCopy]
  split
  · next hfirst => exact ⟨Finset.Subset.refl _, fun h => absurd h hfirst⟩
  · refine ⟨fun n hn => Finset.mem_insert_of_mem ?_, fun _ => Finset.mem_insert_self _ _⟩
    split
    · exact hn
    · exact Finset.mem_insert_of_mem hn

/-- Where a line can come from when the copy of `id` is used. -/
theorem mem_lines_useCopy (h : line ∈ (d.useCopy node id).lines n) :
    line ∈ d.lines n ∧ (n = node → line.id ≠ id) ∨
    n = node ∧ line.id = pass1 id ∧
      (line.build = .before ∨ line.build ≠ .first ∧ Has d line.build node) ∨
    n = root ∧ line = ⟨1, .before, id⟩ := by
  have hwrite {x : Line Str} (hx : x ∈ (d.write node ((d.lines node).map fun line =>
      if line.id = id then
        if line.build = .first then ⟨1, .before, pass1 id⟩ else { line with id := pass1 id }
      else line)).lines n) :
      x ∈ d.lines n ∧ (n = node → x.id ≠ id) ∨ n = node ∧ x.id = pass1 id ∧
        (x.build = .before ∨ x.build ≠ .first ∧ Has d x.build node) := by
    rcases mem_lines_write.1 hx with ⟨rfl, hx⟩ | ⟨hn, hx⟩
    · obtain ⟨l, hl, rfl⟩ := List.mem_map.1 hx
      by_cases hid : l.id = id
      · rw [if_pos hid]
        split
        · exact .inr ⟨rfl, rfl, .inl rfl⟩
        · next hfirst => exact .inr ⟨rfl, rfl, .inr ⟨hfirst, l, hl, rfl⟩⟩
      · rw [if_neg hid]
        exact .inl ⟨hl, fun _ => hid⟩
    · exact .inl ⟨hx, fun h => absurd h hn⟩
  rw [useCopy] at h
  split at h
  · exact (hwrite h).imp_right .inl
  · rcases mem_lines_append.1 h with h | h
    · exact (hwrite h).imp_right .inl
    · exact .inr (.inr h)

theorem names_useCopy : d.names ⊆ (d.useCopy node id).names := by
  rw [useCopy]
  split
  · exact Finset.subset_insert _ _
  · exact (Finset.subset_insert _ _).trans (Finset.subset_insert _ _)

/-- A round of the third loop keeps the graph closed. -/
theorem Closed.processFirst (h : Closed d) : Closed (d.processFirst node) := by
  -- After the first inner loop, the copies have files.
  have hcopies : ∀ lines : List (Line Str), (∀ l ∈ lines, l.id ∈ d.names) →
      Closed (lines.foldl (makeCopy node) d) ∧ d.names ⊆ (lines.foldl (makeCopy node) d).names ∧
      ∀ l ∈ lines, l.build = .first → pass1 l.id ∈ (lines.foldl (makeCopy node) d).names := by
    intro lines
    induction lines using List.reverseRecOn with
    | nil => exact fun _ => ⟨h, Finset.Subset.refl _, fun _ hl => absurd hl List.not_mem_nil⟩
    | append_singleton lines l ih =>
      intro hlines
      obtain ⟨hclosed, hsub, hpass⟩ := ih fun l hl => hlines l (by simp [hl])
      rw [List.foldl_append, List.foldl_cons, List.foldl_nil]
      obtain ⟨hnames, hself⟩ := names_makeCopy (lines.foldl (makeCopy node) d) node l
      refine ⟨fun n line hline => hnames ?_, hsub.trans hnames, fun x hx hfirst => ?_⟩
      · rcases mem_lines_makeCopy hline with hline | ⟨-, -, hline⟩
        · exact hclosed n line hline
        · exact hclosed l.id line hline
      · rcases List.mem_append.1 hx with hx | hx
        · exact hnames (hpass x hx hfirst)
        · exact List.mem_singleton.1 hx ▸ hself (List.mem_singleton.1 hx ▸ hfirst)
  obtain ⟨hclosed, hsub, hpass⟩ := hcopies (d.lines node) (h node)
  have hids : ∀ id ∈ ((d.lines node).filter fun line => line.build = .first).map Line.id,
      id ∈ ((d.lines node).foldl (makeCopy node) d).names ∧
        pass1 id ∈ ((d.lines node).foldl (makeCopy node) d).names := by
    intro id hid
    obtain ⟨l, hl, rfl⟩ := List.mem_map.1 hid
    obtain ⟨hl, hfirst⟩ := List.mem_filter.1 hl
    exact ⟨hsub (h node l hl), hpass l hl (by simpa using hfirst)⟩
  rw [Dir.processFirst]
  refine (List.foldlRecOn (motive := fun d' => Closed d' ∧
    ((d.lines node).foldl (makeCopy node) d).names ⊆ d'.names) _ _
    ⟨hclosed, Finset.Subset.refl _⟩ fun d' hd' id hid => ?_).1
  refine ⟨fun n line hline => names_useCopy ?_, hd'.2.trans names_useCopy⟩
  rcases mem_lines_useCopy hline with ⟨hline, -⟩ | ⟨-, hpass1, -⟩ | ⟨-, rfl⟩
  · exact hd'.1 n line hline
  · exact hpass1 ▸ hd'.2 (hids id hid).2
  · exact hd'.2 (hids id hid).1

/-- It brings no dependency after a package. -/
theorem not_has_after_processFirst (h : ∀ n, ¬Has d .after n) (n : Str) :
    ¬Has (d.processFirst node) .after n := by
  have hcopies : ∀ n, ¬Has ((d.lines node).foldl (makeCopy node) d) .after n := by
    refine List.foldlRecOn (motive := fun d' => ∀ n, ¬Has d' .after n) _ _ h fun d' hd' l _ n => ?_
    rintro ⟨line, hline, hb⟩
    rcases mem_lines_makeCopy hline with hline | ⟨-, -, hline⟩
    · exact hd' n ⟨line, hline, hb⟩
    · exact hd' l.id ⟨line, hline, hb⟩
  refine List.foldlRecOn (motive := fun d' => ∀ n, ¬Has d' .after n) _ _ hcopies
    (fun d' hd' id _ n => ?_) n
  rintro ⟨line, hline, hb⟩
  rcases mem_lines_useCopy hline with ⟨hline, -⟩ | ⟨-, -, hbefore | ⟨-, hhas⟩⟩ | ⟨-, rfl⟩
  · exact hd' n ⟨line, hline, hb⟩
  · rw [hb] at hbefore
    cases hbefore
  · exact hd' node (hb ▸ hhas)
  · cases hb

/-- No package that has to be built before another one for a first time depends in such a way on
    a third one. -/
def FirstSafe (d : Dir) : Prop :=
  ∀ n, ∀ line ∈ d.lines n, line.build = .first → ¬Has d .first line.id

/-- In such a graph, a round brings no lines with the qualifier `f`, and leaves none for the
    node. -/
theorem firsts_processFirst (h : FirstSafe d) (node : Str) :
    (∀ n, ∀ line ∈ (d.processFirst node).lines n, line.build = .first → line ∈ d.lines n) ∧
      ¬Has (d.processFirst node) .first node := by
  have hcopies : ∀ n, ∀ line ∈ ((d.lines node).foldl (makeCopy node) d).lines n,
      line.build = .first → line ∈ d.lines n := by
    refine List.foldlRecOn
      (motive := fun d' : Dir => ∀ n, ∀ line ∈ d'.lines n, line.build = .first → line ∈ d.lines n)
      _ _ (fun _ _ hline _ => hline) fun d' hd' l hl n line hline hb => ?_
    rcases mem_lines_makeCopy hline with hline | ⟨hfirst, -, hline⟩
    · exact hd' n line hline hb
    · exact absurd ⟨line, hd' l.id line hline hb, hb⟩ (h node l hl hfirst)
  -- The names of the lines that are still to be changed.
  suffices huse : ∀ (ids : List Str) (d' : Dir),
      (∀ n, ∀ line ∈ d'.lines n, line.build = .first → line ∈ d.lines n) →
      (∀ line ∈ d'.lines node, line.build = .first → line.id ∈ ids) →
      (∀ n, ∀ line ∈ (ids.foldl (useCopy node) d').lines n, line.build = .first →
        line ∈ d.lines n) ∧ ¬Has (ids.foldl (useCopy node) d') .first node by
    refine huse _ _ hcopies fun line hline hb => List.mem_map_of_mem (List.mem_filter.2 ⟨?_, ?_⟩)
    · exact hcopies node line hline hb
    · exact decide_eq_true hb
  intro ids
  induction ids with
  | nil =>
    intro d' hd' hids
    refine ⟨hd', ?_⟩
    rintro ⟨line, hline, hb⟩
    exact List.not_mem_nil (hids line hline hb)
  | cons id ids ih =>
    intro d' hd' hids
    have hline {n : Str} {line : Line Str} (hline : line ∈ (d'.useCopy node id).lines n)
        (hb : line.build = .first) : line ∈ d'.lines n ∧ (n = node → line.id ≠ id) := by
      rcases mem_lines_useCopy hline with hline | ⟨-, -, hbefore | ⟨hnot, -⟩⟩ | ⟨-, rfl⟩
      · exact hline
      · rw [hb] at hbefore
        cases hbefore
      · exact absurd hb hnot
      · cases hb
    refine ih _ (fun n line hl hb => hd' n line (hline hl hb).1 hb) fun line hl hb => ?_
    obtain ⟨hl, hne⟩ := hline hl hb
    exact (List.mem_cons.1 (hids line hl hb)).resolve_left (hne rfl)

theorem FirstSafe.mono (h : FirstSafe d) {d' : Dir}
    (hd : ∀ n, ∀ line ∈ d'.lines n, line.build = .first → line ∈ d.lines n) : FirstSafe d' := by
  rintro n line hline hb ⟨l, hl, hl'⟩
  exact h n line (hd n line hline hb) hb ⟨l, hd _ l hl hl', hl'⟩

theorem FirstSafe.processAfter (h : FirstSafe d) : FirstSafe (d.processAfter ls node) := by
  intro n line hline hb hhas
  have hhas := hhas.of_processAfter (by decide)
  cases (rounds_processAfter ls d node).1.lines n line hline with
  | same hl => exact h n _ hl hb hhas
  | renamed _ hnew =>
    -- The group is new in this round.
    obtain ⟨l, hl, -⟩ := hhas
    exact hnew (mem_names_of_mem hl)
  | new _ => cases hb

theorem foldl_processFirst (nodes : List Str) (h : FirstSafe d) (n : Str)
    (hhas : Has (nodes.foldl processFirst d) .first n) : Has d .first n ∧ n ∉ nodes := by
  induction nodes generalizing d with
  | nil => exact ⟨hhas, List.not_mem_nil⟩
  | cons m nodes ih =>
    obtain ⟨hfirsts, hnot⟩ := firsts_processFirst h m
    obtain ⟨hhas, hn⟩ := ih (h.mono hfirsts) hhas
    refine ⟨?_, fun hmem => ?_⟩
    · obtain ⟨line, hline, hb⟩ := hhas
      exact ⟨line, hfirsts n line hline hb, hb⟩
    · rcases List.mem_cons.1 hmem with rfl | hmem
      · exact hnot hhas
      · exact hn hmem

/-! ## The pass -/

theorem closed_cleanSubgraph (hroot : ∀ line ∈ d.lines root, line.id ∈ d.names) :
    (d.cleanSubgraph ls).Closed :=
  List.foldlRecOn (motive := Closed) _ _ (closed_processAfters ls (closed_removeDanglings hroot)).1
    fun _ h _ _ => h.processFirst

theorem not_has_after_cleanSubgraph (hroot : ∀ line ∈ d.lines root, line.id ∈ d.names) :
    ∀ n, ¬Has (d.cleanSubgraph ls) .after n :=
  List.foldlRecOn (motive := fun d' => ∀ n, ¬Has d' .after n) _ _
    (closed_processAfters ls (closed_removeDanglings hroot)).2
    fun _ h _ _ => not_has_after_processFirst h

theorem mem_removeDanglings (h : line ∈ (d.removeDanglings ls).lines n) : line ∈ d.lines n := by
  rw [removeDanglings, (foldl_removeDangling _ fun n hn => (ls.mem_list _ _).1 hn).2 n] at h
  split at h
  · exact List.mem_of_mem_filter h
  · exact h

theorem not_has_first_cleanSubgraph (h : d.FirstSafe) :
    ∀ n, ¬Has (d.cleanSubgraph ls) .first n := by
  have hafters : ((d.removeDanglings ls).processAfters ls).FirstSafe :=
    List.foldlRecOn (motive := FirstSafe) _ _ (h.mono fun _ _ hline _ => mem_removeDanglings hline)
      fun _ h _ _ => h.processAfter
  intro n hn
  obtain ⟨hhas, hnot⟩ := foldl_processFirst _ hafters n hn
  exact hnot (mem_listWith.2 hhas)

end

end Dir

open Dir

/-- What the pass leaves, if the requested packages have files: no edges to packages without a
    file, no dependencies after a package, and none before its first build, unless a package
    with such a dependency has to be built twice itself. -/
theorem cleanSubgraph_clean (ls : Listing) {d : Dir}
    (hroot : ∀ line ∈ d.lines root, line.id ∈ d.names) :
    (d.cleanSubgraph ls).Closed ∧ (∀ n, ¬(d.cleanSubgraph ls).Has .after n) ∧
      (d.FirstSafe → ∀ n, ¬(d.cleanSubgraph ls).Has .first n) :=
  ⟨closed_cleanSubgraph hroot, not_has_after_cleanSubgraph hroot, not_has_first_cleanSubgraph⟩

/-- A directory with some files. -/
def Dir.ofFiles (files : List (Str × List (Line Str))) : Dir where
  names := (files.map Prod.fst).toFinset
  lines n := (files.lookup n).getD []
  lines_eq_nil n hn := by
    have hnone : files.lookup n = none := by
      rw [List.lookup_eq_none_iff]
      intro p hp
      simp only [List.mem_toFinset, List.mem_map, not_exists, not_and] at hn
      simpa using fun h => hn p hp h.symm
    rw [hnone]
    rfl

/-- The order of the C locale. -/
def Listing.ofChars : Listing where
  list s := Quotient.liftOn s.val (List.insertionSort (· ≤ ·)) fun l l' h =>
    have hperm := (List.perm_insertionSort _ l).trans (h.trans (List.perm_insertionSort _ l').symm)
    hperm.eq_of_pairwise' (List.pairwise_insertionSort _ l) (List.pairwise_insertionSort _ l')
  mem_list s n := by
    rcases s with ⟨⟨l⟩, hl⟩
    exact (List.perm_insertionSort _ l).mem_iff

/-- Two libraries, each of which is needed for the first build of the one before it. -/
def firstChain : Dir := .ofFiles [
  (root, [⟨1, .before, "a".toList⟩]),
  ("a".toList, [⟨1, .first, "b".toList⟩]),
  ("b".toList, [⟨1, .first, "c".toList⟩]),
  ("c".toList, [])]

theorem cleanSubgraph_clean_chain : (firstChain.cleanSubgraph .ofChars).Closed ∧
    (∀ n, ¬(firstChain.cleanSubgraph .ofChars).Has .after n) ∧
    (firstChain.FirstSafe → ∀ n, ¬(firstChain.cleanSubgraph .ofChars).Has .first n) :=
  cleanSubgraph_clean .ofChars (by decide +kernel)

/-- The copy of the first library keeps its line for the second one. -/
example : (firstChain.cleanSubgraph .ofChars).lines "b-pass1".toList =
    [⟨1, .first, "c".toList⟩] := by decide +kernel

end LfsBuilder.Jhalfs
