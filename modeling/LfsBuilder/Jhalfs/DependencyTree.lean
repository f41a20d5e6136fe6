import LfsBuilder.Jhalfs.DependencyGraph
import LfsBuilder.Library.Postorder

/-!
# The dependency tree

The third pass of `BLFS/libs/func_dependencies`: a tree is made of the dependency graph,
with a file for each node, and the order of the build is read off it. A file begins with
the *link* of its node, the positions of the lines that lead to it from the root, and with
the weights of these lines. When the pass comes back to a node on the way to where it is,
it drops the line that it has followed, or, if there is a lighter one on the way, goes
back to the parent of the node, to try it in another order.

* `generateDependencyTree`, `treeBrowse`: the pass, and the order of the build;
* `Visits`: where the lines on a cycle have the same weight, what the loop over the lines of
  a node does, by what a depth-first traversal of the graph does (`Leaves`);
* `exists_leaves`, `buildOrder_postorder`: there the pass comes to an end, with an order that
  respects all dependencies but those on a cycle.
-/

namespace LfsBuilder.Jhalfs

open DepthFirst Relation

variable {α : Type*} [DecidableEq α]

/-- A file `<node>.tree`. A node without dependencies has only a link. -/
structure Tree (α : Type*) where
  rootlink : List ℕ
  priolink : List ℕ
  lines : List (Line α)

/-- The files `<node>.tree`, where `none` is the root. -/
abbrev Trees (α : Type*) := Option α → Option (Tree α)

/-- What a name stands for in the shell. -/
structure Names (α : Type*) where
  /-- The names of the nodes, in the order in which `*.tree` lists them. -/
  sorted : List (Option α)
  /-- Whether the name, as a pattern, is found in a line. -/
  occurs : α → Line α → Bool

/-- The files `<node>.dep` and `<node>.tree`, where `none` is the root, and `parentNode`. -/
structure Forest (α : Type*) where
  deps : Option α → List (Line α)
  trees : Trees α
  parentNode : Option (Option α)

/-- How `generate_dependency_tree` ends. -/
inductive Ending
  | returned (status : ℕ)
  | exited
  deriving DecidableEq

/-- How a round of its loop ends. -/
inductive Round (α : Type*)
  | next (linesToRemove : List α)
  | back (status : ℕ)
  | exit

/-- The pattern `^[[:digit:]] b id$`. -/
def isEntry (id : α) (line : Line α) : Bool := line.build = .before ∧ line.id = id

/-- The last line for the dependency `id` is deleted, or everything if there is none. -/
def Tree.remove (t : Tree α) (id : α) : Tree α :=
  if t.lines.any (isEntry id) then
    { t with lines := (t.lines.reverse.eraseP (isEntry id)).reverse }
  else ⟨[], [], []⟩

/-- The text of a link, with a space at its end, begins with that of another one. -/
def isBelow (link above : List ℕ) : Bool :=
  if above = [] then link = [] else above.isPrefixOf link

namespace Forest

def setTree (f : Forest α) (node : Option α) (t : Tree α) : Forest α :=
  { f with trees := Function.update f.trees node (some t) }

/-- `sed -i "/id/d"` on the file `<node>.dep`. -/
def dropDeps (names : Names α) (f : Forest α) (node : Option α) (id : α) : Forest α :=
  { f with
    deps := Function.update f.deps node ((f.deps node).filter fun line => !names.occurs id line) }

/-- The first of the files that begin with a link becomes the parent. -/
def findParent (names : Names α) (f : Forest α) (link : List ℕ) : Forest α :=
  match names.sorted.find? fun node => (f.trees node).any fun t => t.rootlink = link with
  | some node => { f with parentNode := some node }
  | none => f

/-- A line is added to the two files of the parent. -/
def addToParent (f : Forest α) (line : Line α) : Forest α :=
  match f.parentNode with
  | some node =>
    { f with
      trees := Function.update f.trees node
        ((f.trees node).map fun t => { t with lines := t.lines ++ [line] })
      deps := Function.update f.deps node (f.deps node ++ [line]) }
  | none => f

/-- The lines for the dependencies in a list are removed from the file of a node. -/
def removeLines (f : Forest α) (node : Option α) (linesToRemove : List α) : Forest α :=
  { f with
    trees := Function.update f.trees node
      ((f.trees node).map fun t => linesToRemove.foldl Tree.remove t) }

section

variable {f : Forest α} {node x : Option α}

theorem setTree_self {t : Tree α} : (f.setTree node t).trees node = some t :=
  Function.update_self ..

theorem setTree_of_ne {t : Tree α} (h : x ≠ node) : (f.setTree node t).trees x = f.trees x :=
  Function.update_of_ne h _ _

theorem removeLines_self {ids : List α} : (f.removeLines node ids).trees node =
    (f.trees node).map fun t => ids.foldl Tree.remove t := Function.update_self ..

theorem removeLines_of_ne {ids : List α} (h : x ≠ node) :
    (f.removeLines node ids).trees x = f.trees x := Function.update_of_ne h _ _

end

end Forest

/-- The subtrees of some lines, for `tree_erase`: those in other branches stay, and so do those
    that the node is in itself. -/
def eraseLines (erase : α → Trees α → Option (Trees α)) (rootlink : List ℕ) :
    List (Line α) → Trees α → Option (Trees α)
  | [], trees => some trees
  | line :: lines, trees =>
    match trees (some line.id) with
    | some t =>
      if isBelow t.rootlink rootlink && !isBelow rootlink t.rootlink then
        (erase line.id trees).bind (eraseLines erase rootlink lines)
      else eraseLines erase rootlink lines trees
    | none => eraseLines erase rootlink lines trees

/-- `tree_erase`, as long as `calls` suffice. -/
def treeErase : (calls : ℕ) → α → Trees α → Option (Trees α)
  | 0, _, _ => none
  | calls + 1, node, trees =>
    match trees (some node) with
    | some t => (eraseLines (treeErase calls) t.rootlink t.lines trees).map
        fun trees => Function.update trees (some node) none
    | none => some trees

/-- The greatest weight on the branch from the node with the link `otherlink` to the one whose
    weights are `priolink`. -/
def heaviest (priolink otherlink : List ℕ) : ℕ := (priolink.drop otherlink.length).foldl max 0

/-- A round of the loop of `generate_dependency_tree`, for the line with the number `count` in the
    file of `node`, which began with `t`. -/
def visitLine (names : Names α) (subtree : α → Forest α → Option (Ending × Forest α))
    (erase : α → Trees α → Option (Trees α)) (node : Option α) (t : Tree α) (count : ℕ)
    (line : Line α) (linesToRemove : List α) (f : Forest α) : Option (Round α × Forest α) :=
  match f.trees (some line.id) with
  | some other =>
    if other.rootlink = [] then some (.exit, f)
    else if isBelow t.rootlink other.rootlink then
      -- A circular dependency.
      if heaviest t.priolink other.rootlink ≤ line.prio then
        some (.next (linesToRemove ++ [line.id]), f.dropDeps names node line.id)
      else
        some (.back (heaviest t.priolink other.rootlink),
          f.findParent names other.rootlink.dropLast)
    else some (.next (linesToRemove ++ [line.id]), f)
  | none =>
    if f.deps (some line.id) = [] then
      some (.next linesToRemove, f.setTree (some line.id) ⟨t.rootlink ++ [count], [], []⟩)
    else
      let f := f.setTree (some line.id)
        ⟨t.rootlink ++ [count], t.priolink ++ [line.prio], f.deps (some line.id)⟩
      match subtree line.id f with
      | none => none
      | some (.exited, f) => some (.exit, f)
      | some (.returned p2, f) =>
        if p2 = 0 then some (.next linesToRemove, f)
        else if p2 = line.prio then
          (erase line.id f.trees).map fun trees =>
            (.next (linesToRemove ++ [line.id]),
              (({ f with trees }).dropDeps names node line.id).addToParent
                { line with build := .before })
        else some (.back p2, f)

mutual

/-- `generate_dependency_tree`, as long as `calls` suffice. -/
def generateDependencyTree (names : Names α) :
    (calls : ℕ) → Option α → Forest α → Option (Ending × Forest α)
  | 0, _, _ => none
  | calls + 1, node, f =>
    match f.trees node with
    | some t => readLines names calls node t 0 [] f
    | none => some (.returned 0, f)

/-- Its loop, from the line after the first `count`. Lines may be added to the file that it reads,
    and are read too. -/
def readLines (names : Names α) : (calls : ℕ) → Option α → Tree α → (count : ℕ) →
    (linesToRemove : List α) → Forest α → Option (Ending × Forest α)
  | 0, _, _, _, _, _ => none
  | calls + 1, node, t, count, linesToRemove, f =>
    match (f.trees node).bind (·.lines[count]?) with
    | none => some (.returned 0, f.removeLines node linesToRemove)
    | some line =>
      match visitLine names (fun id => generateDependencyTree names calls (some id))
          (treeErase calls) node t (count + 1) line linesToRemove f with
      | none => none
      | some (.exit, f) => some (.exited, f)
      | some (.back p2, f) => some (.returned p2, f)
      | some (.next linesToRemove, f) => readLines names calls node t (count + 1) linesToRemove f

end

/-- The nodes that `tree_browse` prints for some lines. -/
def browseLines (browse : α → Option (List α)) (trees : Trees α) :
    List (Line α) → Option (List α)
  | [] => some []
  | line :: lines =>
    (if (trees (some line.id)).any (·.lines ≠ []) then browse line.id else some []).bind
      fun below => (browseLines browse trees lines).map fun rest => below ++ line.id :: rest

/-- `tree_browse`, as long as `calls` suffice. -/
def treeBrowse (trees : Trees α) : (calls : ℕ) → Option α → Option (List α)
  | 0, _ => none
  | calls + 1, node => browseLines (fun id => treeBrowse trees calls (some id)) trees
      (((trees node).map Tree.lines).getD [])

/-- The files before the pass: `root.tree` is `root.dep` after the link and the weight of the
    root. -/
def Forest.start (deps : Option α → List (Line α)) : Forest α where
  deps := deps
  trees
    | none => some ⟨[1], [1], deps none⟩
    | some _ => none
  parentNode := none

/-- The whole pass: what is printed from the tree, if the script has not been exited. -/
def buildOrder (names : Names α) (deps : Option α → List (Line α)) (calls : ℕ) :
    Option (Option (List α)) :=
  match generateDependencyTree names calls none (.start deps) with
  | none => none
  | some (.exited, _) => some none
  | some (.returned _, f) => (treeBrowse f.trees calls none).map some

/-! ## Links -/

/-- The link `l` leads to an earlier branch than `l'`. -/
def IsLeftOf (l l' : List ℕ) : Prop :=
  ∃ p a b s t, l = p ++ a :: s ∧ l' = p ++ b :: t ∧ a < b

theorem IsLeftOf.not_isPrefix {l l' t : List ℕ} (h : IsLeftOf l l') : ¬l <+: l' ++ t := by
  obtain ⟨p, a, b, s, t', rfl, rfl, hab⟩ := h
  rw [List.append_assoc, List.prefix_append_right_inj, List.cons_append, List.cons_prefix_cons]
  exact fun h => hab.ne h.1

theorem IsLeftOf.ne_nil {l l' : List ℕ} (h : IsLeftOf l l') : l ≠ [] := by
  obtain ⟨p, a, b, s, t, rfl, rfl, hab⟩ := h
  simp

/-- To be left of a position is to be left of the later ones. -/
theorem IsLeftOf.mono {l r : List ℕ} {c c' : ℕ} (h : IsLeftOf l (r ++ [c])) (hc : c ≤ c') :
    IsLeftOf l (r ++ [c']) := by
  obtain ⟨p, a, b, s, t, rfl, ht, hab⟩ := h
  rcases List.eq_nil_or_concat t with rfl | ⟨t, x, rfl⟩
  · obtain ⟨rfl, hcb⟩ := List.append_inj' ht rfl
    obtain rfl : c = b := by simpa using hcb
    exact ⟨r, a, c', s, [], rfl, rfl, hab.trans_le hc⟩
  · rw [List.concat_eq_append, ← List.cons_append, ← List.append_assoc] at ht
    obtain ⟨rfl, -⟩ := List.append_inj' ht rfl
    exact ⟨p, a, b, s, t ++ [c'], rfl, by simp, hab⟩

/-- What is left of a position is left of what is below it. -/
theorem IsLeftOf.append {l l' : List ℕ} (h : IsLeftOf l l') (t : List ℕ) :
    IsLeftOf l (l' ++ t) := by
  obtain ⟨p, a, b, s, t', rfl, rfl, hab⟩ := h
  exact ⟨p, a, b, s, t' ++ t, rfl, by simp, hab⟩

theorem isLeftOf_below {r s : List ℕ} {a b : ℕ} (h : a < b) : IsLeftOf (r ++ a :: s) (r ++ [b]) :=
  ⟨r, a, b, s, [], rfl, rfl, h⟩

theorem isBelow_iff {link above : List ℕ} (h : above ≠ []) :
    isBelow link above = true ↔ above <+: link := by
  rw [isBelow, if_neg h, List.isPrefixOf_iff_prefix]

/-! ## Lines that are removed -/

/-- The file with one more line. -/
def Tree.snoc (t : Tree α) (line : Line α) : Tree α := { t with lines := t.lines ++ [line] }

theorem remove_snoc_self {t : Tree α} {line : Line α} (hb : line.build = .before) :
    (t.snoc line).remove line.id = t := by
  have hentry : isEntry line.id line = true := by simp [isEntry, hb]
  simp [Tree.remove, Tree.snoc, hentry]

theorem remove_snoc_of_ne {t : Tree α} {line : Line α} {id : α} (hid : id ≠ line.id)
    (ht : (t.remove id).rootlink ≠ []) : (t.snoc line).remove id = (t.remove id).snoc line := by
  have hentry : isEntry id line = false := by simp [isEntry, hid.symm]
  rw [Tree.remove] at ht ⊢
  split at ht
  · next hany => simp [Tree.remove, Tree.snoc, hentry, hany]
  · exact absurd rfl ht

theorem any_eraseP {l : List (Line α)} {a b : α} (hab : a ≠ b) :
    (l.reverse.eraseP (isEntry a)).reverse.any (isEntry b) = l.any (isEntry b) := by
  rw [Bool.eq_iff_iff, List.any_eq_true, List.any_eq_true]
  refine exists_congr fun x => and_congr_left fun hx => ?_
  have hxa : ¬isEntry a x = true := by
    simp only [isEntry, Bool.decide_and, Bool.and_eq_true, decide_eq_true_eq] at hx ⊢
    exact fun h => hab (h.2.symm.trans hx.2)
  rw [List.mem_reverse, List.mem_eraseP_of_neg hxa, List.mem_reverse]

theorem remove_comm (t : Tree α) (a b : α) : (t.remove a).remove b = (t.remove b).remove a := by
  by_cases hab : a = b
  · rw [hab]
  have hswap : (t.lines.reverse.eraseP (isEntry a)).eraseP (isEntry b) =
      (t.lines.reverse.eraseP (isEntry b)).eraseP (isEntry a) := by
    refine List.eraseP_comm fun x _ => ?_
    simp only [isEntry, Bool.decide_and, Bool.and_eq_true, decide_eq_true_eq]
    by_cases hx : x.id = a
    · exact .inr fun h => hab (hx.symm.trans h.2)
    · exact .inl fun h => hx h.2
  by_cases ha : t.lines.any (isEntry a) = true <;> by_cases hb : t.lines.any (isEntry b) = true <;>
    simp [Tree.remove, ha, hb, any_eraseP hab, any_eraseP (Ne.symm hab), hswap]

theorem foldl_remove_comm (t : Tree α) (a : α) (ids : List α) :
    ids.foldl Tree.remove (t.remove a) = (ids.foldl Tree.remove t).remove a := by
  induction ids generalizing t with
  | nil => rfl
  | cons b ids ih => rw [List.foldl_cons, List.foldl_cons, remove_comm, ih]

/-- Once the link is gone, it stays so. -/
theorem foldl_remove_rootlink {t : Tree α} (h : t.rootlink = []) (ids : List α) :
    (ids.foldl Tree.remove t).rootlink = [] := by
  induction ids generalizing t with
  | nil => exact h
  | cons a ids ih =>
    refine ih ?_
    rw [Tree.remove]
    split
    · exact h
    · rfl

theorem foldl_remove_snoc {t : Tree α} {line : Line α} {ids : List α} (hid : line.id ∉ ids)
    (ht : (ids.foldl Tree.remove t).rootlink ≠ []) :
    ids.foldl Tree.remove (t.snoc line) = (ids.foldl Tree.remove t).snoc line := by
  induction ids generalizing t with
  | nil => rfl
  | cons a ids ih =>
    rw [List.mem_cons, not_or] at hid
    rw [List.foldl_cons] at ht ⊢
    have hta : (t.remove a).rootlink ≠ [] := fun he => ht (foldl_remove_rootlink he ids)
    rw [remove_snoc_of_ne (Ne.symm hid.1) hta, List.foldl_cons, ih hid.2 ht]

/-- Of the lines in `done`, those in `kept` are kept: the first one for a dependency can be, and
    the others are in the list of those to be removed. -/
inductive Pruned : (done : List (Line α)) → (linesToRemove : List α) → (kept : List (Line α)) → Prop
  | nil : Pruned [] [] []
  | keep {done kept : List (Line α)} {ids : List α} {line : Line α} : Pruned done ids kept →
      line.id ∉ ids → Pruned (done ++ [line]) ids (kept ++ [line])
  | drop {done kept : List (Line α)} {ids : List α} {line : Line α} : Pruned done ids kept →
      line.build = .before → Pruned (done ++ [line]) (ids ++ [line.id]) kept

/-- What is left when the lines are removed: a removal takes the last line that matches, so
    the first one stays. -/
theorem Pruned.foldl_remove {done kept : List (Line α)} {ids : List α} (h : Pruned done ids kept)
    {r W : List ℕ} (hr : r ≠ []) : ids.foldl Tree.remove ⟨r, W, done⟩ = ⟨r, W, kept⟩ := by
  induction h with
  | nil => rfl
  | @keep done kept ids line _ hid ih =>
    have hsnoc := foldl_remove_snoc (t := ⟨r, W, done⟩) hid (by rw [ih]; exact hr)
    rw [ih] at hsnoc
    exact hsnoc
  | @drop done kept ids line _ hb ih =>
    have hself : Tree.remove ⟨r, W, done ++ [line]⟩ line.id = ⟨r, W, done⟩ :=
      remove_snoc_self (t := ⟨r, W, done⟩) hb
    rw [List.foldl_append, List.foldl_cons, List.foldl_nil, ← foldl_remove_comm, hself, ih]

/-! ## What is printed -/

variable {trees trees' : Trees α}

/-- The nodes that are printed for some lines: for each, those below it, and itself. -/
inductive Prints (trees : Trees α) : List (Line α) → List α → Prop
  | nil : Prints trees [] []
  | cons {line : Line α} {lines : List (Line α)} {t : Tree α} {below rest : List α} :
      trees (some line.id) = some t → Prints trees t.lines below → Prints trees lines rest →
      Prints trees (line :: lines) (below ++ line.id :: rest)

namespace Prints

variable {lines lines' : List (Line α)} {out out' : List α}

omit [DecidableEq α]

theorem append (h : Prints trees lines out) (h' : Prints trees lines' out') :
    Prints trees (lines ++ lines') (out ++ out') := by
  induction h with
  | nil => exact h'
  | cons ht hb _ _ ih =>
    rw [List.append_assoc, List.cons_append, List.cons_append]
    exact .cons ht hb ih

/-- It depends on the files of the nodes that are printed. -/
theorem congr (h : Prints trees lines out) (hsame : ∀ d ∈ out, trees' (some d) = trees (some d)) :
    Prints trees' lines out := by
  induction h with
  | nil => exact .nil
  | cons ht _ _ ihb ih =>
    refine .cons ((hsame _ (by simp)).trans ht) (ihb fun d hd => hsame d (by simp [hd]))
      (ih fun d hd => hsame d (by simp [hd]))

/-- The nodes are printed by `tree_browse`. -/
theorem browse (h : Prints trees lines out) : ∃ calls₀, ∀ calls ≥ calls₀,
    browseLines (fun id => treeBrowse trees calls (some id)) trees lines = some out := by
  induction h with
  | nil => exact ⟨0, fun _ _ => rfl⟩
  | @cons line lines t below rest ht hb _ ihb ih =>
    obtain ⟨n, hn⟩ := ihb
    obtain ⟨m, hm⟩ := ih
    refine ⟨max (n + 1) m, fun calls hcalls => ?_⟩
    obtain ⟨calls, rfl⟩ : ∃ k, calls = k + 1 := ⟨calls - 1, by omega⟩
    rw [browseLines, hm (calls + 1) (by omega), ht]
    have hbelow : (if (some t : Option (Tree α)).any (·.lines ≠ []) then
        treeBrowse trees (calls + 1) (some line.id) else some []) = some below := by
      split
      · rw [treeBrowse, ht]
        exact hn calls (by omega)
      · next hempty =>
        have hnil : t.lines = [] := by simpa using hempty
        rw [hnil] at hb
        cases hb
        rfl
    rw [hbelow, Option.bind_some, Option.map_some]

end Prints

/-! ## The traversal -/

variable {names : Names α} {deps : Option α → List (Line α)}

omit [DecidableEq α] in
/-- The nodes that a node depends on. -/
def below (deps : Option α → List (Line α)) (n : α) : List α := (deps (some n)).map Line.id

/-- The lines on a cycle have the same weight. -/
def EvenCycles (deps : Option α → List (Line α)) : Prop :=
  ∀ n n' : α, ∀ line ∈ deps (some n), ∀ line' ∈ deps (some n'), Reach (below deps) line.id n' →
    Reach (below deps) line'.id n → line'.prio ≤ line.prio

/-- The node that a path of lines leads to, the last line first. -/
def target (path : List (Line α)) : Option α := path.head?.map Line.id

/-- Each line of the path is a line of the node that the path before it leads to. -/
def IsPath (deps : Option α → List (Line α)) (path : List (Line α)) : Prop :=
  ∀ line rest, line :: rest <:+ path → line ∈ deps (target rest)

/-- The state of the traversal at the node that the path leads to, whose link is `r`, after
    `count` of its lines, when the nodes `o` are left. -/
structure At (deps : Option α → List (Line α)) (path : List (Line α)) (r : List ℕ) (count : ℕ)
    (o : List α) (f : Forest α) : Prop where
  seen : ∀ d, f.trees (some d) ≠ none ↔ d ∈ o ∨ d ∈ path.map Line.id
  above : ∀ line rest, line :: rest <:+ path → ∃ t, f.trees (some line.id) = some t ∧
    t.rootlink <+: r ∧ t.rootlink.length = rest.length + 2
  left : ∀ d ∈ o, ∃ t, f.trees (some d) = some t ∧ IsLeftOf t.rootlink (r ++ [count + 1])
  deps : ∀ d, d ∉ o → d ∉ path.map Line.id → f.deps (some d) = deps (some d)
  notOpen : ∀ d ∈ o, d ∉ path.map Line.id

/-- What the lines up to the one with the number `count'` change. -/
structure Grows (path : List (Line α)) (r : List ℕ) (count count' : ℕ) (o o' : List α)
    (f f' : Forest α) : Prop where
  trees : ∀ x, (∀ d ∈ o', d ∉ o → x ≠ some d) → f'.trees x = f.trees x
  new : ∀ d ∈ o', d ∉ o → ∃ t, f'.trees (some d) = some t ∧
    ∃ k s, count < k ∧ k ≤ count' ∧ t.rootlink = r ++ k :: s
  deps : ∀ d, d ∉ o' → d ∉ path.map Line.id → f'.deps (some d) = f.deps (some d)

section

variable {path : List (Line α)} {r : List ℕ} {c c' c'' : ℕ} {o o' o'' : List α}
  {f f' f'' : Forest α} {line : Line α}

omit [DecidableEq α]

theorem Grows.refl : Grows path r c c o o f f :=
  ⟨fun _ _ => rfl, fun _ hd hdo => absurd hd hdo, fun _ _ _ => rfl⟩

theorem Grows.trans (h : Grows path r c c' o o' f f') (h' : Grows path r c' c'' o' o'' f' f'')
    (hc : c ≤ c') (hc' : c' ≤ c'') (ho : o ⊆ o') (ho' : o' ⊆ o'') :
    Grows path r c c'' o o'' f f'' where
  trees x hx := (h'.trees x fun d hd hdo => hx d hd fun hdo' => hdo (ho hdo')).trans
    (h.trees x fun d hd => hx d (ho' hd))
  new d hd hdo := by
    by_cases hd' : d ∈ o'
    · obtain ⟨t, ht, k, s, hk, hk', hr⟩ := h.new d hd' hdo
      have hsame := h'.trees (some d) fun e _ he heq => he (Option.some_inj.1 heq ▸ hd')
      exact ⟨t, hsame.trans ht, k, s, hk, hk'.trans hc', hr⟩
    · obtain ⟨t, ht, k, s, hk, hk', hr⟩ := h'.new d hd hd'
      exact ⟨t, ht, k, s, hc.trans_lt hk, hk', hr⟩
  deps d hd hg := (h'.deps d hd hg).trans (h.deps d (fun hdo => hd (ho' hdo)) hg)

/-- The state after some more lines. -/
theorem At.grows (h : At deps path r c o f) (hf : Grows path r c c' o o' f f') (hc : c ≤ c')
    (ho : o ⊆ o') (hopen : ∀ d ∈ o', d ∉ path.map Line.id) : At deps path r c' o' f' := by
  have hsame {d : α} (hd : d ∈ o' → d ∈ o) : f'.trees (some d) = f.trees (some d) := by
    refine hf.trees _ fun e he heo heq => ?_
    obtain rfl := Option.some_inj.1 heq
    exact heo (hd he)
  refine ⟨fun d => ?_, fun line rest hp => ?_, fun d hd => ?_, fun d hd hg => ?_, hopen⟩
  · by_cases hd : d ∈ o' → d ∈ o
    · rw [hsame hd, h.seen]
      exact or_congr_left ⟨fun h => ho h, hd⟩
    · push Not at hd
      obtain ⟨t, ht, -⟩ := hf.new d hd.1 hd.2
      exact iff_of_true (by rw [ht]; exact Option.some_ne_none t) (.inl hd.1)
  · have hmem : line.id ∈ path.map Line.id :=
      List.mem_map_of_mem (hp.subset List.mem_cons_self)
    rw [hsame fun hd => absurd hmem (hopen _ hd)]
    exact h.above line rest hp
  · by_cases hdo : d ∈ o
    · obtain ⟨t, ht, hleft⟩ := h.left d hdo
      exact ⟨t, (hsame fun _ => hdo).trans ht, hleft.mono (by omega)⟩
    · obtain ⟨t, ht, k, s, -, hk, hr⟩ := hf.new d hd hdo
      exact ⟨t, ht, hr ▸ isLeftOf_below (by omega)⟩
  · exact (hf.deps d hd hg).trans (h.deps d (fun hdo => hd (ho hdo)) hg)

theorem IsPath.mono {rest : List (Line α)} (h : IsPath deps path) (hrest : rest <:+ path) :
    IsPath deps rest := fun l _ hp => h l _ (hp.trans hrest)

theorem IsPath.cons (h : IsPath deps path) (hline : line ∈ deps (target path)) :
    IsPath deps (line :: path) := by
  intro l rest hp
  rcases List.suffix_cons_iff.1 hp with heq | hp
  · obtain ⟨rfl, rfl⟩ := List.cons.inj heq
    exact hline
  · exact h l rest hp

/-- A node on a path reaches the one that the path leads to. -/
theorem IsPath.reach {top : Line α} (h : IsPath deps (top :: path)) :
    ∀ l ∈ top :: path, Reach (below deps) l.id top.id := by
  induction path generalizing top with
  | nil =>
    intro l hl
    exact List.mem_singleton.1 hl ▸ .refl
  | cons next path ih =>
    have hnext : IsPath deps (next :: path) := h.mono (List.suffix_cons _ _)
    have hedge : Edge (below deps) next.id top.id :=
      List.mem_map_of_mem (h top (next :: path) List.suffix_rfl)
    intro l hl
    rcases List.mem_cons.1 hl with rfl | hl
    · exact .refl
    · exact (ih hnext l hl).tail hedge

/-- The weights of the lines of a path, and that of the root. -/
def weights (path : List (Line α)) : List ℕ := 1 :: (path.map Line.prio).reverse

theorem foldl_max_le {l : List ℕ} {m n : ℕ} (hm : m ≤ n) (h : ∀ x ∈ l, x ≤ n) :
    l.foldl max m ≤ n := by
  induction l generalizing m with
  | nil => exact hm
  | cons x l ih =>
    exact ih (max_le hm (h x List.mem_cons_self)) fun y hy => h y (List.mem_cons_of_mem _ hy)

/-- Where a line leads back to a node on the path, no line on the way from there is heavier. -/
theorem heaviest_le (heven : EvenCycles deps) (hpath : IsPath deps path)
    (hline : line ∈ deps (target path)) {l : Line α} {rest : List (Line α)}
    (hl : l :: rest <:+ path) (hid : l.id = line.id) {link : List ℕ}
    (hlink : link.length = rest.length + 2) : heaviest (weights path) link ≤ line.prio := by
  obtain ⟨q, rfl⟩ := hl
  have hdrop : (weights (q ++ l :: rest)).drop link.length = (q.map Line.prio).reverse := by
    rw [hlink, weights, List.drop_succ_cons, List.map_append, List.reverse_append]
    exact List.drop_left' (by simp)
  rw [heaviest, hdrop]
  refine foldl_max_le (Nat.zero_le _) fun w hw => ?_
  obtain ⟨m, hm, rfl⟩ := List.mem_map.1 (List.mem_reverse.1 hw)
  obtain ⟨q₁, q₂, rfl⟩ := List.append_of_mem hm
  -- The line `m` is one of the node `b`, and the path leads to `a`.
  obtain ⟨b, tail, htail⟩ : ∃ b tail, q₂ ++ l :: rest = b :: tail :=
    List.exists_cons_of_ne_nil (by simp)
  rw [List.append_assoc, List.cons_append, htail] at hpath hline
  have hm : m ∈ deps (some b.id) := hpath m (b :: tail) (List.suffix_append _ _)
  have hlb : Reach (below deps) l.id b.id :=
    (hpath.mono ((List.suffix_cons _ _).trans (List.suffix_append _ _))).reach l (htail ▸ by simp)
  obtain ⟨a, head, hhead⟩ : ∃ a head, q₁ ++ m :: b :: tail = a :: head :=
    List.exists_cons_of_ne_nil (by simp)
  rw [hhead] at hpath hline
  exact heven a.id b.id line hline m hm (hid ▸ hlb) (hpath.reach m (hhead ▸ by simp))

end

/-! ## A round of the loop -/

section

variable {path : List (Line α)} {r : List ℕ} {c : ℕ} {o ids : List α} {f : Forest α} {line : Line α}
  {subtree : α → Forest α → Option (Ending × Forest α)} {erase : α → Trees α → Option (Trees α)}
  {node : Option α} {L : List (Line α)}

/-- A line for a node that is left is dropped. -/
theorem visitLine_left (h : At deps path r c o f) (hline : line.id ∈ o) :
    visitLine names subtree erase node ⟨r, weights path, L⟩ (c + 1) line ids f =
      some (.next (ids ++ [line.id]), f) := by
  obtain ⟨t, ht, hleft⟩ := h.left _ hline
  have hbelow : ¬isBelow r t.rootlink = true := by
    rw [isBelow_iff hleft.ne_nil]
    intro hp
    have hnot := hleft.not_isPrefix (t := [])
    rw [List.append_nil] at hnot
    exact hnot (hp.trans (List.prefix_append _ _))
  rw [visitLine, ht]
  dsimp only
  rw [if_neg hleft.ne_nil, if_neg hbelow]

/-- A line back to a node on the path is dropped too, as no line between them is heavier. -/
theorem visitLine_back (heven : EvenCycles deps) (hpath : IsPath deps path)
    (h : At deps path r c o f) (hmem : line ∈ deps (target path))
    (hline : line.id ∈ path.map Line.id) :
    visitLine names subtree erase node ⟨r, weights path, L⟩ (c + 1) line ids f =
      some (.next (ids ++ [line.id]), f.dropDeps names node line.id) := by
  obtain ⟨l, hl, hid⟩ := List.mem_map.1 hline
  obtain ⟨q, rest, hq⟩ := List.append_of_mem hl
  have hsuf : l :: rest <:+ path := hq ▸ List.suffix_append _ _
  obtain ⟨t, ht, hpre, hlen⟩ := h.above l rest hsuf
  have hne : t.rootlink ≠ [] := by
    intro he
    rw [he] at hlen
    cases hlen
  rw [visitLine, ← hid, ht]
  dsimp only
  rw [if_neg hne, if_pos ((isBelow_iff hne).2 hpre),
    if_pos (heaviest_le heven hpath hmem hsuf hid hlen)]

/-- What a line back to the path changes. -/
theorem grows_dropDeps {id : α} :
    Grows path r c (c + 1) o o f (f.dropDeps names (target path) id) := by
  refine ⟨fun _ _ => rfl, fun _ hd hdo => absurd hd hdo, fun d _ hd => ?_⟩
  refine Function.update_of_ne (fun heq => hd ?_) _ _
  cases path with
  | nil => cases heq
  | cons top path => exact List.mem_map.2 ⟨top, List.mem_cons_self, (Option.some_inj.1 heq).symm⟩

/-- The files when the traversal comes to a new node. -/
theorem At.child (h : At deps path r c o f) (hlen : r.length = path.length + 1)
    (hline : line.id ∉ o) (hopen : line.id ∉ path.map Line.id) {t : Tree α}
    (ht : t.rootlink = r ++ [c + 1]) :
    At deps (line :: path) (r ++ [c + 1]) 0 o (f.setTree (some line.id) t) := by
  have hsame {d : α} (hd : d ≠ line.id) :
      (f.setTree (some line.id) t).trees (some d) = f.trees (some d) :=
    Forest.setTree_of_ne (by simpa using hd)
  have hself : (f.setTree (some line.id) t).trees (some line.id) = some t := Forest.setTree_self
  refine ⟨fun d => ?_, fun l rest hp => ?_, fun d hd => ?_, fun d hd hg => ?_, fun d hd => ?_⟩
  · by_cases hd : d = line.id
    · subst hd
      rw [hself]
      simp
    · rw [hsame hd, h.seen]
      simp [hd]
  · rcases List.suffix_cons_iff.1 hp with heq | hp
    · obtain ⟨rfl, rfl⟩ := List.cons.inj heq
      exact ⟨t, hself, ht ▸ List.prefix_rfl, by simp [ht, hlen]⟩
    · obtain ⟨t', ht', hpre, hlen'⟩ := h.above l rest hp
      have hne : l.id ≠ line.id := ne_of_mem_of_not_mem
        (List.mem_map_of_mem (hp.subset List.mem_cons_self)) hopen
      exact ⟨t', (hsame hne).trans ht', hpre.trans (List.prefix_append _ _), hlen'⟩
  · obtain ⟨t', ht', hleft⟩ := h.left d hd
    exact ⟨t', (hsame (ne_of_mem_of_not_mem hd hline)).trans ht', hleft.append _⟩
  · rw [List.map_cons, List.mem_cons, not_or] at hg
    exact h.deps d hd hg.2
  · rw [List.map_cons, List.mem_cons, not_or]
    exact ⟨ne_of_mem_of_not_mem hd hline, h.notOpen d hd⟩

/-- What the visit of a new node changes, for the node that it is a dependency of. -/
theorem Grows.of_child {o' : List α} {n : ℕ} {t t' : Tree α} {f' f'' : Forest α}
    (h : Grows (line :: path) (r ++ [c + 1]) 0 n o o' (f.setTree (some line.id) t) f')
    (hline : line.id ∉ o) (hopen : line.id ∉ o') (ht : f''.trees (some line.id) = some t')
    (hr : t'.rootlink = r ++ [c + 1]) (htrees : ∀ x, x ≠ some line.id → f''.trees x = f'.trees x)
    (hdeps : f''.deps = f'.deps) : Grows path r c (c + 1) o (o' ++ [line.id]) f f'' where
  trees x hx := by
    have hne : x ≠ some line.id := hx _ (by simp) hline
    rw [htrees x hne, h.trees x fun d hd => hx d (List.mem_append_left _ hd)]
    exact Forest.setTree_of_ne hne
  new d hd hdo := by
    rcases List.mem_append.1 hd with hd | hd
    · obtain ⟨t, ht, k, s, -, -, hs⟩ := h.new d hd hdo
      have hne : some d ≠ some line.id := by simpa using ne_of_mem_of_not_mem hd hopen
      exact ⟨t, (htrees _ hne).trans ht, c + 1, k :: s, by omega, le_rfl, by simp [hs]⟩
    · rw [List.mem_singleton.1 hd]
      exact ⟨t', ht, c + 1, [], by omega, le_rfl, hr⟩
  deps d hd hg := by
    rw [List.mem_append, not_or, List.mem_singleton] at hd
    rw [hdeps, h.deps d hd.1 (by simpa [hd.2] using hg)]
    rfl

end

/-! ## The loop -/

/-- The nodes in `u` that have not been seen. -/
def unseen (u : Finset α) (o : List α) (path : List (Line α)) : Finset α :=
  u.filter fun d => d ∉ o ∧ d ∉ path.map Line.id

/-- The lines `rest` of the node that the path leads to take the traversal from the nodes `o` to
    the nodes `o ++ out`, and the lines `kept` of them, which are the edges of the tree to nodes
    that are new, print those that are added. -/
structure Visits (names : Names α) (deps : Option α → List (Line α)) (path : List (Line α))
    (r : List ℕ) (c : ℕ) (rest : List (Line α)) (o out : List α) (ids ids' : List α)
    (kept : List (Line α)) (f f' : Forest α) : Prop where
  runs : ∃ calls₀, ∀ calls ≥ calls₀,
    readLines names calls (target path) ⟨r, weights path, deps (target path)⟩ c ids f =
      some (.returned 0, f'.removeLines (target path) (ids ++ ids'))
  leaves : Leaves (below deps) (path.map Line.id) (rest.map Line.id) o (o ++ out)
  grows : Grows path r c (c + rest.length) o (o ++ out) f f'
  pruned : ∀ done kept', Pruned done ids kept' → (∀ id ∈ ids, id ∈ o ∨ id ∈ path.map Line.id) →
    Pruned (done ++ rest) (ids ++ ids') (kept' ++ kept)
  prints : Prints f'.trees kept out

/-- The same for one line, and a round of the loop. -/
structure VisitsOne (names : Names α) (deps : Option α → List (Line α)) (path : List (Line α))
    (r : List ℕ) (c : ℕ) (line : Line α) (o out : List α) (ids' : List α) (kept : List (Line α))
    (f f' : Forest α) : Prop where
  runs : ∃ calls₀, ∀ calls ≥ calls₀, ∀ ids,
    visitLine names (fun id => generateDependencyTree names calls (some id)) (treeErase calls)
      (target path) ⟨r, weights path, deps (target path)⟩ (c + 1) line ids f =
      some (.next (ids ++ ids'), f')
  leaves : Leaves (below deps) (path.map Line.id) [line.id] o (o ++ out)
  grows : Grows path r c (c + 1) o (o ++ out) f f'
  decides : ids' = [line.id] ∧ kept = [] ∨
    ids' = [] ∧ kept = [line] ∧ line.id ∉ o ∧ line.id ∉ path.map Line.id
  prints : Prints f'.trees kept out

/-- The lines of a node, from the first one, with the nodes that are unseen before it fewer
    than `m`. -/
def VisitsBelow (names : Names α) (deps : Option α → List (Line α)) (u : Finset α) (m : ℕ) : Prop :=
  ∀ (path : List (Line α)) (r : List ℕ) (o : List α) (f : Forest α), (unseen u o path).card < m →
    r.length = path.length + 1 → IsPath deps path →
    f.trees (target path) = some ⟨r, weights path, deps (target path)⟩ → At deps path r 0 o f →
    ∃ out ids kept f', Visits names deps path r 0 (deps (target path)) o out [] ids kept f f'

section

variable {path : List (Line α)} {r : List ℕ} {c m : ℕ} {o out ids kept : List α}
  {f f' : Forest α} {line : Line α} {u : Finset α}

theorem unseen_cons_lt (hu : line.id ∈ u) (hline : line.id ∉ o)
    (hopen : line.id ∉ path.map Line.id) :
    (unseen u o (line :: path)).card < (unseen u o path).card := by
  refine Finset.card_lt_card ⟨fun d hd => ?_, fun hsub => ?_⟩
  · simp only [unseen, Finset.mem_filter, List.map_cons, List.mem_cons, not_or] at hd ⊢
    exact ⟨hd.1, hd.2.1, hd.2.2.2⟩
  · have hmem : line.id ∈ unseen u o path := Finset.mem_filter.2 ⟨hu, hline, hopen⟩
    have hnot := (Finset.mem_filter.1 (hsub hmem)).2.2
    simp at hnot

/-- What the visit of a new node with dependencies does. -/
theorem visitsOne_child (ih : VisitsBelow names deps u m) (hm : (unseen u o path).card ≤ m)
    (hlen : r.length = path.length + 1) (hpath : IsPath deps path) (h : At deps path r c o f)
    (hmem : line ∈ deps (target path)) (hu : line.id ∈ u) (hline : line.id ∉ o)
    (hopen : line.id ∉ path.map Line.id) (hdeps : deps (some line.id) ≠ []) :
    ∃ out ids' kept f', VisitsOne names deps path r c line o out ids' kept f f' := by
  obtain ⟨t, ht⟩ : ∃ t : Tree α,
      t = ⟨r ++ [c + 1], weights (line :: path), deps (some line.id)⟩ := ⟨_, rfl⟩
  have hat := h.child hlen hline hopen (t := t) (by rw [ht])
  have hself : (f.setTree (some line.id) t).trees (some line.id) = some t := Forest.setTree_self
  obtain ⟨out, ids, kept, f₂, hv⟩ := ih (line :: path) (r ++ [c + 1]) o
    (f.setTree (some line.id) t) ((unseen_cons_lt hu hline hopen).trans_le hm) (by simp [hlen])
    (hpath.cons hmem) (ht ▸ hself) hat
  have hnot : line.id ∉ o ++ out := hv.leaves.notMem (by simp) hline
  have hpruned := hv.pruned [] [] .nil (fun _ hid => absurd hid List.not_mem_nil)
  -- The file of the node, when its lines have been removed.
  have htree : (f₂.removeLines (some line.id) ([] ++ ids)).trees (some line.id) =
      some ⟨r ++ [c + 1], weights (line :: path), kept⟩ := by
    have hsame := (hv.grows.trees (some line.id) fun d hd _ heq =>
      hnot (Option.some_inj.1 heq ▸ hd)).trans hself
    rw [Forest.removeLines_self, hsame, ht, Option.map_some]
    exact congrArg some (hpruned.foldl_remove (by simp))
  refine ⟨out ++ [line.id], [], [line], f₂.removeLines (some line.id) ([] ++ ids), ?_, ?_, ?_,
    .inr ⟨rfl, rfl, hline, hopen⟩, ?_⟩
  · obtain ⟨n, hn⟩ := hv.runs
    refine ⟨n + 1, fun calls hcalls ids' => ?_⟩
    obtain ⟨calls, rfl⟩ : ∃ k, calls = k + 1 := ⟨calls - 1, by omega⟩
    have hnone : f.trees (some line.id) = none := by
      by_contra hne
      exact ((h.seen _).1 hne).elim hline hopen
    have hfile : Tree.mk (r ++ [c + 1]) (weights path ++ [line.prio]) (f.deps (some line.id)) =
        t := by
      rw [ht, h.deps _ hline hopen]
      simp [weights]
    have hsub : generateDependencyTree names (calls + 1) (some line.id)
        (f.setTree (some line.id) t) =
        some (.returned 0, f₂.removeLines (some line.id) ([] ++ ids)) := by
      rw [generateDependencyTree, hself]
      exact ht ▸ hn calls (by omega)
    rw [visitLine, hnone]
    dsimp only
    rw [if_neg (h.deps _ hline hopen ▸ hdeps), hfile, hsub, List.append_nil]
    rfl
  · rw [← List.append_assoc]
    exact .visit hline hopen hv.leaves .nil
  · rw [← List.append_assoc]
    exact hv.grows.of_child hline hnot htree rfl (fun x hx => Forest.removeLines_of_ne hx) rfl
  · refine .cons htree (hv.prints.congr fun d hd => Forest.removeLines_of_ne ?_) .nil
    have hne : d ≠ line.id := ne_of_mem_of_not_mem (List.mem_append_right o hd) hnot
    simpa using hne

/-- What a round does. -/
theorem exists_visitsOne (heven : EvenCycles deps) (ih : VisitsBelow names deps u m)
    (hm : (unseen u o path).card ≤ m) (hlen : r.length = path.length + 1)
    (hpath : IsPath deps path) (h : At deps path r c o f) (hmem : line ∈ deps (target path))
    (hu : line.id ∈ u) :
    ∃ out ids' kept f', VisitsOne names deps path r c line o out ids' kept f f' := by
  by_cases hline : line.id ∈ o
  · refine ⟨[], [line.id], [], f, ⟨0, fun _ _ _ => visitLine_left h hline⟩, ?_, ?_,
      .inl ⟨rfl, rfl⟩, .nil⟩
    · rw [List.append_nil]
      exact .left hline .nil
    · rw [List.append_nil]
      exact ⟨fun _ _ => rfl, fun _ hd hdo => absurd hd hdo, fun _ _ _ => rfl⟩
  by_cases hopen : line.id ∈ path.map Line.id
  · refine ⟨[], [line.id], [], f.dropDeps names (target path) line.id,
      ⟨0, fun _ _ _ => visitLine_back heven hpath h hmem hopen⟩, ?_, ?_, .inl ⟨rfl, rfl⟩, .nil⟩
    · rw [List.append_nil]
      exact .back hopen .nil
    · rw [List.append_nil]
      exact grows_dropDeps
  by_cases hdeps : deps (some line.id) = []
  · have hnone : f.trees (some line.id) = none := by
      by_contra hne
      exact ((h.seen _).1 hne).elim hline hopen
    have hself : (f.setTree (some line.id) ⟨r ++ [c + 1], [], []⟩).trees (some line.id) = _ :=
      Forest.setTree_self
    refine ⟨[line.id], [], [line], f.setTree (some line.id) ⟨r ++ [c + 1], [], []⟩,
      ⟨0, fun _ _ ids => ?_⟩, .visit hline hopen ?_ .nil, ?_, .inr ⟨rfl, rfl, hline, hopen⟩,
      .cons hself .nil .nil⟩
    · rw [visitLine, hnone]
      dsimp only
      rw [if_pos ((h.deps _ hline hopen).trans hdeps), List.append_nil]
    · rw [below, hdeps]
      exact .nil
    · exact Grows.of_child (n := 0) .refl hline hline hself rfl (fun _ _ => rfl) rfl
  · exact visitsOne_child ih hm hlen hpath h hmem hu hline hopen hdeps

omit [DecidableEq α] in
theorem target_ne {d : α} (hd : d ∉ path.map Line.id) : target path ≠ some d := by
  cases path with
  | nil => exact Option.some_ne_none d |>.symm
  | cons top path =>
    intro heq
    exact hd (List.mem_map.2 ⟨top, List.mem_cons_self, Option.some_inj.1 heq⟩)

/-- A round, and the rounds after it. -/
theorem VisitsOne.cons {out₁ out₂ ids₁ ids₂ : List α} {kept₁ kept₂ rest : List (Line α)}
    {f₁ f₂ : Forest α} (h₁ : VisitsOne names deps path r c line o out₁ ids₁ kept₁ f f₁)
    (h₂ : Visits names deps path r (c + 1) rest (o ++ out₁) out₂ (ids ++ ids₁) ids₂ kept₂ f₁ f₂)
    (hb : line.build = .before)
    (hfile : (f.trees (target path)).bind (·.lines[c]?) = some line) :
    Visits names deps path r c (line :: rest) o (out₁ ++ out₂) ids (ids₁ ++ ids₂) (kept₁ ++ kept₂)
      f f₂ where
  runs := by
    obtain ⟨n, hn⟩ := h₁.runs
    obtain ⟨m, hm⟩ := h₂.runs
    refine ⟨max n m + 1, fun calls hcalls => ?_⟩
    obtain ⟨calls, rfl⟩ : ∃ k, calls = k + 1 := ⟨calls - 1, by omega⟩
    rw [readLines, hfile]
    dsimp only
    rw [hn calls (by omega)]
    dsimp only
    rw [hm calls (by omega), List.append_assoc]
  leaves := by
    have hleaves := h₁.leaves.append h₂.leaves
    rwa [List.append_assoc] at hleaves
  grows := by
    have hgrows := h₁.grows.trans h₂.grows (Nat.le_succ c) (Nat.le_add_right _ _)
      (List.subset_append_left _ _) (List.subset_append_left _ _)
    rwa [List.append_assoc, Nat.add_assoc, Nat.add_comm 1] at hgrows
  pruned done kept' hdone hids := by
    have hseen : ∀ id ∈ ids ++ ids₁, id ∈ o ++ out₁ ∨ id ∈ path.map Line.id := by
      intro id hid
      rcases List.mem_append.1 hid with hid | hid
      · exact (hids id hid).imp_left (List.mem_append_left _)
      · rcases h₁.decides with ⟨rfl, -⟩ | ⟨rfl, -⟩
        · exact h₁.leaves.mem id hid
        · exact absurd hid List.not_mem_nil
    have hone : Pruned (done ++ [line]) (ids ++ ids₁) (kept' ++ kept₁) := by
      rcases h₁.decides with ⟨rfl, rfl⟩ | ⟨rfl, rfl, hline, hopen⟩
      · rw [List.append_nil]
        exact .drop hdone hb
      · rw [List.append_nil]
        exact .keep hdone fun hid => (hids _ hid).elim hline hopen
    have hrest := h₂.pruned _ _ hone hseen
    rwa [List.append_assoc, List.append_assoc, List.append_assoc] at hrest
  prints := by
    refine (h₁.prints.congr fun d hd => ?_).append h₂.prints
    refine h₂.grows.trees _ fun e _ he heq => he ?_
    exact List.mem_append_right _ (Option.some_inj.1 heq ▸ hd)

/-- The lines of a node from a given one. -/
theorem exists_visits (hb : ∀ n, ∀ line ∈ deps n, line.build = .before) (heven : EvenCycles deps)
    (hu : ∀ line ∈ deps (target path), line.id ∈ u) (ih : VisitsBelow names deps u m)
    (hlen : r.length = path.length + 1) (hpath : IsPath deps path) {done rest : List (Line α)}
    (hdone : deps (target path) = done ++ rest) (hm : (unseen u o path).card ≤ m)
    (hfile : f.trees (target path) = some ⟨r, weights path, deps (target path)⟩)
    (h : At deps path r done.length o f) :
    ∃ out ids' kept f', Visits names deps path r done.length rest o out ids ids' kept f f' := by
  induction rest generalizing done o f ids with
  | nil =>
    refine ⟨[], [], [], f, ⟨1, fun calls hcalls => ?_⟩, ?_, ?_, fun done kept' hp _ => ?_, .nil⟩
    · obtain ⟨calls, rfl⟩ : ∃ k, calls = k + 1 := ⟨calls - 1, by omega⟩
      have hend : (f.trees (target path)).bind (·.lines[done.length]?) = none := by
        rw [hfile, hdone]
        simp
      rw [readLines, hend, List.append_nil]
    · rw [List.append_nil]
      exact .nil
    · rw [List.append_nil]
      exact .refl
    · simpa using hp
  | cons line rest ihrest =>
    have hmem : line ∈ deps (target path) := by simp [hdone]
    obtain ⟨out₁, ids₁, kept₁, f₁, h₁⟩ :=
      exists_visitsOne heven ih hm hlen hpath h hmem (hu line hmem)
    have hopen : ∀ d ∈ o ++ out₁, d ∉ path.map Line.id := by
      intro d hd hdp
      exact h₁.leaves.notMem hdp (fun hdo => h.notOpen d hdo hdp) hd
    have hsub : o ⊆ o ++ out₁ := List.subset_append_left _ _
    have h' := h.grows h₁.grows (Nat.le_succ _) hsub hopen
    have hfile' := (h₁.grows.trees (target path) fun d hd _ => target_ne (hopen d hd)).trans hfile
    have hm' : (unseen u (o ++ out₁) path).card ≤ m := by
      refine (Finset.card_le_card fun d hd => ?_).trans hm
      simp only [unseen, Finset.mem_filter] at hd ⊢
      exact ⟨hd.1, fun hdo => hd.2.1 (hsub hdo), hd.2.2⟩
    have hlength : (done ++ [line]).length = done.length + 1 := List.length_append
    rw [← hlength] at h'
    obtain ⟨out₂, ids₂, kept₂, f₂, h₂⟩ : ∃ out₂ ids₂ kept₂ f₂, Visits names deps path r
        (done ++ [line]).length rest (o ++ out₁) out₂ (ids ++ ids₁) ids₂ kept₂ f₁ f₂ :=
      ihrest (by rw [hdone, List.append_assoc, List.singleton_append]) hm' hfile' h'
    rw [hlength] at h₂
    refine ⟨_, _, _, f₂, h₁.cons h₂ (hb _ line hmem) ?_⟩
    rw [hfile, hdone]
    simp

end

theorem visitsBelow {u : Finset α} (hb : ∀ n, ∀ line ∈ deps n, line.build = .before)
    (heven : EvenCycles deps) (hu : ∀ n, ∀ line ∈ deps n, line.id ∈ u) (m : ℕ) :
    VisitsBelow names deps u m := by
  induction m with
  | zero => exact fun _ _ _ _ hm => absurd hm (Nat.not_lt_zero _)
  | succ m ih =>
    intro path r o f hm hlen hpath hfile h
    have hdone : deps (target path) = [] ++ deps (target path) := rfl
    exact exists_visits hb heven (hu _) ih hlen hpath hdone (Nat.lt_succ_iff.1 hm) hfile h

/-- Where all qualifiers are `b`, and the lines on a cycle have the same weight, the pass comes to
    an end, with the order in which a depth-first traversal leaves the nodes. -/
theorem exists_leaves {u : Finset α} (hu : ∀ n, ∀ line ∈ deps n, line.id ∈ u)
    (hb : ∀ n, ∀ line ∈ deps n, line.build = .before) (heven : EvenCycles deps) :
    ∃ order calls₀, (∀ calls ≥ calls₀, buildOrder names deps calls = some (some order)) ∧
      Leaves (below deps) [] ((deps none).map Line.id) [] order := by
  have hroot : (Forest.start deps).trees none = some ⟨[1], [1], deps none⟩ := rfl
  have hat : At deps [] [1] 0 [] (.start deps) := by
    refine ⟨fun d => iff_of_false (fun hd => hd rfl) (by simp), fun line rest hp => ?_,
      fun d hd => ?_, fun _ _ _ => rfl, fun d hd => ?_⟩
    · exact absurd (List.suffix_nil.1 hp) (List.cons_ne_nil _ _)
    · exact absurd hd List.not_mem_nil
    · exact absurd hd List.not_mem_nil
  have hpath : IsPath deps [] := fun line rest hp =>
    absurd (List.suffix_nil.1 hp) (List.cons_ne_nil _ _)
  obtain ⟨order, ids, kept, f, hv⟩ : ∃ order ids kept f,
      Visits names deps [] [1] 0 (deps none) [] order [] ids kept (.start deps) f :=
    visitsBelow hb heven hu _ [] [1] [] (.start deps) (Nat.lt_succ_self _) rfl hpath hroot hat
  have hpruned := hv.pruned [] [] .nil fun _ hid => absurd hid List.not_mem_nil
  -- What is left of the file of the root.
  have hfile : (f.removeLines none ([] ++ ids)).trees none = some ⟨[1], [1], kept⟩ := by
    have hsame := hv.grows.trees none fun d _ _ => (Option.some_ne_none d).symm
    rw [Forest.removeLines_self, hsame, hroot]
    exact congrArg some (hpruned.foldl_remove (by simp))
  have hprints : Prints (f.removeLines none ([] ++ ids)).trees kept order :=
    hv.prints.congr fun d _ => Forest.removeLines_of_ne (Option.some_ne_none d)
  obtain ⟨n, hn⟩ := hv.runs
  obtain ⟨m, hm⟩ := hprints.browse
  refine ⟨order, max n m + 1, fun calls hcalls => ?_, hv.leaves⟩
  obtain ⟨calls, rfl⟩ : ∃ k, calls = k + 1 := ⟨calls - 1, by omega⟩
  have htree : generateDependencyTree names (calls + 1) none (.start deps) =
      some (.returned 0, f.removeLines none ([] ++ ids)) := hn calls (by omega)
  rw [buildOrder, htree]
  dsimp only
  rw [treeBrowse, hfile]
  exact congrArg _ (hm calls (by omega))

/-- There the order has each package once that the root reaches, after each of its dependencies
    that does not depend on it in turn. -/
theorem buildOrder_postorder {u : Finset α} (hu : ∀ n, ∀ line ∈ deps n, line.id ∈ u)
    (hb : ∀ n, ∀ line ∈ deps n, line.build = .before) (heven : EvenCycles deps) :
    ∃ order calls₀, (∀ calls ≥ calls₀, buildOrder names deps calls = some (some order)) ∧
      order.Nodup ∧ (∀ d, d ∈ order ↔ ∃ line ∈ deps none, Reach (below deps) line.id d) ∧
      ∀ n ∈ order, ∀ line ∈ deps (some n), ¬Reach (below deps) line.id n →
        Before order line.id n := by
  obtain ⟨order, calls₀, hruns, hleaves⟩ : ∃ order calls₀,
      (∀ calls ≥ calls₀, buildOrder names deps calls = some (some order)) ∧
      Leaves (below deps) [] ((deps none).map Line.id) [] order := exists_leaves hu hb heven
  refine ⟨order, calls₀, hruns, hleaves.nodup List.nodup_nil, fun d => ?_,
    fun p hp line hline hback => ?_⟩
  · rw [hleaves.mem_iff]
    simp
  · exact (hleaves.before hp (List.mem_map_of_mem hline)).resolve_right hback

/-- Two packages that depend on each other, and one that the second of them needs too. -/
def loopDeps : Option ℕ → List (Line ℕ)
  | none => [⟨1, .before, 0⟩]
  | some 0 => [⟨1, .before, 1⟩]
  | some 1 => [⟨1, .before, 0⟩, ⟨1, .before, 2⟩]
  | some _ => []

theorem buildOrder_postorder_loop : ∃ order calls₀,
    (∀ calls ≥ calls₀, buildOrder ⟨[none, some 0, some 1, some 2], fun id line => line.id = id⟩
      loopDeps calls = some (some order)) ∧
    order.Nodup ∧ (∀ d, d ∈ order ↔ ∃ line ∈ loopDeps none, Reach (below loopDeps) line.id d) ∧
    ∀ n ∈ order, ∀ line ∈ loopDeps (some n), ¬Reach (below loopDeps) line.id n →
      Before order line.id n := by
  have hlines : ∀ n, ∀ line ∈ loopDeps n,
      line.prio = 1 ∧ line.build = .before ∧ line.id ∈ Finset.range 3 := by
    rintro (_ | _ | _ | n)
    · decide
    · decide
    · decide
    · exact fun line hline => absurd hline List.not_mem_nil
  refine buildOrder_postorder (fun n line hline => (hlines n line hline).2.2)
    (fun n line hline => (hlines n line hline).2.1) fun n n' line hline line' hline' _ _ => ?_
  rw [(hlines _ _ hline).1, (hlines _ _ hline').1]

/-- The line back to the first package is dropped. -/
example : buildOrder ⟨[none, some 0, some 1, some 2], fun id line => line.id = id⟩ loopDeps 9 =
    some (some [2, 1, 0]) := by decide +kernel

end LfsBuilder.Jhalfs
