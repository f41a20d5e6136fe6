import Mathlib

/-!
# File trees

Directories and regular files by their places, in one or more separate trees
(`ρ`). A disk says for every place whether there is a directory, or a file; how
long a file is, or what it holds, is left out. Commands on a tree are functions
on disks, each with an equation at the places it changes and a frame lemma for
all others.

* `Disk.mkdirs`, `Disk.add`, `Disk.unpack`, `Disk.remove`, `Disk.rename`: the
  commands;
* `Disk.mix`: what an interrupted command leaves: every place is as it was, or
  as the command would have left it;
* `SameOutside p d d'`: nothing has changed but at `p` and below it.
-/

namespace FileTree

/-- What can be at a place. -/
inductive Kind
  | dir
  | file
  deriving DecidableEq

/-- A place in the tree `root`, by the names that lead to it. -/
structure Place (ρ : Type*) where
  root : ρ
  path : List String
  deriving DecidableEq

/-- The relative contents of an archive, or of an installation. -/
abbrev Tree := Kind → List (List String)

/-- For every place, whether there is a directory, and whether there is a file. -/
abbrev Disk (ρ : Type*) := Kind → Place ρ → Bool

variable {ρ : Type*}

/-- The place with the relative path `names` from `p`. -/
def Place.child (p : Place ρ) (names : List String) : Place ρ := ⟨p.root, p.path ++ names⟩

/-- The directory that `p` is in. -/
def Place.parent (p : Place ρ) : Place ρ := ⟨p.root, p.path.dropLast⟩

/-- The place that a relative path means in the directory `p`. -/
def Place.resolve (p : Place ρ) : List String → Place ρ
  | [] => p
  | name :: names => if name = ".." then p.parent.resolve names else (p.child [name]).resolve names

/-- `q` is `p`, or below it. -/
def Place.Under (p q : Place ρ) : Prop := p.root = q.root ∧ p.path <+: q.path

instance [DecidableEq ρ] (p q : Place ρ) : Decidable (p.Under q) :=
  inferInstanceAs (Decidable (_ ∧ _))

theorem Place.under_child (p : Place ρ) (names : List String) : p.Under (p.child names) :=
  ⟨rfl, List.prefix_append _ _⟩

theorem Place.under_child_singleton (p : Place ρ) (names : List String) (x y : String) :
    (p.child (names ++ [x])).Under (p.child (names ++ [y])) ↔ x = y := by
  simp [Place.Under, Place.child, List.prefix_append_right_inj]

theorem Place.under_refl (p : Place ρ) : p.Under p := ⟨rfl, List.prefix_refl _⟩

theorem Place.Under.trans {p q r : Place ρ} (h : p.Under q) (h' : q.Under r) : p.Under r :=
  ⟨h.1.trans h'.1, h.2.trans h'.2⟩

theorem Place.child_inj {p : Place ρ} {names names' : List String} :
    p.child names = p.child names' ↔ names = names' := by simp [Place.child]

/-- Nothing has changed but at `p` and below it. -/
def SameOutside (p : Place ρ) (d d' : Disk ρ) : Prop := ∀ k q, ¬p.Under q → d' k q = d k q

theorem SameOutside.mono {p q : Place ρ} {d d' : Disk ρ} (hp : p.Under q)
    (h : SameOutside q d d') : SameOutside p d d' := fun k r hr => h k r fun hq => hr (hp.trans hq)

/-- What is left of a change from `d` to `d'` that has reached the places in `m`. -/
def Disk.mix (m : Kind → Place ρ → Bool) (d d' : Disk ρ) : Disk ρ := fun k q =>
  if m k q then d' k q else d k q

variable [DecidableEq ρ]

namespace Disk

/-- `d` with something of the kind `k` at `p`. -/
def add (d : Disk ρ) (k : Kind) (p : Place ρ) : Disk ρ := fun k' q => k' = k ∧ q = p || d k' q

/-- `mkdir -p p` -/
def mkdirs (d : Disk ρ) (p : Place ρ) : Disk ρ := fun k q => k = .dir ∧ q.Under p || d k q

/-- `d` with the tree `t` in the directory `p`. -/
def unpack (d : Disk ρ) (p : Place ρ) (t : Tree) : Disk ρ :=
  fun k q => (t k).any (fun names => p.child names = q) || d k q

/-- `rm -rf p` -/
def remove (d : Disk ρ) (p : Place ρ) : Disk ρ := fun k q => d k q && !p.Under q

/-- The tree at `p` is moved to `q`. -/
def rename (d : Disk ρ) (p q : Place ρ) : Disk ρ := fun k r =>
  if q.Under r then d k (p.child (r.path.drop q.path.length)) else d k r && !p.Under r

/-- `mv p q`: into `q`, if there is such a directory. -/
def move (d : Disk ρ) (p q : Place ρ) : Disk ρ :=
  d.rename p (if d .dir q then q.child (p.path.drop (p.path.length - 1)) else q)

end Disk

section

variable {d d' d'' : Disk ρ} {p q : Place ρ} {k : Kind} {t : Tree}

theorem sameOutside_add : SameOutside p d (d.add k p) := fun k' q hq => by
  have hne : q ≠ p := fun h => hq (h ▸ p.under_refl)
  simp [Disk.add, hne]

theorem sameOutside_unpack : SameOutside p d (d.unpack p t) := fun k q hq => by
  have hne : ∀ names, p.child names ≠ q := fun names h => hq (h ▸ p.under_child names)
  simp [Disk.unpack, hne]

theorem sameOutside_remove : SameOutside p d (d.remove p) := fun k q hq => by
  simp [Disk.remove, hq]

theorem move_of_not_under {r : Place ρ} (hp : ¬p.Under r) (hq : ¬q.Under r) :
    d.move p q k r = d k r := by
  have hmoved {q' : Place ρ} (h : ¬q'.Under r) : d.rename p q' k r = d k r := by
    simp [Disk.rename, h, hp]
  unfold Disk.move
  split
  · exact hmoved fun h => hq ((q.under_child _).trans h)
  · exact hmoved hq

theorem le_add (h : d k q = true) {k' : Kind} : d.add k' p k q = true := by
  simp [Disk.add, h]

theorem le_mkdirs (h : d k q = true) : d.mkdirs p k q = true := by simp [Disk.mkdirs, h]

theorem le_unpack (h : d k q = true) : d.unpack p t k q = true := by simp [Disk.unpack, h]

theorem mkdirs_of_under (h : q.Under p) : d.mkdirs p .dir q = true := by simp [Disk.mkdirs, h]

theorem add_self (d : Disk ρ) (k : Kind) (p : Place ρ) : d.add k p k p = true := by
  simp [Disk.add]

theorem unpack_child {names : List String} (h : names ∈ t k) :
    d.unpack p t k (p.child names) = true := by
  simp only [Disk.unpack, Bool.or_eq_true, List.any_eq_true, decide_eq_true_eq]
  exact .inl ⟨names, h, rfl⟩

theorem unpack_child_of_notMem {names : List String} (h : names ∉ t k) :
    d.unpack p t k (p.child names) = d k (p.child names) := by
  have hany : ((t k).any fun names' => p.child names' = p.child names) = false := by
    rw [List.any_eq_false]
    intro names' hmem
    simpa [Place.child_inj] using ne_of_mem_of_not_mem hmem h
  rw [Disk.unpack, hany, Bool.false_or]

end

end FileTree
