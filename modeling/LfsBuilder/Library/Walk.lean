import Mathlib.Data.List.Perm.Basic

/-!
# Walks of directory trees

A directory as the operating system enumerates it, and the walk that lists the
directories from the top down, each with its files. The order of the enumeration
is left open: `Reordered` relates two enumerations of the same tree.

* `search_mem_foremost`, `exists_search`: the files that a search along the walk
  can find, over all enumerations, are the foremost ones;
* `search_forall_iff`: when what it finds has a property, and is the same, in
  all enumerations.
-/

namespace Walk

/-- The entries of a directory, as they are enumerated. -/
inductive Entries (α : Type*)
  | nil
  | file (name : α) (rest : Entries α)
  | dir (name : α) (inner rest : Entries α)

/-- A file of a tree, by the names of the directories above it and its own. -/
structure File (α : Type*) where
  directory : List α
  name : α
  deriving DecidableEq

variable {α : Type*}

namespace Entries

/-- The files of the directory itself. -/
def files : Entries α → List α
  | nil => []
  | file name rest => name :: rest.files
  | dir _ _ rest => rest.files

/-- The directories below one at `directory`, from the top down, with their files. -/
def walkBelow (directory : List α) : Entries α → List (List α × List α)
  | nil => []
  | file _ rest => rest.walkBelow directory
  | dir name inner rest =>
    (directory ++ [name], inner.files) ::
      (inner.walkBelow (directory ++ [name]) ++ rest.walkBelow directory)

/-- All directories from `directory` on. -/
def walk (directory : List α) (es : Entries α) : List (List α × List α) :=
  (directory, es.files) :: es.walkBelow directory

/-- All files of the tree. -/
def allFiles (directory : List α) (es : Entries α) : List (File α) :=
  (es.walk directory).flatMap fun entry => entry.2.map (File.mk entry.1)

/-- The first file along the walk that satisfies `p`. -/
def search (p : α → Bool) (directory : List α) (es : Entries α) : Option (File α) :=
  (es.walk directory).findSome? fun entry => (entry.2.find? p).map (File.mk entry.1)

/-- The first one below the directory itself. -/
def searchBelow (p : α → Bool) (directory : List α) (es : Entries α) : Option (File α) :=
  (es.walkBelow directory).findSome? fun entry => (entry.2.find? p).map (File.mk entry.1)

/-- What there is of a directory: its own files with `p`, where it has such files,
    and else those that `below` has for it. -/
def orBelow (p : α → Bool) (directory : List α) (es : Entries α) (below : List (File α)) :
    List (File α) :=
  if es.files.any p then (es.files.filter p).map (File.mk directory) else below

/-- The foremost files with `p` in the subdirectories. -/
def foremostBelow (p : α → Bool) (directory : List α) : Entries α → List (File α)
  | nil => []
  | file _ rest => rest.foremostBelow p directory
  | dir name inner rest =>
    orBelow p (directory ++ [name]) inner (inner.foremostBelow p (directory ++ [name])) ++
      rest.foremostBelow p directory

/-- The foremost files with `p`: those that have no other one in a directory above
    their own. -/
def foremost (p : α → Bool) (directory : List α) (es : Entries α) : List (File α) :=
  orBelow p directory es (es.foremostBelow p directory)

end Entries

open Entries

/-- Two enumerations of the same tree. -/
inductive Reordered : Entries α → Entries α → Prop
  | nil : Reordered .nil .nil
  | file (name : α) {es es' : Entries α} : Reordered es es' →
      Reordered (.file name es) (.file name es')
  | dir (name : α) {inner inner' es es' : Entries α} : Reordered inner inner' → Reordered es es' →
      Reordered (.dir name inner es) (.dir name inner' es')
  | swapFiles (x y : α) (es : Entries α) :
      Reordered (.file x (.file y es)) (.file y (.file x es))
  | swapFileDir (x y : α) (inner es : Entries α) :
      Reordered (.file x (.dir y inner es)) (.dir y inner (.file x es))
  | swapDirFile (x y : α) (inner es : Entries α) :
      Reordered (.dir y inner (.file x es)) (.file x (.dir y inner es))
  | swapDirs (x y : α) (inner inner' es : Entries α) :
      Reordered (.dir x inner (.dir y inner' es)) (.dir y inner' (.dir x inner es))
  | trans {es es' es'' : Entries α} : Reordered es es' → Reordered es' es'' → Reordered es es''

variable {p : α → Bool} {es es' : Entries α} {directory : List α} {f : File α}

namespace Reordered

theorem refl (es : Entries α) : Reordered es es := by
  induction es with
  | nil => exact .nil
  | file name _ ih => exact ih.file name
  | dir name _ _ ihInner ih => exact .dir name ihInner ih

theorem files_perm (h : Reordered es es') : es.files.Perm es'.files := by
  induction h with
  | nil => rfl
  | file name _ ih => exact ih.cons name
  | dir _ _ _ _ ih => exact ih
  | swapFiles x y es => exact .swap y x es.files
  | swapFileDir => rfl
  | swapDirFile => rfl
  | swapDirs => rfl
  | trans _ _ ih ih' => exact ih.trans ih'

end Reordered

/-! ## What can be found -/

theorem orBelow_perm {below below' : List (File α)} (h : es.files.Perm es'.files)
    (hbelow : below.Perm below') :
    (orBelow p directory es below).Perm (orBelow p directory es' below') := by
  have hany : es.files.any p = es'.files.any p := by
    rw [Bool.eq_iff_iff, List.any_eq_true, List.any_eq_true]
    exact exists_congr fun x => and_congr_left' h.mem_iff
  rw [orBelow, orBelow, hany]
  split
  · exact (h.filter p).map _
  · exact hbelow

theorem Reordered.foremostBelow_perm (h : Reordered es es') (directory : List α) :
    (es.foremostBelow p directory).Perm (es'.foremostBelow p directory) := by
  induction h generalizing directory with
  | nil => rfl
  | file _ _ ih => exact ih directory
  | dir name hinner _ ihInner ih =>
    exact (orBelow_perm hinner.files_perm (ihInner _)).append (ih directory)
  | swapFiles => rfl
  | swapFileDir => rfl
  | swapDirFile => rfl
  | swapDirs x y inner inner' es =>
    simp only [foremostBelow, ← List.append_assoc]
    exact List.perm_append_comm.append_right _
  | trans _ _ ih ih' => exact (ih directory).trans (ih' directory)

theorem Reordered.foremost_perm (h : Reordered es es') :
    (es.foremost p directory).Perm (es'.foremost p directory) :=
  orBelow_perm h.files_perm (h.foremostBelow_perm directory)

theorem search_eq : es.search p directory =
    ((es.files.find? p).map (File.mk directory)).or (es.searchBelow p directory) := by
  rw [search, walk, List.findSome?_cons]
  cases es.files.find? p <;> rfl

theorem searchBelow_dir (name : α) (inner rest : Entries α) :
    (Entries.dir name inner rest).searchBelow p directory =
      (inner.search p (directory ++ [name])).or (rest.searchBelow p directory) := by
  rw [searchBelow, walkBelow, ← List.cons_append, List.findSome?_append]
  rfl

/-- A search in a directory finds one of its own files if there is one with `p`. -/
theorem search_of_any (directory : List α) (h : es.files.any p = true) :
    ∃ name ∈ es.files, p name = true ∧ es.search p directory = some ⟨directory, name⟩ := by
  rw [search_eq]
  cases hfind : es.files.find? p with
  | none =>
    obtain ⟨x, hx, hpx⟩ := List.any_eq_true.1 h
    exact absurd hpx (List.find?_eq_none.1 hfind x hx)
  | some name => exact ⟨name, List.mem_of_find?_eq_some hfind, List.find?_some hfind, rfl⟩

theorem search_of_not_any (h : es.files.any p = false) :
    es.search p directory = es.searchBelow p directory := by
  have hfind : es.files.find? p = none := by
    rw [List.find?_eq_none]
    exact fun x hx hpx => Bool.false_ne_true (h.symm.trans (List.any_eq_true.2 ⟨x, hx, hpx⟩))
  rw [search_eq, hfind, Option.map_none, Option.none_or]

/-- What holds below a directory holds of a search in it. -/
theorem search_mem_orBelow {below : List (File α)}
    (h : (es.searchBelow p directory = none ↔ below = []) ∧
      ∀ f, es.searchBelow p directory = some f → f ∈ below) :
    (es.search p directory = none ↔ orBelow p directory es below = []) ∧
      ∀ f, es.search p directory = some f → f ∈ orBelow p directory es below := by
  cases hany : es.files.any p with
  | false => rwa [orBelow, hany, search_of_not_any hany]
  | true =>
    obtain ⟨name, hmem, hp, heq⟩ := search_of_any directory hany
    have hname : ⟨directory, name⟩ ∈ orBelow p directory es below := by
      rw [orBelow, hany, if_pos rfl]
      exact List.mem_map_of_mem (List.mem_filter.2 ⟨hmem, hp⟩)
    rw [heq]
    refine ⟨⟨fun h => (by cases h), fun h => ?_⟩, fun f hf => Option.some_inj.1 hf ▸ hname⟩
    rw [h] at hname
    cases hname

theorem searchBelow_mem_foremostBelow (es : Entries α) (directory : List α) :
    (es.searchBelow p directory = none ↔ es.foremostBelow p directory = []) ∧
      ∀ f, es.searchBelow p directory = some f → f ∈ es.foremostBelow p directory := by
  induction es generalizing directory with
  | nil => exact ⟨iff_of_true rfl rfl, fun _ hf => by cases hf⟩
  | file _ _ ih => exact ih directory
  | dir name inner rest ihInner ih =>
    obtain ⟨hnone, hsome⟩ := search_mem_orBelow (ihInner (directory ++ [name]))
    obtain ⟨hnone', hsome'⟩ := ih directory
    rw [searchBelow_dir, foremostBelow]
    refine ⟨?_, fun f hf => ?_⟩
    · rw [Option.or_eq_none_iff, hnone, hnone', List.append_eq_nil_iff]
    · rcases Option.or_eq_some_iff.1 hf with hf | ⟨_, hf⟩
      · exact List.mem_append_left _ (hsome f hf)
      · exact List.mem_append_right _ (hsome' f hf)

/-- A search finds a foremost file, if there is one. -/
theorem search_mem_foremost (p : α → Bool) (directory : List α) (es : Entries α) :
    (es.search p directory = none ↔ es.foremost p directory = []) ∧
      ∀ f, es.search p directory = some f → f ∈ es.foremost p directory :=
  search_mem_orBelow (searchBelow_mem_foremostBelow es directory)

/-- Every file of a directory can come first. -/
theorem exists_file_first {x : α} (hx : x ∈ es.files) : ∃ rest, Reordered es (.file x rest) := by
  induction es with
  | nil => cases hx
  | file y rest ih =>
    rcases List.mem_cons.1 hx with rfl | hx
    · exact ⟨rest, .refl _⟩
    · obtain ⟨rest', h⟩ := ih hx
      exact ⟨.file y rest', (h.file y).trans (.swapFiles y x rest')⟩
  | dir y inner rest _ ih =>
    obtain ⟨rest', h⟩ := ih hx
    exact ⟨.dir y inner rest',
      (Reordered.dir y (.refl inner) h).trans (.swapDirFile x y inner rest')⟩

/-- Every file that there is of a directory is found in some enumeration, if those
    below it are. -/
theorem exists_search_orBelow {below : List (File α)} (hf : f ∈ orBelow p directory es below)
    (hbelow : f ∈ below → ∃ name inner rest, Reordered es (.dir name inner rest) ∧
      inner.search p (directory ++ [name]) = some f) :
    ∃ es', Reordered es es' ∧ es'.search p directory = some f := by
  rw [orBelow] at hf
  split at hf
  · obtain ⟨x, hx, rfl⟩ := List.mem_map.1 hf
    obtain ⟨hx, hp⟩ := List.mem_filter.1 hx
    obtain ⟨rest, h⟩ := exists_file_first hx
    refine ⟨.file x rest, h, ?_⟩
    rw [search_eq, files, List.find?_cons_of_pos hp]
    rfl
  · next hany =>
    obtain ⟨name, inner, rest, h, hsearch⟩ := hbelow hf
    refine ⟨.dir name inner rest, h, ?_⟩
    have hany' : (Entries.dir name inner rest).files.any p = false := by
      rw [List.any_eq_false]
      refine fun x hx hpx => hany ?_
      exact List.any_eq_true.2 ⟨x, h.files_perm.mem_iff.2 hx, hpx⟩
    rw [search_of_not_any hany', searchBelow_dir, hsearch, Option.some_or]

/-- Every foremost file of the subdirectories is found, in some order of those. -/
theorem exists_searchBelow (hf : f ∈ es.foremostBelow p directory) :
    ∃ name inner rest, Reordered es (.dir name inner rest) ∧
      inner.search p (directory ++ [name]) = some f := by
  induction es generalizing directory with
  | nil => cases hf
  | file x rest ih =>
    obtain ⟨name, inner, rest', h, hsearch⟩ := ih hf
    exact ⟨name, inner, .file x rest', (h.file x).trans (.swapFileDir x name inner rest'), hsearch⟩
  | dir y inner rest ihInner ih =>
    rcases List.mem_append.1 hf with hf | hf
    · obtain ⟨inner', h, hsearch⟩ := exists_search_orBelow hf ihInner
      exact ⟨y, inner', rest, .dir y h (.refl rest), hsearch⟩
    · obtain ⟨name, inner', rest', h, hsearch⟩ := ih hf
      exact ⟨name, inner', .dir y inner rest', (Reordered.dir y (.refl inner) h).trans
        (.swapDirs y name inner inner' rest'), hsearch⟩

/-- Every foremost file is found in some enumeration. -/
theorem exists_search (hf : f ∈ es.foremost p directory) :
    ∃ es', Reordered es es' ∧ es'.search p directory = some f :=
  exists_search_orBelow hf exists_searchBelow

/-- All enumerations lead to the same file, and to one with `P` where `H` asks for
    one, exactly if there are no two foremost files, and one has `P` where `H` does. -/
theorem search_forall_iff (p : α → Bool) (directory : List α) (es : Entries α) {H : Prop}
    {P : File α → Prop} :
    (∀ es', Reordered es es' → (H → ∃ f, es'.search p directory = some f ∧ P f) ∧
      es'.search p directory = es.search p directory) ↔
    (∀ f ∈ es.foremost p directory, ∀ g ∈ es.foremost p directory, f = g) ∧
      (H → ∃ f ∈ es.foremost p directory, P f) := by
  refine ⟨fun h => ⟨fun f hf g hg => ?_, fun hH => ?_⟩, fun h es' hes => ?_⟩
  · obtain ⟨es₁, h₁, hf⟩ := exists_search hf
    obtain ⟨es₂, h₂, hg⟩ := exists_search hg
    exact Option.some_inj.1 <|
      hf.symm.trans <| (h es₁ h₁).2.trans <| (h es₂ h₂).2.symm.trans hg
  · obtain ⟨f, hf, hP⟩ := (h es (.refl es)).1 hH
    exact ⟨f, (search_mem_foremost p directory es).2 f hf, hP⟩
  · obtain ⟨hone, hown⟩ := h
    have hperm : (es.foremost p directory).Perm (es'.foremost p directory) := hes.foremost_perm
    obtain ⟨hnone, hsome⟩ := search_mem_foremost p directory es
    obtain ⟨hnone', hsome'⟩ := search_mem_foremost p directory es'
    cases hsearch : es'.search p directory with
    | none =>
      have hnil : es.foremost p directory = [] := (hnone'.1 hsearch ▸ hperm).eq_nil
      refine ⟨fun hH => ?_, (hnone.2 hnil).symm⟩
      obtain ⟨f, hf, _⟩ := hown hH
      rw [hnil] at hf
      cases hf
    | some f =>
      have hf : f ∈ es.foremost p directory := hperm.mem_iff.2 (hsome' f hsearch)
      refine ⟨fun hH => ?_, ?_⟩
      · obtain ⟨g, hg, hP⟩ := hown hH
        exact ⟨f, rfl, hone g hg f hf ▸ hP⟩
      · cases hsearch₀ : es.search p directory with
        | none =>
          rw [hnone.1 hsearch₀] at hf
          cases hf
        | some g => rw [hone f hf g (hsome g hsearch₀)]

end Walk
