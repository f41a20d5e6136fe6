import LfsBuilder.Jhalfs.CleanSubgraph
import LfsBuilder.Jhalfs.ScriptChain

/-!
# The Makefile of the packages

A script is made of each section of the book by `xsl/scripts.xsl`, with the position of
the section in its name. Of the directory of the scripts, `BLFS/gen-makefile.sh` makes a
Makefile with a target for each of them, whose recipe also changes the tracking file.

* `scripts_eq_iff`: the scripts come in the order of the book exactly if there are fewer
  than 1000;
* `packages_built`: the packages are built in the order of the scripts, each of them once,
  however the runs of `make` end.
-/

namespace LfsBuilder.Jhalfs.PackageMakefile

open DepthFirst Text

/-! ## The scripts -/

/-- The position of a section, with three digits at least. -/
def order (position : ℕ) : Str :=
  if (Nat.toDigits 10 position).length = 1 then '0' :: '0' :: Nat.toDigits 10 position
  else if (Nat.toDigits 10 position).length = 2 then '0' :: Nat.toDigits 10 position
  else Nat.toDigits 10 position

/-- The file that a section is written to. -/
def script (position : ℕ) (filename : Str) : Str := order position ++ "-z-".toList ++ filename

/-- The scripts of the sections, from a given position. -/
def scriptsFrom (position : ℕ) : List Str → List Str
  | [] => []
  | id :: ids => script position id :: scriptsFrom (position + 1) ids

/-- The name of the package of a script, `${1#*-?-}`. -/
def afterMark : Str → Option Str
  | '-' :: _ :: '-' :: name => some name
  | _ :: s => afterMark s
  | [] => none

def pkgName (script : Str) : Str :=
  let name := (afterMark script).getD script
  if name = "lfs-bootscripts".toList then "bootscripts".toList else name

/-! ## The name of the package -/

theorem ne_dash_of_mem_order {p : ℕ} {c : Char} (h : c ∈ order p) : c ≠ '-' := by
  rintro rfl
  have hdigits : '-' ∉ Nat.toDigits 10 p := fun h =>
    absurd (Nat.isDigit_of_mem_toDigits (by decide) (by decide) h) (by decide)
  rw [order] at h
  split_ifs at h <;> simp [hdigits] at h

theorem afterMark_append {s name : Str} (h : ∀ c ∈ s, c ≠ '-') :
    afterMark (s ++ ("-z-".toList ++ name)) = some name := by
  induction s with
  | nil => rfl
  | cons c s ih =>
    rw [List.forall_mem_cons] at h
    rw [List.cons_append, afterMark]
    · exact ih h.2
    · exact fun _ _ hc => absurd hc h.1

/-- The name of the package is what the section is called in the book. -/
theorem pkgName_script {p : ℕ} {id : Str} (hid : id ≠ "lfs-bootscripts".toList) :
    pkgName (script p id) = id := by
  rw [pkgName, script, List.append_assoc, afterMark_append fun _ => ne_dash_of_mem_order,
    Option.getD_some]
  exact if_neg hid

/-! ## The order of the scripts -/

theorem order_eq : ∀ p < 1000,
    order p = [Nat.digitChar (p / 100), Nat.digitChar (p / 10 % 10), Nat.digitChar (p % 10)] := by
  decide +kernel

theorem digitChar_lt : ∀ a < 10, ∀ b < 10, a < b → Nat.digitChar a < Nat.digitChar b := by
  decide +kernel

/-- Numbers with three digits are in the order of their texts. -/
theorem order_append_lt {p q : ℕ} (hpq : p < q) (hq : q < 1000) (s t : Str) :
    order p ++ s < order q ++ t := by
  rw [order_eq p (hpq.trans hq), order_eq q hq]
  simp only [List.cons_append, List.nil_append]
  rcases lt_trichotomy (p / 100) (q / 100) with h | h | h
  · exact List.Lex.rel (digitChar_lt _ (by omega) _ (by omega) h)
  · rw [h]
    refine List.Lex.cons ?_
    rcases lt_trichotomy (p / 10 % 10) (q / 10 % 10) with h' | h' | h'
    · exact List.Lex.rel (digitChar_lt _ (by omega) _ (by omega) h')
    · rw [h']
      exact List.Lex.cons (List.Lex.rel (digitChar_lt _ (by omega) _ (by omega) (by omega)))
    · omega
  · omega

theorem mem_scriptsFrom {ids : List Str} {p : ℕ} {s : Str} (h : s ∈ scriptsFrom p ids) :
    ∃ q id, p ≤ q ∧ q < p + ids.length ∧ s = script q id := by
  induction ids generalizing p with
  | nil => exact absurd h List.not_mem_nil
  | cons id ids ih =>
    rcases List.mem_cons.1 h with rfl | h
    · exact ⟨p, id, le_rfl, by simp, rfl⟩
    · obtain ⟨q, id', hp, hq, rfl⟩ := ih h
      exact ⟨q, id', by omega, by simp only [List.length_cons]; omega, rfl⟩

theorem exists_mem_scriptsFrom {ids : List Str} {id : Str} (p : ℕ) (h : id ∈ ids) :
    ∃ q, script q id ∈ scriptsFrom p ids := by
  induction ids generalizing p with
  | nil => exact absurd h List.not_mem_nil
  | cons id' ids ih =>
    rcases List.mem_cons.1 h with rfl | h
    · exact ⟨p, List.mem_cons_self⟩
    · obtain ⟨q, hq⟩ := ih (p + 1) h
      exact ⟨q, List.mem_cons_of_mem _ hq⟩

theorem pairwise_scriptsFrom {ids : List Str} {p : ℕ} (h : p + ids.length ≤ 1000) :
    (scriptsFrom p ids).Pairwise (· < ·) := by
  induction ids generalizing p with
  | nil => exact .nil
  | cons id ids ih =>
    rw [List.length_cons] at h
    refine .cons (fun s hs => ?_) (ih (by omega))
    obtain ⟨q, id', hp, hq, rfl⟩ := mem_scriptsFrom hs
    rw [script, script, List.append_assoc, List.append_assoc]
    exact order_append_lt (by omega) (by omega) _ _

theorem ofChars_sorted (l : List Str) :
    (Listing.ofChars.list l.toFinset).Pairwise (· ≤ ·) := by
  obtain ⟨l', hl'⟩ : ∃ l' : List Str, l.toFinset.val = ↑l' := ⟨l.dedup, rfl⟩
  rw [Listing.ofChars]
  dsimp only
  rw [hl']
  exact List.pairwise_insertionSort _ l'

theorem ofChars_nodup (l : List Str) : (Listing.ofChars.list l.toFinset).Nodup := by
  obtain ⟨l', hl'⟩ : ∃ l' : List Str, l.toFinset.val = ↑l' := ⟨l.dedup, rfl⟩
  have hnodup : l'.Nodup := Multiset.coe_nodup.1 (hl' ▸ l.toFinset.nodup)
  rw [Listing.ofChars]
  dsimp only
  rw [hl']
  exact (List.perm_insertionSort _ l').nodup_iff.2 hnodup

/-- A list without duplicates that is sorted is what the shell lists. -/
theorem ofChars_eq {l : List Str} (h : l.Pairwise (· < ·)) :
    Listing.ofChars.list l.toFinset = l := by
  have hval : l.toFinset.val = ↑l := by
    rw [List.toFinset_val, List.dedup_eq_self.2 (h.imp ne_of_lt)]
  rw [Listing.ofChars]
  dsimp only
  rw [hval]
  exact List.Pairwise.insertionSort_eq (h.imp le_of_lt)

/-- The scripts in the order in which the shell lists them. -/
def scripts (ids : List Str) : List Str := Listing.ofChars.list (scriptsFrom 1 ids).toFinset

theorem scriptsFrom_append {p : ℕ} {ids ids' : List Str} :
    scriptsFrom p (ids ++ ids') = scriptsFrom p ids ++ scriptsFrom (p + ids.length) ids' := by
  induction ids generalizing p with
  | nil => rfl
  | cons id ids ih =>
    rw [List.cons_append, scriptsFrom, ih, scriptsFrom, List.length_cons, List.cons_append,
      Nat.add_right_comm, Nat.add_assoc]

/-- The scripts are listed in the order of the book exactly if there are fewer than 1000: the
    1000th is listed before the 101st. -/
theorem scripts_eq_iff {ids : List Str} : scripts ids = scriptsFrom 1 ids ↔ ids.length < 1000 := by
  refine ⟨fun h => ?_, fun h => ofChars_eq (pairwise_scriptsFrom (by omega))⟩
  by_contra hlen
  have hsorted : (scriptsFrom 1 ids).Pairwise (· ≤ ·) := h ▸ ofChars_sorted _
  -- The sections before the 101st one, those from it to the 999th one, and the others.
  obtain ⟨a, b, hb⟩ : ∃ a b, ids.drop 100 = a :: b :=
    List.exists_cons_of_ne_nil (by simpa using by omega)
  obtain ⟨c, d, hd⟩ : ∃ c d, b.drop 898 = c :: d := by
    refine List.exists_cons_of_ne_nil ?_
    have hlength := congrArg List.length hb
    simp only [List.length_drop, List.length_cons] at hlength
    simpa using by omega
  have hids : ids = ids.take 100 ++ a :: (b.take 898 ++ c :: d) := by
    rw [← hd, List.take_append_drop, ← hb, List.take_append_drop]
  rw [hids, scriptsFrom_append, scriptsFrom, scriptsFrom_append, scriptsFrom] at hsorted
  have hle := (List.pairwise_cons.1 (List.pairwise_append.1 hsorted).2.1).1
    _ (List.mem_append_right _ List.mem_cons_self)
  refine absurd hle (not_le_of_gt ?_)
  have hlen₁ : (ids.take 100).length = 100 := by simp; omega
  have hlen₂ : (b.take 898).length = 898 := by
    have hlength := congrArg List.length hb
    simp only [List.length_drop, List.length_cons] at hlength
    simp
    omega
  have hlast : order (1 + 100 + 1 + 898) = ['1', '0', '0', '0'] := by decide +kernel
  have hfirst : order (1 + 100) = ['1', '0', '1'] := by decide +kernel
  rw [hlen₁, hlen₂, script, script, hlast, hfirst]
  exact .cons (.cons (.rel (by decide)))

/-! ## The Makefile -/

def all : Str := "all".toList

theorem all_notMem (ids : List Str) : all ∉ scripts ids := by
  intro h
  rw [scripts, Listing.mem_list, List.mem_toFinset] at h
  obtain ⟨q, id, -, -, hq⟩ := mem_scriptsFrom h
  have hdash : '-' ∈ all := hq ▸ by simp [script]
  exact absurd hdash (by decide)

/-- The Makefile that `generate_Makefile` writes, where the recipes record the packages. -/
def makefile (ids : List Str) : Chain where
  scripts := scripts ids
  nodup := ofChars_nodup _
  goals := [(all, scripts ids)]
  goals_subset := List.forall_mem_singleton.2 (List.Subset.refl _)
  goals_notMem := List.forall_mem_singleton.2 (all_notMem ids)
  record s := {pkgName s}

/-- Whatever the outcomes of the recipes are in some runs of `make`, the targets that have been
    touched after them are the first ones, each of them once. The next run takes up the first
    of those that are left; it succeeds exactly if none of their recipes fails, and then the
    targets of all scripts have been touched, and the tracking file knows all packages. -/
theorem packages_built (ids : List Str) (rs : List Chain.Run) :
    ∃ w done rest, scripts ids = done ++ rest ∧ Made (makefile ids) w done rest ∧
      (∃ calls₀, ∀ calls ≥ calls₀, (makefile ids).runs calls rs .clean = some w) ∧
      ∀ outcome, ∃ ok w' calls₀,
        (∀ calls ≥ calls₀, ((makefile ids).makefile outcome).make calls all w = some (ok, w')) ∧
        (ok = true ↔ ∀ s ∈ rest, outcome s = .ok) ∧
        (ok = true → Made (makefile ids) w' (scripts ids) [] ∧
          ∀ id ∈ ids, id ≠ "lfs-bootscripts".toList → id ∈ w'.tracking) := by
  obtain ⟨w, done, rest, hl, hmade, hruns⟩ := (makefile ids).runs_made rs
  refine ⟨w, done, rest, hl, hmade, hruns, fun outcome => ?_⟩
  have hgoal : (makefile ids).goals.lookup all = some (scripts ids) := List.lookup_cons_self
  obtain ⟨ok, w', calls₀, hmake, hok, hend⟩ :=
    hmade.make_last outcome hl hgoal fun s hs => List.mem_of_getLast? hs
  refine ⟨ok, w', calls₀, hmake, hok, fun h => ⟨hend h, fun id hid hboot => ?_⟩⟩
  obtain ⟨p, hp⟩ := exists_mem_scriptsFrom 1 hid
  have hmem : script p id ∈ scripts ids := by
    rw [scripts, Listing.mem_list, List.mem_toFinset]
    exact hp
  have htracked := (hend h).tracking.1 _ hmem
  rw [makefile] at htracked
  exact pkgName_script hboot ▸ Finset.singleton_subset_iff.1 htracked

end LfsBuilder.Jhalfs.PackageMakefile
