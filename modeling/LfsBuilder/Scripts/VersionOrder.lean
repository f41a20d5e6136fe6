import LfsBuilder.Library.Padded
import LfsBuilder.Scripts.ArchValidation

/-!
# The order of versions

What `version_compare` of `scripts/arch-validation.sh` says about versions that
are sequences of decimal numerals, with dots between them.

* `fields_dotted`, `field_eq_zeroPadded`: the fields that bash makes of such a version
  are its components, and zeros after them;
* `versionCompare_order`: `version_compare` succeeds in the lexicographic order
  of these sequences.
-/

namespace LfsBuilder.ArchValidation

open Shell

/-- The decimal numerals of numbers, with dots between them. -/
def dotted (xs : List ℕ) : String :=
  String.ofList (List.intercalate ['.'] (xs.map (Nat.toDigits 10)))

/-- A version, by its components: numbers that bash can hold. -/
structure Version where
  components : List ℕ
  nonempty : components ≠ []
  bounded : ∀ n ∈ components, n < 2 ^ 63

/-- The text of a version. -/
def Version.text (v : Version) : String := dotted v.components

variable {h : Host} {c : Ctx} {s : State} {v w : Version}

/-- The digits of numerals have no dots between them. -/
theorem not_mem_toDigits {n : ℕ} {x : Char} (hx : x.isDigit = false) : x ∉ Nat.toDigits 10 n :=
  fun hmem => by
    have hdigit := Nat.isDigit_of_mem_toDigits (by decide) (by decide) hmem
    rw [hx] at hdigit
    cases hdigit

theorem splitOn_dotted {xs : List ℕ} (hxs : xs ≠ []) :
    (dotted xs).toList.splitOn '.' = xs.map (Nat.toDigits 10) := by
  rw [dotted, String.toList_ofList]
  refine List.splitOn_intercalate _ ?_ (List.map_eq_nil_iff.not.2 hxs)
  simp only [List.mem_map]
  rintro _ ⟨n, -, rfl⟩
  exact not_mem_toDigits rfl

/-- The fields of a version are the numerals of its components. -/
theorem fields_dotted (h : Host) {xs : List ℕ} (hxs : xs ≠ []) :
    h.fields (dotted xs) = xs.map Nat.repr := by
  have hlast : (xs.map (Nat.toDigits 10)).getLast? ≠ some [] := fun hnil => by
    obtain ⟨n, -, hn⟩ := List.mem_map.1 (List.mem_of_getLast? hnil)
    exact Nat.toDigits_ne_nil hn
  have hplain (n : ℕ) : (Nat.toDigits 10 n).any (· ∈ ['*', '?', '[', '\\']) = false := by
    rw [List.any_eq_false]
    intro x hx
    have hdigit := Nat.isDigit_of_mem_toDigits (by decide) (by decide) hx
    simp only [decide_eq_true_eq, List.mem_cons, List.not_mem_nil, or_false]
    rintro (rfl | rfl | rfl | rfl) <;> cases hdigit
  simp only [Host.fields, splitOn_dotted hxs, if_neg hlast, List.flatMap_map, hplain,
    Bool.false_eq_true, if_false]
  exact (List.map_eq_flatMap ..).symm

theorem fields_text (h : Host) (v : Version) : h.fields v.text = v.components.map Nat.repr :=
  fields_dotted h v.nonempty

/-- A field of a version is a component, or zero after the last one. -/
theorem field_eq_zeroPadded (h : Host) (v : Version) (i : ℕ) :
    h.field (h.fields v.text) i = .value (zeroPadded v.components i) := by
  rw [Host.field, fields_text, zeroPadded]
  rcases lt_or_ge i v.components.length with hi | hi
  · rw [List.getD_eq_getElem _ _ (by rwa [List.length_map]), List.getElem_map,
      List.getD_eq_getElem _ _ hi, orDefault, if_neg Nat.repr_ne_empty]
    exact Arith.eval_repr _ (v.bounded _ (List.getElem_mem hi))
  · rw [List.getD_eq_default _ _ (by rwa [List.length_map]), List.getD_eq_default _ _ hi]
    exact Arith.eval_repr (n := 0) _ (by decide)

/-- The loop of `version_compare` goes from component to component. -/
theorem orderFrom_eq_lexFrom (h : Host) (v w : Version) (is : List ℕ) :
    h.orderFrom (h.fields v.text) (h.fields w.text) is =
      some (lexFrom (zeroPadded v.components) (zeroPadded w.components) is) := by
  induction is with
  | nil => rfl
  | cons i is ih =>
    rw [Host.orderFrom, field_eq_zeroPadded, field_eq_zeroPadded, ih, lexFrom]
    rcases lt_trichotomy (zeroPadded v.components i) (zeroPadded w.components i) with
      hlt | heq | hgt
    · simp [Arith.compare, hlt, hlt.not_gt]
    · simp [Arith.compare, heq]
    · simp [Arith.compare, hgt]

/-- `version_compare` has a result, for the lexicographic order of the padded components. -/
theorem atLeast_text (h : Host) (v w : Version) : ∃ b, h.atLeast v.text w.text = some b ∧
    (b = true ↔ toLex (zeroPadded w.components) ≤ toLex (zeroPadded v.components)) := by
  rw [Host.atLeast]
  split
  · next htext =>
    have hpadded : zeroPadded v.components = zeroPadded w.components := by
      funext i
      have hfield := field_eq_zeroPadded h v i
      rw [htext, field_eq_zeroPadded] at hfield
      exact (Nat.cast_injective (Arith.value.inj hfield)).symm
    exact ⟨true, rfl, iff_of_true rfl (congrArg toLex hpadded).ge⟩
  · rw [orderFrom_eq_lexFrom, List.range_eq_range']
    refine ⟨_, rfl, lexFrom_range' (fun j hj => absurd hj j.not_lt_zero) fun j hj => ?_⟩
    rw [fields_text, fields_text, List.length_map, List.length_map] at hj
    rw [zeroPadded_of_length_le (by omega), zeroPadded_of_length_le (by omega)]

/-- `version_compare` succeeds. -/
def Succeeds (h : Host) (c : Ctx) (s : State) (v w : Version) : Prop :=
  ∃ s', versionCompare h v.text w.text c s = (.next 0, s')

theorem succeeds_iff : Succeeds h c s v w ↔
    toLex (zeroPadded w.components) ≤ toLex (zeroPadded v.components) := by
  obtain ⟨b, hb, hle⟩ := atLeast_text h v w
  rw [Succeeds, ← wp_ok, wp_versionCompare, hb, Option.elim_some, Post.finish_ok, ← hle]
  cases b <;> simp

/-- `version_compare` is the lexicographic order of the components with zeros after them, and
    thus a total preorder, for which versions are alike up to zeros at their ends. -/
theorem versionCompare_order (h : Host) (c : Ctx) (s : State) :
    (∀ v w, Succeeds h c s v w ↔
      toLex (zeroPadded w.components) ≤ toLex (zeroPadded v.components)) ∧
    (∀ v, Succeeds h c s v v) ∧
    (∀ u v w, Succeeds h c s u v → Succeeds h c s v w → Succeeds h c s u w) ∧
    (∀ v w, Succeeds h c s v w ∨ Succeeds h c s w v) ∧
    ∀ v w, Succeeds h c s v w ∧ Succeeds h c s w v ↔
      ∃ m n, v.components ++ List.replicate m 0 = w.components ++ List.replicate n 0 := by
  refine ⟨fun _ _ => succeeds_iff, ?_, ?_, ?_, ?_⟩ <;> simp only [succeeds_iff]
  · exact fun _ => le_rfl
  · exact fun _ _ _ huv hvw => hvw.trans huv
  · exact fun _ _ => le_total _ _
  · intro v w
    rw [← zeroPadded_eq_iff, and_comm, ← le_antisymm_iff]
    exact toLex_inj

end LfsBuilder.ArchValidation
