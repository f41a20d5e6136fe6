import Mathlib

/-!
# Sequences up to trailing zeros

A list of numbers as the sequence that goes on with zeros after it, in the
lexicographic order of sequences. This is how the components of versions are
compared.

* `zeroPadded_eq_iff`: two lists are the same sequence if they differ in trailing
  zeros only;
* `lexFrom_range'`: the comparison from component to component, up to where both
  sequences agree, decides the order.
-/

/-- The sequence of the numbers of a list, and zeros after it. -/
def zeroPadded (xs : List ℕ) (i : ℕ) : ℕ := xs.getD i 0

theorem zeroPadded_of_length_le {xs : List ℕ} {i : ℕ} (h : xs.length ≤ i) : zeroPadded xs i = 0 :=
  List.getD_eq_default _ _ h

/-- Zeros at the end do not count. -/
theorem zeroPadded_append_zeros (xs : List ℕ) (n : ℕ) :
    zeroPadded (xs ++ List.replicate n 0) = zeroPadded xs := by
  funext i
  rcases lt_or_ge i xs.length with hi | hi
  · exact List.getD_append _ _ _ _ hi
  · rw [zeroPadded_of_length_le hi, zeroPadded, List.getD_append_right _ _ _ _ hi,
      List.getD_eq_getElem?_getD, List.getElem?_getD_replicate_default_eq]

theorem eq_of_zeroPadded_eq {xs ys : List ℕ} (hlength : xs.length = ys.length)
    (h : zeroPadded xs = zeroPadded ys) : xs = ys := by
  refine List.ext_getElem hlength fun i hx hy => ?_
  have hi := congrFun h i
  rwa [zeroPadded, zeroPadded, List.getD_eq_getElem _ _ hx, List.getD_eq_getElem _ _ hy] at hi

/-- Two lists are the same sequence exactly if they differ in zeros at their ends only. -/
theorem zeroPadded_eq_iff {xs ys : List ℕ} : zeroPadded xs = zeroPadded ys ↔
    ∃ m n, xs ++ List.replicate m 0 = ys ++ List.replicate n 0 := by
  constructor
  · intro h
    refine ⟨ys.length - xs.length, xs.length - ys.length, eq_of_zeroPadded_eq ?_ ?_⟩
    · simp only [List.length_append, List.length_replicate]
      omega
    · rw [zeroPadded_append_zeros, zeroPadded_append_zeros, h]
  · rintro ⟨m, n, h⟩
    rw [← zeroPadded_append_zeros xs m, h, zeroPadded_append_zeros]

/-- Whether `a` is at least `b`, as the first of the components `is` says in which they differ. -/
def lexFrom (a b : ℕ → ℕ) : List ℕ → Bool
  | [] => true
  | i :: is => if b i < a i then true else if a i < b i then false else lexFrom a b is

/-- The comparison of all components that may differ decides the lexicographic order. -/
theorem lexFrom_range' {a b : ℕ → ℕ} {i n : ℕ} (hbefore : ∀ j < i, a j = b j)
    (hafter : ∀ j ≥ i + n, a j = b j) :
    lexFrom a b (List.range' i n) = true ↔ toLex b ≤ toLex a := by
  induction n generalizing i with
  | zero =>
    have hab : a = b := by
      funext j
      rcases lt_or_ge j i with hj | hj
      · exact hbefore j hj
      · exact hafter j hj
    exact iff_of_true rfl (le_of_eq (congrArg toLex hab.symm))
  | succ n ih =>
    rw [List.range'_succ, lexFrom]
    rcases lt_trichotomy (a i) (b i) with hlt | heq | hgt
    · have hab : toLex a < toLex b := ⟨i, hbefore, hlt⟩
      rw [if_neg hlt.not_gt, if_pos hlt]
      exact iff_of_false Bool.false_ne_true hab.not_ge
    · rw [if_neg heq.not_gt, if_neg heq.not_lt]
      refine ih (fun j hj => ?_) fun j hj => hafter j (by omega)
      rcases Nat.lt_succ_iff_lt_or_eq.1 hj with hj | rfl
      · exact hbefore j hj
      · exact heq
    · have hba : toLex b < toLex a := ⟨i, fun j hj => (hbefore j hj).symm, hgt⟩
      rw [if_pos hgt]
      exact iff_of_true rfl hba.le
