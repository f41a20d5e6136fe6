import Mathlib

/-!
# Insertion-ordered dictionaries

A dictionary is an association list without repeated keys. Assigning to a key
that is present replaces its value in place, assigning to a new key appends it:
the keys are enumerated in the order in which they were first assigned.
-/

/-- A dictionary enumerating its keys in the order of their first assignment. -/
structure Dict (κ ν : Type*) where
  entries : List (κ × ν)
  nodup : (entries.map Prod.fst).Nodup

namespace Dict

variable {κ ν : Type*}

/-- The keys, in the order of their first assignment. -/
def keys (d : Dict κ ν) : List κ := d.entries.map Prod.fst

instance : Membership κ (Dict κ ν) := ⟨fun d k => k ∈ d.keys⟩

theorem mem_def {d : Dict κ ν} {k : κ} : k ∈ d ↔ k ∈ d.keys := Iff.rfl

theorem nodup_keys (d : Dict κ ν) : d.keys.Nodup := d.nodup

/-- The empty dictionary. -/
def empty : Dict κ ν := ⟨[], List.nodup_nil⟩

@[simp] theorem keys_empty : (empty : Dict κ ν).keys = [] := rfl

variable [DecidableEq κ]

instance (d : Dict κ ν) (k : κ) : Decidable (k ∈ d) := inferInstanceAs (Decidable (k ∈ d.keys))

/-- The value of a key, if it is present. -/
def get? (d : Dict κ ν) (k : κ) : Option ν := d.entries.lookup k

/-- The value of a key, or else `v`. -/
def getD (d : Dict κ ν) (k : κ) (v : ν) : ν := (d.get? k).getD v

/-- The entries after the assignment of `v` to `k`. -/
def setEntries (k : κ) (v : ν) : List (κ × ν) → List (κ × ν)
  | [] => [(k, v)]
  | e :: es => if e.1 = k then (k, v) :: es else e :: setEntries k v es

theorem keys_setEntries (k : κ) (v : ν) (es : List (κ × ν)) :
    (setEntries k v es).map Prod.fst =
      if k ∈ es.map Prod.fst then es.map Prod.fst else es.map Prod.fst ++ [k] := by
  induction es with
  | nil => simp [setEntries]
  | cons e es ih =>
    by_cases he : e.1 = k
    · simp [setEntries, he]
    · rw [setEntries, if_neg he, List.map_cons, ih]
      by_cases hk : k ∈ es.map Prod.fst
      · simp [hk]
      · simp [hk, Ne.symm he]

theorem nodup_setEntries (k : κ) (v : ν) {es : List (κ × ν)} (h : (es.map Prod.fst).Nodup) :
    ((setEntries k v es).map Prod.fst).Nodup := by
  rw [keys_setEntries]
  split
  · exact h
  · next hk =>
    exact List.nodup_append.2 ⟨h, List.nodup_singleton k, fun a ha b hb => by
      rintro rfl
      exact hk (List.mem_singleton.1 hb ▸ ha)⟩

/-- The assignment of `v` to `k`. -/
def set (d : Dict κ ν) (k : κ) (v : ν) : Dict κ ν :=
  ⟨setEntries k v d.entries, nodup_setEntries k v d.nodup⟩

theorem keys_set (d : Dict κ ν) (k : κ) (v : ν) :
    (d.set k v).keys = if k ∈ d then d.keys else d.keys ++ [k] :=
  keys_setEntries k v d.entries

theorem keys_set_of_mem {d : Dict κ ν} {k : κ} (h : k ∈ d) (v : ν) : (d.set k v).keys = d.keys := by
  rw [keys_set, if_pos h]

@[simp] theorem mem_set {d : Dict κ ν} {k k' : κ} {v : ν} : k' ∈ d.set k v ↔ k' ∈ d ∨ k' = k := by
  rw [mem_def, keys_set]
  split
  · next h => exact ⟨.inl, fun h' => h'.elim id fun e => e ▸ h⟩
  · rw [List.mem_append, List.mem_singleton]; rfl

theorem lookup_setEntries (k k' : κ) (v : ν) (es : List (κ × ν)) :
    (setEntries k v es).lookup k' = if k' = k then some v else es.lookup k' := by
  induction es with
  | nil =>
    by_cases hk : k' = k
    · simp [setEntries, hk]
    · simp [setEntries, List.lookup, hk, beq_eq_false_iff_ne.2 hk]
  | cons e es ih =>
    by_cases he : e.1 = k
    · rw [setEntries, if_pos he]
      by_cases hk : k' = k
      · simp [List.lookup, hk]
      · simp [List.lookup, hk, he, beq_eq_false_iff_ne.2 hk]
    · rw [setEntries, if_neg he]
      by_cases hk' : k' = e.1
      · simp [List.lookup, hk', he]
      · simp [List.lookup, beq_eq_false_iff_ne.2 hk', ih]

@[simp] theorem get?_set (d : Dict κ ν) (k k' : κ) (v : ν) :
    (d.set k v).get? k' = if k' = k then some v else d.get? k' :=
  lookup_setEntries k k' v d.entries

theorem get?_eq_none {d : Dict κ ν} {k : κ} (h : k ∉ d) : d.get? k = none :=
  List.lookup_eq_none_iff.2 fun e he => by
    rw [bne_iff_ne]
    rintro rfl
    exact h (List.mem_map_of_mem he)

theorem get?_of_mem {d : Dict κ ν} {k : κ} (h : k ∈ d) (v : ν) : d.get? k = some (d.getD k v) := by
  rw [getD]
  cases hk : d.get? k with
  | some w => rfl
  | none =>
    obtain ⟨e, he, rfl⟩ := List.mem_map.1 h
    simpa using List.lookup_eq_none_iff.1 hk e he

/-- The entries are the keys with their values. -/
theorem mem_entries_iff [LawfulBEq κ] {d : Dict κ ν} {k : κ} {v : ν} :
    (k, v) ∈ d.entries ↔ d.get? k = some v := by
  rw [get?, List.lookup_eq_some_iff]
  constructor
  · intro h
    obtain ⟨before, after, he⟩ := List.append_of_mem h
    refine ⟨before, after, he, fun e hmem => ?_⟩
    have hnd := d.nodup
    rw [he, List.map_append, List.map_cons] at hnd
    rw [bne_iff_ne]
    rintro rfl
    exact (List.nodup_append.1 hnd).2.2 _ (List.mem_map_of_mem hmem) _ List.mem_cons_self rfl
  · rintro ⟨before, after, he, -⟩
    rw [he]
    exact List.mem_append_right _ List.mem_cons_self

@[simp] theorem get?_empty (k : κ) : (empty : Dict κ ν).get? k = none := rfl

theorem getD_set (d : Dict κ ν) (k k' : κ) (v w : ν) :
    (d.set k v).getD k' w = if k' = k then v else d.getD k' w := by
  rw [getD, get?_set]
  split <;> rfl

/-- The assignments of the pairs `es` in turn. -/
def setAll (d : Dict κ ν) (es : List (κ × ν)) : Dict κ ν := es.foldl (fun d e => d.set e.1 e.2) d

/-- The last assignment to a key is what it keeps. -/
theorem get?_setAll (d : Dict κ ν) (es : List (κ × ν)) (k : κ) :
    (d.setAll es).get? k = (((es.filter (·.1 = k)).getLast?).map Prod.snd).or (d.get? k) := by
  induction es generalizing d with
  | nil => rfl
  | cons e es ih =>
    rw [setAll, List.foldl_cons, ← setAll, ih, get?_set]
    by_cases he : e.1 = k
    · rw [List.filter_cons_of_pos (by simpa using he), if_pos he.symm, List.getLast?_cons]
      cases (es.filter (·.1 = k)).getLast? <;> rfl
    · rw [List.filter_cons_of_neg (by simpa using he), if_neg (Ne.symm he)]

/-- The dictionary with the keys `ks`, all with the value `v`. -/
def fromKeys (ks : List κ) (v : ν) : Dict κ ν := ks.foldl (fun d k => d.set k v) empty

theorem mem_foldl_set {ks : List κ} {v : ν} {k : κ} (d : Dict κ ν) :
    k ∈ ks.foldl (fun d k => d.set k v) d ↔ k ∈ d ∨ k ∈ ks := by
  induction ks generalizing d with
  | nil => simp
  | cons k' ks ih => rw [List.foldl_cons, ih, mem_set, List.mem_cons, or_assoc]

@[simp] theorem mem_fromKeys {ks : List κ} {v : ν} {k : κ} : k ∈ fromKeys ks v ↔ k ∈ ks := by
  rw [fromKeys, mem_foldl_set]
  exact or_iff_right List.not_mem_nil

theorem keys_foldl_set [BEq κ] [LawfulBEq κ] (ks : List κ) (v : ν) (d : Dict κ ν) :
    (ks.foldl (fun d k => d.set k v) d).keys = d.keys ++ (ks.filter (· ∉ d)).eraseDups := by
  induction ks generalizing d with
  | nil => simp
  | cons k ks ih =>
    rw [List.foldl_cons, ih, keys_set]
    by_cases hk : k ∈ d
    · have hset : ks.filter (· ∉ d.set k v) = ks.filter (· ∉ d) :=
        List.filter_congr fun k' _ => by
          simp only [mem_set, decide_eq_decide, not_or, and_iff_left_iff_imp]
          rintro hk' rfl
          exact hk' hk
      rw [if_pos hk, hset, List.filter_cons_of_neg (by simpa using hk)]
    · have hset : ks.filter (· ∉ d.set k v) = (ks.filter (· ∉ d)).filter fun k' => !k' == k := by
        rw [List.filter_filter]
        refine List.filter_congr fun k' _ => ?_
        by_cases hkk : k' = k <;> simp [hkk]
      rw [if_neg hk, hset, List.filter_cons_of_pos (by simpa using hk), List.eraseDups_cons,
        List.append_assoc, List.singleton_append]

/-- The keys of a dictionary that is made from a list are its elements, without
    repetition, in the order in which they first occur. -/
theorem keys_fromKeys [BEq κ] [LawfulBEq κ] (ks : List κ) (v : ν) :
    (fromKeys ks v).keys = ks.eraseDups := by
  rw [fromKeys, keys_foldl_set, keys_empty, List.nil_append, List.filter_eq_self.2]
  exact fun k _ => decide_eq_true List.not_mem_nil

theorem length_keys_foldl_set_le (ks : List κ) (v : ν) (d : Dict κ ν) :
    (ks.foldl (fun d k => d.set k v) d).keys.length ≤ d.keys.length + ks.length := by
  induction ks generalizing d with
  | nil => exact Nat.le_refl _
  | cons k ks ih =>
    have hset : (d.set k v).keys.length ≤ d.keys.length + 1 := by
      rw [keys_set]
      split
      · exact Nat.le_succ _
      · exact Nat.le_of_eq List.length_append
    have := ih (d.set k v)
    rw [List.foldl_cons, List.length_cons]
    omega

theorem length_keys_fromKeys_le (ks : List κ) (v : ν) : (fromKeys ks v).keys.length ≤ ks.length :=
  Nat.le_trans (length_keys_foldl_set_le ks v empty) (Nat.le_of_eq (Nat.zero_add _))

theorem getD_foldl_set {ks : List κ} {v : ν} {k : κ} (d : Dict κ ν) (h : d.getD k v = v) :
    (ks.foldl (fun d k => d.set k v) d).getD k v = v := by
  induction ks generalizing d with
  | nil => exact h
  | cons k' ks ih =>
    refine ih (d.set k' v) ?_
    rw [getD_set]
    split
    · rfl
    · exact h

theorem getD_fromKeys (ks : List κ) (v : ν) (k : κ) : (fromKeys ks v).getD k v = v :=
  getD_foldl_set empty rfl

end Dict
