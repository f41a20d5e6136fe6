import LfsBuilder.Library.Text

/-!
# Stream editing

The commands of sed on the lines of a file: text appended after or inserted before
the lines that match, substitutions, and commands on ranges of lines. Patterns are
plain words, or words in order with anything between them.

* `length_lt_replaceAll`, `infix_of_replaceAll`: when a substitution makes a text longer,
  and what it does not bring about;
* `size_appendAfter`, `size_insertBefore`, `size_le_substitute`: by how much a file
  grows;
* `range_eq_self`, `forall_mem_range`, `range_append`: what a range leaves, and how it
  goes on from one part of a file to the next.
-/

namespace Sed

open Text

/-! ## Patterns -/

/-- What follows the first place of `w`. -/
def dropThrough (w : Str) : Str → Option Str
  | [] => if w = [] then some [] else none
  | c :: s => if w.isPrefixOf (c :: s) then some ((c :: s).drop w.length) else dropThrough w s

/-- Whether a text matches `w`. -/
def contains (w s : Str) : Bool := (dropThrough w s).isSome

/-- Whether a text matches the pattern `.*w₁.*w₂.*` for the words `w₁`, `w₂`, ... -/
def inOrder : List Str → Str → Bool
  | [], _ => true
  | w :: ws, s => (dropThrough w s).any (inOrder ws)

variable {w x y s t : Str} {c : Char}

theorem contains_iff : contains w s = true ↔ w <:+: s := by
  induction s with
  | nil =>
    rw [contains, dropThrough, List.infix_nil]
    split <;> simp [*]
  | cons c s ih =>
    rw [contains, dropThrough, List.infix_cons_iff]
    split
    · next h => exact iff_of_true rfl (.inl (List.isPrefixOf_iff_prefix.1 h))
    · next h =>
      rw [← contains, ih, or_iff_right]
      exact fun h' => h (List.isPrefixOf_iff_prefix.2 h')

theorem contains_eq_false_iff : contains w s = false ↔ ¬w <:+: s := by
  rw [← Bool.not_eq_true, contains_iff]

/-- Without a part of a word, a text does not contain the word. -/
theorem not_contains_mono (h : w <:+: x) (hs : contains w s = false) : contains x s = false := by
  rw [contains_eq_false_iff] at hs ⊢
  exact fun hx => hs (h.trans hx)

/-! ## Substitutions -/

/-- The text with `y` for `x`, from left to right, after `skip` more characters of the
    place that was replaced last. -/
def replaceFrom (x y : Str) : (skip : ℕ) → Str → Str
  | _, [] => []
  | skip + 1, _ :: s => replaceFrom x y skip s
  | 0, c :: s =>
    if x.isPrefixOf (c :: s) then y ++ replaceFrom x y (x.length - 1) s
    else c :: replaceFrom x y 0 s

/-- `s/x/y/g` -/
def replaceAll (x y s : Str) : Str := replaceFrom x y 0 s

/-- `s/x/y/` -/
def replaceFirst (x y : Str) : Str → Str
  | [] => []
  | c :: s => if x.isPrefixOf (c :: s) then y ++ (c :: s).drop x.length else c :: replaceFirst x y s

theorem replaceAll_of_not_contains (h : contains x s = false) : replaceAll x y s = s := by
  rw [contains_eq_false_iff] at h
  induction s with
  | nil => rfl
  | cons c s ih =>
    rw [List.infix_cons_iff, not_or] at h
    rw [replaceAll, replaceFrom, if_neg fun h' => h.1 (List.isPrefixOf_iff_prefix.1 h'),
      ← replaceAll, ih h.2]

theorem length_replaceFrom (hx : 0 < x.length) (hxy : x.length ≤ y.length) (skip : ℕ) (s : Str) :
    s.length ≤ (replaceFrom x y skip s).length + skip := by
  induction s generalizing skip with
  | nil => exact Nat.zero_le _
  | cons c s ih =>
    cases skip with
    | succ skip =>
      have hs := ih skip
      rw [replaceFrom, List.length_cons]
      omega
    | zero =>
      rw [replaceFrom]
      split
      · have hs := ih (x.length - 1)
        simp only [List.length_cons, List.length_append]
        omega
      · have hs := ih 0
        simp only [List.length_cons]
        omega

theorem length_le_replaceAll (hx : 0 < x.length) (hxy : x.length ≤ y.length) (s : Str) :
    s.length ≤ (replaceAll x y s).length :=
  length_replaceFrom hx hxy 0 s

/-- A text with `x` grows when `x` is replaced by something longer. -/
theorem length_lt_replaceAll (hx : 0 < x.length) (hxy : x.length < y.length)
    (h : contains x s = true) : s.length < (replaceAll x y s).length := by
  rw [contains_iff] at h
  induction s with
  | nil => exact absurd h.length_le (Nat.not_le_of_lt hx)
  | cons c s ih =>
    rw [replaceAll, replaceFrom]
    split
    · have hs := length_replaceFrom hx hxy.le (x.length - 1) s
      simp only [List.length_cons, List.length_append]
      omega
    · next hpre =>
      have hs : x <:+: s := (List.infix_cons_iff.1 h).resolve_left fun h' =>
        hpre (List.isPrefixOf_iff_prefix.2 h')
      exact Nat.succ_lt_succ (ih hs)

/-- The substitution of a word by another one changes the texts with `x`. -/
theorem replaceFirst_eq_self_iff (hx : 0 < x.length) (hxy : x ≠ y) :
    replaceFirst x y s = s ↔ contains x s = false := by
  rw [contains_eq_false_iff]
  induction s with
  | nil =>
    refine iff_of_true rfl fun h => absurd h.length_le (Nat.not_le_of_lt hx)
  | cons c s ih =>
    rw [replaceFirst, List.infix_cons_iff]
    split
    · next hpre =>
      refine iff_of_false (fun h => hxy ?_) fun h => h (.inl (List.isPrefixOf_iff_prefix.1 hpre))
      obtain ⟨t, ht⟩ := List.isPrefixOf_iff_prefix.1 hpre
      rw [← ht, List.drop_left] at h
      exact (List.append_left_inj t).1 h.symm
    · next hpre =>
      rw [List.cons_inj_right, ih, not_or, and_iff_right]
      exact fun h => hpre (List.isPrefixOf_iff_prefix.2 h)

/-- A word without characters of `y` that begins a text does so before the substitution. -/
theorem prefix_of_replaceFrom (hy : y ≠ []) (hdisj : ∀ c ∈ y, c ∉ w)
    (h : w <+: replaceFrom x y 0 s) : w <+: s := by
  induction s generalizing w with
  | nil => exact h
  | cons c s ih =>
    cases w with
    | nil => exact List.nil_prefix
    | cons d w =>
      rw [replaceFrom] at h
      split at h
      · obtain ⟨e, y, rfl⟩ := List.exists_cons_of_ne_nil hy
        rw [List.cons_append, List.cons_prefix_cons] at h
        exact absurd (h.1 ▸ List.mem_cons_self) (hdisj e List.mem_cons_self)
      · rw [List.cons_prefix_cons] at h ⊢
        exact ⟨h.1, ih (fun a ha hmem => hdisj a ha (List.mem_cons_of_mem _ hmem)) h.2⟩

/-- A word that does not begin in `y` is in what `y` begins only if it is in the rest. -/
theorem infix_of_append (hw : w ≠ []) (hdisj : ∀ c ∈ y, w.head? ≠ some c) (h : w <:+: y ++ t) :
    w <:+: t := by
  induction y with
  | nil => exact h
  | cons c y ih =>
    rw [List.forall_mem_cons] at hdisj
    rw [List.cons_append, List.infix_cons_iff] at h
    refine ih hdisj.2 (h.resolve_left fun hpre => hdisj.1 ?_)
    obtain ⟨d, w, rfl⟩ := List.exists_cons_of_ne_nil hw
    rw [(List.cons_prefix_cons.1 hpre).1]
    rfl

/-- A substitution does not bring about a word that has no characters of `y`. -/
theorem infix_of_replaceFrom (hw : w ≠ []) (hy : y ≠ []) (hdisj : ∀ c ∈ y, c ∉ w) {skip : ℕ}
    (h : w <:+: replaceFrom x y skip s) : w <:+: s := by
  induction s generalizing skip with
  | nil => rwa [replaceFrom] at h
  | cons c s ih =>
    rw [List.infix_cons_iff]
    cases skip with
    | succ skip => exact .inr (ih h)
    | zero =>
      rw [replaceFrom] at h
      split at h
      · refine .inr (ih (infix_of_append hw (fun a ha hhead => hdisj a ha ?_) h))
        exact List.mem_of_head? hhead
      · obtain ⟨d, w, rfl⟩ := List.exists_cons_of_ne_nil hw
        rcases List.infix_cons_iff.1 h with hpre | h
        · rw [List.cons_prefix_cons] at hpre ⊢
          refine .inl ⟨hpre.1, prefix_of_replaceFrom hy (fun a ha hmem => ?_) hpre.2⟩
          exact hdisj a ha (List.mem_cons_of_mem _ hmem)
        · exact .inr (ih h)

theorem infix_of_replaceAll (hw : w ≠ []) (hy : y ≠ []) (hdisj : ∀ c ∈ y, c ∉ w)
    (h : w <:+: replaceAll x y s) : w <:+: s :=
  infix_of_replaceFrom hw hy hdisj h

theorem mem_of_mem_replaceFrom {skip : ℕ} (h : c ∈ replaceFrom x y skip s) : c ∈ y ∨ c ∈ s := by
  induction s generalizing skip with
  | nil =>
    rw [replaceFrom] at h
    cases h
  | cons d s ih =>
    cases skip with
    | succ skip => exact (ih h).imp id (List.mem_cons_of_mem _)
    | zero =>
      rw [replaceFrom] at h
      split at h
      · exact (List.mem_append.1 h).elim .inl fun h => (ih h).imp id (List.mem_cons_of_mem _)
      · rcases List.mem_cons.1 h with rfl | h
        · exact .inr List.mem_cons_self
        · exact (ih h).imp id (List.mem_cons_of_mem _)

/-- What replaces a word can be found in the text after that. -/
theorem mem_replaceAll (hx : x ≠ []) (h : contains x s = true) (hc : c ∈ y) :
    c ∈ replaceAll x y s := by
  rw [contains_iff] at h
  induction s with
  | nil => exact absurd (List.infix_nil.1 h) hx
  | cons d s ih =>
    rw [replaceAll, replaceFrom]
    split
    · exact List.mem_append_left _ hc
    · next hpre =>
      refine List.mem_cons_of_mem _ (ih ((List.infix_cons_iff.1 h).resolve_left fun h' => ?_))
      exact hpre (List.isPrefixOf_iff_prefix.2 h')

theorem replaceAll_append_left (hx : x ≠ []) (ht : ∀ c ∈ t, c ∉ x) (s : Str) :
    replaceAll x y (t ++ s) = t ++ replaceAll x y s := by
  induction t with
  | nil => rfl
  | cons c t ih =>
    rw [List.forall_mem_cons] at ht
    have hpre : ¬x.isPrefixOf (c :: (t ++ s)) = true := fun h => by
      obtain ⟨d, x, rfl⟩ := List.exists_cons_of_ne_nil hx
      exact ht.1 ((List.cons_prefix_cons.1 (List.isPrefixOf_iff_prefix.1 h)).1 ▸ List.mem_cons_self)
    rw [List.cons_append, replaceAll, replaceFrom, if_neg hpre, ← replaceAll, ih ht.2,
      List.cons_append]

/-- A word without characters of `t` that begins a text before `t` is in the text. -/
theorem prefix_of_prefix_append (ht : ∀ c ∈ t, c ∉ w) (h : w <+: s ++ t) : w <+: s := by
  refine List.prefix_of_prefix_length_le h (List.prefix_append s t) ?_
  by_contra hlen
  obtain ⟨u, hu⟩ : s <+: w :=
    List.prefix_of_prefix_length_le (List.prefix_append s t) h (Nat.le_of_not_le hlen)
  rw [← hu, List.prefix_append_right_inj] at h
  cases u with
  | nil =>
    rw [List.append_nil] at hu
    exact hlen (congrArg List.length hu).ge
  | cons d u =>
    refine ht d (h.mem List.mem_cons_self) ?_
    rw [← hu]
    exact List.mem_append_right _ List.mem_cons_self

theorem replaceFrom_append (hx : x ≠ []) (ht : ∀ c ∈ t, c ∉ x) {skip : ℕ}
    (hskip : skip ≤ s.length) : replaceFrom x y skip (s ++ t) = replaceFrom x y skip s ++ t := by
  induction s generalizing skip with
  | nil =>
    obtain rfl : skip = 0 := Nat.le_zero.1 hskip
    have h := @replaceAll_append_left x y t hx ht []
    rw [List.append_nil] at h
    rw [List.nil_append, replaceFrom, List.nil_append]
    rw [replaceAll, replaceAll, replaceFrom, List.append_nil] at h
    exact h
  | cons c s ih =>
    cases skip with
    | succ skip => exact ih (Nat.le_of_succ_le_succ hskip)
    | zero =>
      rw [List.cons_append, replaceFrom, replaceFrom]
      have hiff : x.isPrefixOf (c :: (s ++ t)) = x.isPrefixOf (c :: s) := by
        rw [Bool.eq_iff_iff, List.isPrefixOf_iff_prefix, List.isPrefixOf_iff_prefix]
        exact ⟨fun h => prefix_of_prefix_append (s := c :: s) ht h,
          fun h => h.trans (List.prefix_append (c :: s) t)⟩
      rw [hiff]
      split
      · next hpre =>
        have hlen := (List.isPrefixOf_iff_prefix.1 hpre).length_le
        rw [List.length_cons] at hlen
        rw [ih (by omega), List.append_assoc]
      · rw [ih (Nat.zero_le _), List.cons_append]

theorem replaceAll_append_right (hx : x ≠ []) (ht : ∀ c ∈ t, c ∉ x) (s : Str) :
    replaceAll x y (s ++ t) = replaceAll x y s ++ t :=
  replaceFrom_append hx ht (Nat.zero_le _)

/-! ## Lines -/

/-- A line of a file; the last one can be without its line break. -/
structure Line where
  text : Str
  ended : Bool := true
  deriving DecidableEq

/-- Lines that a command writes. -/
def written (texts : List Str) : List Line := texts.map fun text => ⟨text, true⟩

/-- `/p/a\texts` -/
def appendAfter (p : Str → Bool) (texts : List Str) (ls : List Line) : List Line :=
  ls.flatMap fun l => if p l.text then ⟨l.text, true⟩ :: written texts else [l]

/-- `/p/i\texts` -/
def insertBefore (p : Str → Bool) (texts : List Str) (ls : List Line) : List Line :=
  ls.flatMap fun l => if p l.text then written texts ++ [l] else [l]

/-- A substitution on every line. -/
def substitute (f : Str → Str) (ls : List Line) : List Line :=
  ls.map fun l => { l with text := f l.text }

/-- The commands `f` on the lines of `/start/,/stop/`: from a line that matches `start` to
    the next one after it that matches `stop`. -/
def range (start stop : Str → Bool) (f : Line → List Line) : (active : Bool) → List Line → List Line
  | _, [] => []
  | false, l :: ls =>
    if start l.text then f l ++ range start stop f true ls else l :: range start stop f false ls
  | true, l :: ls => f l ++ range start stop f (!stop l.text) ls

/-- Whether the range is active after a line. -/
def activeAfter (start stop : Str → Bool) (active : Bool) (text : Str) : Bool :=
  if active then !stop text else start text

/-- The characters of a file, with one line break for each line. -/
def size (ls : List Line) : ℕ := (ls.map fun l => l.text.length + 1).sum

variable {p start stop : Str → Bool} {texts : List Str} {ls : List Line} {l : Line} {active : Bool}
  {f : Line → List Line} {g : Str → Str}

theorem size_append (ls ls' : List Line) : size (ls ++ ls') = size ls + size ls' := by
  rw [size, List.map_append, List.sum_append]
  rfl

theorem size_cons (l : Line) (ls : List Line) : size (l :: ls) = l.text.length + 1 + size ls := by
  rw [size, List.map_cons, List.sum_cons]
  rfl

theorem size_nil : size [] = 0 := rfl

/-- What is written once for every line that matches. -/
theorem size_flatMap {e : Line → List Line} {k : ℕ}
    (he : ∀ l, size (e l) = size [l] + if p l.text then k else 0) (ls : List Line) :
    size (ls.flatMap e) = size ls + ls.countP (fun l => p l.text) * k := by
  induction ls with
  | nil => simp [size_nil]
  | cons l ls ih =>
    rw [List.flatMap_cons, size_append, ih, he, size_cons, size_cons, size_nil, List.countP_cons]
    split <;> ring

theorem size_appendAfter (p : Str → Bool) (texts : List Str) (ls : List Line) :
    size (appendAfter p texts ls) =
      size ls + ls.countP (fun l => p l.text) * size (written texts) := by
  refine size_flatMap (fun l => ?_) ls
  split
  · rw [size_cons, size_cons, size_nil]
  · rfl

theorem size_insertBefore (p : Str → Bool) (texts : List Str) (ls : List Line) :
    size (insertBefore p texts ls) =
      size ls + ls.countP (fun l => p l.text) * size (written texts) := by
  refine size_flatMap (fun l => ?_) ls
  split
  · rw [size_append, Nat.add_comm]
  · rfl

theorem written_append (texts texts' : List Str) :
    written (texts ++ texts') = written texts ++ written texts' := List.map_append

theorem appendAfter_cons (p : Str → Bool) (texts : List Str) (text : Str) (ls : List Line) :
    appendAfter p texts (⟨text, true⟩ :: ls) =
      ⟨text, true⟩ :: written (if p text then texts else []) ++ appendAfter p texts ls := by
  rw [appendAfter, List.flatMap_cons]
  dsimp only
  split <;> rfl

theorem appendAfter_eq_self (h : ∀ l ∈ ls, p l.text = false) : appendAfter p texts ls = ls := by
  rw [appendAfter, List.flatMap_congr fun l hl => by rw [h l hl, if_neg Bool.false_ne_true]]
  exact List.flatMap_singleton' ls

theorem insertBefore_eq_self (h : ∀ l ∈ ls, p l.text = false) : insertBefore p texts ls = ls := by
  rw [insertBefore, List.flatMap_congr fun l hl => by rw [h l hl, if_neg Bool.false_ne_true]]
  exact List.flatMap_singleton' ls

theorem forall_mem_written {P : Line → Prop} :
    (∀ m ∈ written texts, P m) ↔ ∀ text ∈ texts, P ⟨text, true⟩ := by
  rw [written, List.forall_mem_map]

/-- The lines of a file with appended text, by their texts. -/
theorem forall_mem_appendAfter {P : Str → Prop} (htexts : ∀ text ∈ texts, P text)
    (hls : ∀ l ∈ ls, P l.text) : ∀ m ∈ appendAfter p texts ls, P m.text := by
  rw [appendAfter, List.forall_mem_flatMap]
  intro l hl
  split
  · rw [List.forall_mem_cons, forall_mem_written]
    exact ⟨hls l hl, htexts⟩
  · rw [List.forall_mem_singleton]
    exact hls l hl

theorem forall_mem_insertBefore {P : Str → Prop} (htexts : ∀ text ∈ texts, P text)
    (hls : ∀ l ∈ ls, P l.text) : ∀ m ∈ insertBefore p texts ls, P m.text := by
  rw [insertBefore, List.forall_mem_flatMap]
  intro l hl
  split
  · rw [List.forall_mem_append, forall_mem_written, List.forall_mem_singleton]
    exact ⟨htexts, hls l hl⟩
  · rw [List.forall_mem_singleton]
    exact hls l hl

theorem substitute_eq_self_iff : substitute g ls = ls ↔ ∀ l ∈ ls, g l.text = l.text := by
  have hid : substitute g ls = ls.map id ↔ ∀ l ∈ ls, ({ l with text := g l.text } : Line) = l :=
    List.map_inj_left
  rw [List.map_id] at hid
  rw [hid]
  refine forall₂_congr fun l _ => ?_
  cases l
  simp

/-- A substitution that makes texts longer makes the file longer. -/
theorem size_le_substitute (hg : ∀ s, s.length ≤ (g s).length) (ls : List Line) :
    size ls ≤ size (substitute g ls) := by
  induction ls with
  | nil => exact Nat.le_refl _
  | cons l ls ih =>
    rw [substitute] at ih ⊢
    rw [List.map_cons, size_cons, size_cons]
    have hl := hg l.text
    dsimp only
    omega

/-- If the file stays as long as it is, every line does. -/
theorem length_of_size_substitute (hg : ∀ s, s.length ≤ (g s).length)
    (h : size (substitute g ls) ≤ size ls) : ∀ l ∈ ls, (g l.text).length ≤ l.text.length := by
  induction ls with
  | nil => exact fun l hl => by cases hl
  | cons l ls ih =>
    have hls := size_le_substitute hg ls
    have hl := hg l.text
    rw [substitute, List.map_cons, size_cons, size_cons, ← substitute] at h
    dsimp only at h
    rw [List.forall_mem_cons]
    exact ⟨by omega, ih (by omega)⟩

theorem range_eq_self (h : ∀ l ∈ ls, start l.text = false) : range start stop f false ls = ls := by
  induction ls with
  | nil => rfl
  | cons l ls ih =>
    rw [List.forall_mem_cons] at h
    rw [range, h.1, if_neg Bool.false_ne_true, ih h.2]

/-- Whether the range is active after lines. -/
def activeFrom (start stop : Str → Bool) (active : Bool) (ls : List Line) : Bool :=
  ls.foldl (fun active l => activeAfter start stop active l.text) active

theorem range_cons (active : Bool) (l : Line) (ls : List Line) :
    range start stop f active (l :: ls) =
      (if active || start l.text then f l else [l]) ++
        range start stop f (activeAfter start stop active l.text) ls := by
  cases active with
  | true => rfl
  | false =>
    rw [range, activeAfter]
    cases start l.text <;> rfl

/-- A range goes on with the lines that come after. -/
theorem range_append (active : Bool) (ls ls' : List Line) :
    range start stop f active (ls ++ ls') =
      range start stop f active ls ++ range start stop f (activeFrom start stop active ls) ls' := by
  induction ls generalizing active with
  | nil =>
    cases active <;> rfl
  | cons l ls ih => rw [List.cons_append, range_cons, ih, range_cons, List.append_assoc]; rfl

/-- Lines that no command of a range touches, and that neither start nor stop it. -/
theorem range_quiet (h : ∀ l ∈ ls, start l.text = false ∧ stop l.text = false ∧ f l = [l])
    (active : Bool) :
    range start stop f active ls = ls ∧ activeFrom start stop active ls = active := by
  induction ls with
  | nil => cases active <;> exact ⟨rfl, rfl⟩
  | cons l ls ih =>
    rw [List.forall_mem_cons] at h
    obtain ⟨⟨hstart, hstop, hf⟩, h⟩ := h
    have hactive : activeAfter start stop active l.text = active := by
      rw [activeAfter, hstart, hstop]
      cases active <;> rfl
    refine ⟨?_, ?_⟩
    · rw [range_cons, hactive, (ih h).1, hf, ite_self]
      rfl
    · rw [activeFrom, List.foldl_cons, hactive]
      exact (ih h).2

/-- What the commands of a range write, and what the lines outside of it are. -/
theorem forall_mem_range {P : Line → Prop} (hf : ∀ l, ∀ m ∈ f l, P m)
    (hl : ∀ l ∈ ls, start l.text = false → P l) (active : Bool) :
    ∀ m ∈ range start stop f active ls, P m := by
  induction ls generalizing active with
  | nil => exact fun m hm => by cases hm
  | cons l ls ih =>
    rw [List.forall_mem_cons] at hl
    cases active with
    | true =>
      rw [range, List.forall_mem_append]
      exact ⟨hf l, ih hl.2 _⟩
    | false =>
      rw [range]
      split
      · rw [List.forall_mem_append]
        exact ⟨hf l, ih hl.2 _⟩
      · next hstart =>
        rw [List.forall_mem_cons]
        exact ⟨hl.1 (Bool.eq_false_of_not_eq_true hstart), ih hl.2 _⟩

/-! ## Positions -/

/-- `Q` holds of every element, with those before it. -/
def Everywhere {α : Type*} (Q : List α → α → Prop) (xs : List α) : Prop :=
  ∀ u a v, xs = u ++ a :: v → Q u a

section

variable {α : Type*} {Q R : List α → α → Prop} {xs ys : List α} {a : α}

theorem everywhere_nil : Everywhere Q [] := fun u a v h => by
  have hlen := congrArg List.length h
  simp at hlen

theorem everywhere_cons :
    Everywhere Q (a :: xs) ↔ Q [] a ∧ Everywhere (fun u => Q (a :: u)) xs := by
  refine ⟨fun h => ⟨h [] a xs rfl, fun u b v hxs => h (a :: u) b v (hxs ▸ rfl)⟩,
    fun h u b v hxs => ?_⟩
  cases u with
  | nil =>
    obtain ⟨rfl, rfl⟩ := List.cons.inj hxs
    exact h.1
  | cons c u =>
    obtain ⟨rfl, hxs'⟩ := List.cons.inj hxs
    exact h.2 u b v hxs'

theorem everywhere_append :
    Everywhere Q (xs ++ ys) ↔ Everywhere Q xs ∧ Everywhere (fun u => Q (xs ++ u)) ys := by
  induction xs generalizing Q with
  | nil => exact (and_iff_right everywhere_nil).symm
  | cons a xs ih => rw [List.cons_append, everywhere_cons, ih, everywhere_cons, and_assoc]; rfl

theorem everywhere_map {β : Type*} {f : β → α} {zs : List β} :
    Everywhere Q (zs.map f) ↔ Everywhere (fun u b => Q (u.map f) (f b)) zs := by
  induction zs generalizing Q with
  | nil => exact iff_of_true everywhere_nil everywhere_nil
  | cons b zs ih => rw [List.map_cons, everywhere_cons, everywhere_cons, ih]; rfl

theorem everywhere_of_forall (h : ∀ u, ∀ a ∈ xs, Q u a) : Everywhere Q xs := fun u a v hxs =>
  h u a (by rw [hxs]; exact List.mem_append_right _ List.mem_cons_self)

theorem everywhere_congr (h : ∀ u, ∀ a ∈ xs, (Q u a ↔ R u a)) : Everywhere Q xs ↔ Everywhere R xs :=
  forall₃_congr fun u a v => forall_congr' fun hxs => h u a (by rw [hxs]; simp)

theorem everywhere_and :
    Everywhere (fun u a => Q u a ∧ R u a) xs ↔ Everywhere Q xs ∧ Everywhere R xs :=
  ⟨fun h => ⟨fun u a v hxs => (h u a v hxs).1, fun u a v hxs => (h u a v hxs).2⟩,
    fun h u a v hxs => ⟨h.1 u a v hxs, h.2 u a v hxs⟩⟩

end

end Sed
