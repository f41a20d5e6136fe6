import Mathlib

/-!
# Python strings

The methods of Python's `str`, as functions on lists of characters. The tables of
Unicode for letters are a parameter (`Letters`); what ASCII says about them is not.

* `strip`, `rstrip`, `words`, `splitlines`: the methods without arguments, on the
  white space and the line breaks of Python;
* `ignoreCase`: when a regular expression takes a character for an ASCII one.
-/

namespace Text

/-- A text, as the list of its characters. -/
abbrev Str := List Char

/-- What holds of all characters of a text is decided on the text, not on all characters
    there are. -/
instance (priority := high) decidableForallMem (s : Str) (p : Char → Prop) [DecidablePred p] :
    Decidable (∀ c ∈ s, p c) := List.decidableBAll p s

/-- Whether a text is in a list, character by character. -/
instance (priority := high) decidableMem (s : Str) (l : List Str) : Decidable (s ∈ l) :=
  List.instDecidableMemOfLawfulBEq s l

/-- `c.isspace()`, which is also what `\s` matches. -/
def isSpace (c : Char) : Bool :=
  let n := c.toNat
  9 ≤ n && n ≤ 13 || 28 ≤ n && n ≤ 32 || n == 0x85 || n == 0xA0 || n == 0x1680 ||
    0x2000 ≤ n && n ≤ 0x200A || n == 0x2028 || n == 0x2029 || n == 0x202F || n == 0x205F ||
    n == 0x3000

/-- The characters that end a line for `splitlines`. -/
def isLineBreak (c : Char) : Bool :=
  let n := c.toNat
  10 ≤ n && n ≤ 13 || 28 ≤ n && n ≤ 30 || n == 0x85 || n == 0x2028 || n == 0x2029

/-- `s.strip()` -/
def strip (s : Str) : Str := (s.dropWhile isSpace).rdropWhile isSpace

/-- `s.rstrip(chars)` -/
def rstrip (chars : List Char) (s : Str) : Str := s.rdropWhile (· ∈ chars)

/-- The lines of `s`, after the characters `line` of the first. -/
def linesFrom (line : Str) : Str → List Str
  | [] => if line = [] then [] else [line]
  | '\r' :: '\n' :: s => line :: linesFrom [] s
  | c :: s => if isLineBreak c then line :: linesFrom [] s else linesFrom (line ++ [c]) s

/-- `s.splitlines()` -/
def splitlines (s : Str) : List Str := linesFrom [] s

/-- `s.split()` -/
def words (s : Str) : List Str := (s.splitOnP isSpace).filter (· ≠ [])

/-- `s.startswith(c)` -/
def startsWith (c : Char) (s : Str) : Bool := s.head? == some c

/-- Whether the ASCII character `c` of a pattern matches `d`, under
    `re.IGNORECASE`. Three letters have counterparts outside ASCII. -/
def ignoreCase (c d : Char) : Bool :=
  d == c || d.toLower == c.toLower || c.toLower == 'i' && (d == 'İ' || d == 'ı') ||
    c.toLower == 's' && d == 'ſ' || c.toLower == 'k' && d.toNat == 0x212A

theorem toLower_symbol {x : Char} (hx : x.isAlpha = false) : x.toLower = x := by
  unfold Char.toLower
  rw [dif_neg]
  intro h
  simp only [Char.isAlpha, Char.isUpper, Bool.or_eq_false_iff, decide_eq_false_iff_not] at hx
  exact hx.1 h

theorem eq_of_toLower_symbol {c x : Char} (hx : x.isAlpha = false) (h : c.toLower = x) : c = x := by
  subst h
  unfold Char.toLower at hx ⊢
  split at hx
  · next hc =>
    exfalso
    simp only [Char.isAlpha, Char.isUpper, Char.isLower] at hx
    grind [UInt32.toNat_add, UInt32.le_iff_toNat_le]
  · next hc => rw [dif_neg hc]

/-- A character of a pattern that is no letter matches itself only. -/
theorem ignoreCase_symbol {c x : Char} (hx : x.isAlpha = false) (h : ignoreCase x c = true) :
    c = x := by
  simp only [ignoreCase, Bool.or_eq_true, Bool.and_eq_true, beq_iff_eq] at h
  rcases h with (((h | h) | ⟨h, _⟩) | ⟨h, _⟩) | ⟨h, _⟩
  · exact h
  · exact eq_of_toLower_symbol hx (h.trans (toLower_symbol hx))
  all_goals
    rw [toLower_symbol hx] at h
    subst h
    cases hx

theorem ignoreCase_refl (c : Char) : ignoreCase c c = true := by simp [ignoreCase]

theorem ignoreCase_symbol_iff {c x : Char} (hx : x.isAlpha = false) :
    ignoreCase x c = true ↔ c = x :=
  ⟨ignoreCase_symbol hx, fun h => h ▸ ignoreCase_refl c⟩

/-- The letter case of Python: what `s.lower()` is, and which characters a
    regular expression takes for each other. -/
structure Letters where
  lower : Str → Str
  same : Char → Char → Bool
  lower_ascii : ∀ s, (∀ c ∈ s, c.toNat < 128) → lower s = s.map Char.toLower
  mem_lower : ∀ s c, c.toNat < 128 → c.isAlpha = false → (c ∈ lower s ↔ c ∈ s)
  same_ascii : ∀ c d, c.toNat < 128 → same c d = ignoreCase c d
  same_comm : ∀ c d, d.toNat < 128 → same c d = true → same d c = true

/-- The letters of ASCII. -/
def Letters.ascii : Letters where
  lower := List.map Char.toLower
  same c d :=
    if c.toNat < 128 then ignoreCase c d
    else if d.toNat < 128 then ignoreCase d c
    else c == d
  lower_ascii _ _ := rfl
  mem_lower s c _ hc := by
    refine List.mem_map.trans ⟨?_, fun h => ⟨c, h, toLower_symbol hc⟩⟩
    rintro ⟨d, hd, hdc⟩
    rwa [← eq_of_toLower_symbol hc hdc]
  same_ascii c d hc := if_pos hc
  same_comm c d hd h := by
    rw [if_pos hd]
    by_cases hc : c.toNat < 128
    · rw [if_pos hc] at h
      simp only [ignoreCase, Bool.or_eq_true, Bool.and_eq_true, beq_iff_eq] at h ⊢
      rcases h with (((h | h) | ⟨_, h | h⟩) | ⟨_, h⟩) | ⟨_, h⟩
      · exact .inl (.inl (.inl (.inl h.symm)))
      · exact .inl (.inl (.inl (.inr h.symm)))
      -- The counterparts outside ASCII are no ASCII characters.
      · exact absurd (h ▸ hd) (by decide)
      · exact absurd (h ▸ hd) (by decide)
      · exact absurd (h ▸ hd) (by decide)
      · omega
    · rwa [if_neg hc, if_pos hd] at h

/-! ## Stripping -/

section

variable {s t w : Str} {c : Char}

/-- White space only. -/
def Blank (s : Str) : Prop := ∀ c ∈ s, isSpace c = true

theorem Blank.append (hs : Blank s) (ht : Blank t) : Blank (s ++ t) := fun c hc =>
  (List.mem_append.1 hc).elim (hs c) (ht c)

theorem isSpace_of_isLineBreak (h : isLineBreak c = true) : isSpace c = true := by
  simp only [isLineBreak, Bool.or_eq_true, Bool.and_eq_true, decide_eq_true_eq, beq_iff_eq] at h
  simp only [isSpace, Bool.or_eq_true, Bool.and_eq_true, decide_eq_true_eq, beq_iff_eq]
  omega

theorem rdropWhile_append_cons {p : Char → Bool} (hc : ¬p c = true) :
    (t ++ c :: s).rdropWhile p = t ++ c :: s.rdropWhile p := by
  induction s using List.reverseRecOn with
  | nil => rw [List.rdropWhile_concat, if_neg hc, List.rdropWhile_nil]
  | append_singleton s d ih =>
    rw [← List.cons_append, ← List.append_assoc, List.rdropWhile_concat, List.rdropWhile_concat, ih]
    split
    · rfl
    · rw [List.append_assoc, List.cons_append]

theorem strip_blank_append (hw : Blank w) : strip (w ++ s) = strip s := by
  rw [strip, strip, List.dropWhile_append_of_pos hw]

theorem strip_cons (hc : isSpace c = false) : strip (c :: s) = c :: s.rdropWhile isSpace := by
  have hc : ¬isSpace c = true := by simp [hc]
  rw [strip, List.dropWhile_cons_of_neg hc]
  exact rdropWhile_append_cons (t := []) hc

theorem strip_of_blank (hs : Blank s) : strip s = [] := by
  rw [← List.append_nil s, strip_blank_append hs]
  rfl

theorem exists_rdropWhile (s : Str) : ∃ w, Blank w ∧ s = s.rdropWhile isSpace ++ w :=
  ⟨s.rtakeWhile isSpace, fun _ hc => List.mem_rtakeWhile_imp hc,
    (List.rdropWhile_append_rtakeWhile ..).symm⟩

/-- A text is blank, or what `strip` leaves with blanks around it, which begins with a
    character that is no white space. -/
theorem strip_cases (s : Str) :
    Blank s ∨ ∃ w c r, Blank w ∧ isSpace c = false ∧ s = w ++ c :: r := by
  induction s with
  | nil => exact .inl fun _ h => absurd h List.not_mem_nil
  | cons c s ih =>
    by_cases hc : isSpace c = true
    · rcases ih with h | ⟨w, d, r, hw, hd, rfl⟩
      · exact .inl (List.forall_mem_cons.2 ⟨hc, h⟩)
      · exact .inr ⟨c :: w, d, r, List.forall_mem_cons.2 ⟨hc, hw⟩, hd, rfl⟩
    · exact .inr ⟨[], c, s, fun _ h => absurd h List.not_mem_nil, by simpa using hc, rfl⟩

theorem strip_append_blank (hw : Blank w) : strip (s ++ w) = strip s := by
  rcases strip_cases s with hs | ⟨v, c, r, hv, hc, rfl⟩
  · rw [strip_of_blank hs, strip_of_blank (hs.append hw)]
  · have hdrop : (r ++ w).rdropWhile isSpace = r.rdropWhile isSpace := by
      rw [List.rdropWhile, List.reverse_append,
        List.dropWhile_append_of_pos fun d hd => hw d (List.mem_reverse.1 hd)]
      rfl
    rw [List.append_assoc, List.cons_append, strip_blank_append hv, strip_blank_append hv,
      strip_cons hc, strip_cons hc, hdrop]

@[simp] theorem strip_strip (s : Str) : strip (strip s) = strip s := by
  rcases strip_cases s with hs | ⟨w, c, r, hw, hc, rfl⟩
  · rw [strip_of_blank hs]
    rfl
  · rw [strip_blank_append hw, strip_cons hc, strip_cons hc, List.rdropWhile_idempotent isSpace]

/-- A text that is stripped neither begins nor ends with white space. -/
theorem strip_eq_self_iff : strip s = s ↔
    (∀ c, s.head? = some c → isSpace c = false) ∧ ∀ c, s.getLast? = some c → isSpace c = false := by
  cases s with
  | nil => exact iff_of_true rfl ⟨fun _ h => (Option.some_ne_none _ h.symm).elim,
      fun _ h => (Option.some_ne_none _ h.symm).elim⟩
  | cons c s =>
    constructor
    · intro h
      have hc : isSpace c = false := by
        rcases strip_cases (c :: s) with hs | ⟨w, d, r, hw, hd, hs⟩
        · rw [strip_of_blank hs] at h
          cases h
        · rw [hs, strip_blank_append hw, strip_cons hd, ← hs] at h
          exact (List.cons.inj h).1 ▸ hd
      rw [strip_cons hc, List.cons_inj_right, List.rdropWhile_eq_self_iff] at h
      refine ⟨fun d hd => Option.some.inj hd ▸ hc, fun d hd => ?_⟩
      rcases List.eq_nil_or_concat s with rfl | ⟨s, e, rfl⟩
      · exact Option.some.inj hd ▸ hc
      · rw [List.concat_eq_append, ← List.cons_append, List.getLast?_concat] at hd
        have hlast := h (by simp)
        simp only [List.concat_eq_append, List.getLast_concat] at hlast
        rw [← Option.some.inj hd]
        exact Bool.eq_false_iff.2 hlast
    · rintro ⟨hhead, hlast⟩
      rw [strip_cons (hhead c rfl), List.rdropWhile_eq_self_iff.2]
      intro hne
      rw [hlast (s.getLast hne)
        (by rw [List.getLast?_cons, List.getLast?_eq_some_getLast hne]; rfl)]
      exact Bool.false_ne_true

theorem strip_isInfix (s : Str) : strip s <:+: s :=
  (List.rdropWhile_prefix isSpace _).isInfix.trans (List.dropWhile_suffix isSpace).isInfix

/-- A piece of a text that is split does not have the separator. -/
theorem of_mem_splitOn {x : Char} (s : Str) (h : t ∈ s.splitOn x) : x ∉ t ∧ t ⊆ s := by
  induction hn : s.length using Nat.strong_induction_on generalizing s with
  | _ n ih =>
    by_cases hx : x ∈ s
    · obtain ⟨u, v, rfl, hu⟩ := List.eq_append_cons_of_mem hx
      rw [List.splitOn_append_cons_self_of_not_mem hu, List.mem_cons] at h
      rcases h with rfl | h
      · exact ⟨hu, List.subset_append_left _ _⟩
      · have hlt : v.length < n := by
          rw [← hn, List.length_append, List.length_cons]
          omega
        obtain ⟨hxt, hv⟩ := ih v.length hlt v h rfl
        exact ⟨hxt, List.subset_append_of_subset_right _ (List.subset_cons_of_subset _ hv)⟩
    · rw [List.splitOn_eq_singleton hx, List.mem_singleton] at h
      subst h
      exact ⟨hx, List.Subset.refl t⟩

/-! ## Words -/

theorem words_append_cons (hc : isSpace c = true) : words (s ++ c :: t) = words s ++ words t := by
  rw [words, List.splitOnP_append_cons s t hc, List.filter_append]
  rfl

theorem words_blank_append (hw : Blank w) : words (w ++ s) = words s := by
  induction w with
  | nil => rfl
  | cons c w ih =>
    obtain ⟨hc, hw⟩ := List.forall_mem_cons.1 hw
    rw [List.cons_append, ← List.nil_append (c :: (w ++ s)), words_append_cons hc, ih hw]
    rfl

theorem words_eq_singleton (hne : t ≠ []) (ht : ∀ c ∈ t, isSpace c = false) : words t = [t] := by
  rw [words, List.splitOnP_eq_singleton ht]
  simp [hne]

/-- A text without white space, which is not empty, and ends where a word ends, is the
    first word. -/
theorem words_word (hne : t ≠ []) (ht : ∀ c ∈ t, isSpace c = false)
    (hs : ∀ c, s.head? = some c → isSpace c = true) : t ∈ words (t ++ s) := by
  cases s with
  | nil => rw [List.append_nil, words_eq_singleton hne ht]; exact List.mem_cons_self
  | cons c s =>
    rw [words_append_cons (hs c rfl), words_eq_singleton hne ht]
    exact List.mem_cons_self

/-! ## Counting a character -/

section

variable {x : Char} {p : Char → Bool}

theorem count_dropWhile (hp : p x = false) : (s.dropWhile p).count x = s.count x := by
  induction s with
  | nil => rfl
  | cons c s ih =>
    by_cases hc : p c = true
    · have hcx : c ≠ x := fun h => by
        rw [h, hp] at hc
        cases hc
      rw [List.dropWhile_cons_of_pos hc, ih, List.count_cons_of_ne hcx]
    · rw [List.dropWhile_cons_of_neg hc]

theorem count_rdropWhile (hp : p x = false) : (s.rdropWhile p).count x = s.count x := by
  rw [List.rdropWhile, List.count_reverse, count_dropWhile hp, List.count_reverse]

theorem count_strip (hx : isSpace x = false) : (strip s).count x = s.count x := by
  rw [strip, count_rdropWhile hx, count_dropWhile hx]

theorem count_rstrip {chars : List Char} (hx : x ∉ chars) : (rstrip chars s).count x = s.count x :=
  count_rdropWhile (by simpa using hx)

theorem count_splitOn {sep : Char} (hx : x ≠ sep) :
    (s.splitOn sep).flatten.count x = s.count x := by
  have hjoin : ∀ l : List Str, ([sep].intercalate l).count x = l.flatten.count x := by
    intro l
    induction l with
    | nil => rfl
    | cons a l ih =>
      cases l with
      | nil => simp
      | cons b l =>
        rw [List.intercalate_cons_cons, List.count_append, List.count_append, ih, List.flatten_cons,
          List.count_append, List.count_singleton]
        simp [hx.symm]
  rw [← hjoin, List.intercalate_splitOn]

end

/-! ## Lines -/

theorem linesFrom_nil (line : Str) : linesFrom line [] = if line = [] then [] else [line] := rfl

theorem linesFrom_crlf (line s : Str) :
    linesFrom line ('\r' :: '\n' :: s) = line :: linesFrom [] s := rfl

/-- The lines behind a character that does not begin a `\r\n`. -/
theorem linesFrom_of_ne {line : Str} (h : ∀ s', c = '\r' → s = '\n' :: s' → False) :
    linesFrom line (c :: s) =
      if isLineBreak c then line :: linesFrom [] s else linesFrom (line ++ [c]) s :=
  linesFrom.eq_3 line c s h

theorem linesFrom_cons (hc : isLineBreak c = false) (line : Str) :
    linesFrom line (c :: s) = linesFrom (line ++ [c]) s := by
  have hr : c ≠ '\r' := by
    rintro rfl
    cases hc
  rw [linesFrom_of_ne fun s' h _ => hr h, hc]
  rfl

theorem linesFrom_append {v : Str} (hv : ∀ c ∈ v, isLineBreak c = false) (line : Str) :
    linesFrom line (v ++ s) = linesFrom (line ++ v) s := by
  induction v generalizing line with
  | nil => rw [List.nil_append, List.append_nil]
  | cons c v ih =>
    rw [List.cons_append, linesFrom_cons (hv c List.mem_cons_self),
      ih (fun d hd => hv d (List.mem_cons_of_mem _ hd)), List.append_assoc, List.singleton_append]

theorem linesFrom_break (hc : isLineBreak c = true) (line : Str) :
    ∃ s', linesFrom line (c :: s) = line :: linesFrom [] s' ∧ (s = s' ∨ s = '\n' :: s') := by
  by_cases hcrlf : c = '\r' ∧ ∃ s', s = '\n' :: s'
  · obtain ⟨rfl, s', rfl⟩ := hcrlf
    exact ⟨s', rfl, .inr rfl⟩
  · refine ⟨s, ?_, .inl rfl⟩
    rw [linesFrom_of_ne fun s' h h' => hcrlf ⟨h, s', h'⟩, if_pos hc]

theorem linesFrom_ne_nil {line : Str} (h : line ≠ [] ∨ s ≠ []) : linesFrom line s ≠ [] := by
  induction s generalizing line with
  | nil =>
    rw [linesFrom_nil, if_neg (h.resolve_right fun h => h rfl)]
    exact List.cons_ne_nil _ _
  | cons c s ih =>
    cases hc : isLineBreak c with
    | true =>
      obtain ⟨s', hs', _⟩ := linesFrom_break hc line (s := s)
      rw [hs']
      exact List.cons_ne_nil _ _
    | false =>
      rw [linesFrom_cons hc]
      exact ih (.inl (by simp))

/-- The first line, and what follows it. -/
theorem linesFrom_cases {line : Str} (hline : line ≠ []) (s : Str) :
    ∃ l b ls, linesFrom line s = (line ++ l) :: ls ∧ (∀ c ∈ l, isLineBreak c = false) ∧
      s = l ++ b ∧ (ls = [] → Blank b) := by
  induction s generalizing line with
  | nil =>
    refine ⟨[], [], [], ?_, fun _ h => absurd h List.not_mem_nil, rfl, fun _ _ h =>
      absurd h List.not_mem_nil⟩
    rw [linesFrom_nil, if_neg hline, List.append_nil]
  | cons c s ih =>
    cases hc : isLineBreak c with
    | true =>
      obtain ⟨s', hs', hss'⟩ := linesFrom_break hc line (s := s)
      refine ⟨[], c :: s, linesFrom [] s', by rw [hs', List.append_nil], fun _ h =>
        absurd h List.not_mem_nil, rfl, fun hnil => ?_⟩
      have hs'nil : s' = [] := by
        by_contra h
        exact linesFrom_ne_nil (.inr h) hnil
      have hspace := isSpace_of_isLineBreak hc
      rcases hss' with rfl | rfl <;> subst hs'nil
      · simpa [Blank] using hspace
      · simpa [Blank] using ⟨hspace, by decide⟩
    | false =>
      obtain ⟨l, b, ls, hls, hl, rfl, hb⟩ := ih (show line ++ [c] ≠ [] by simp)
      refine ⟨c :: l, b, ls, ?_, List.forall_mem_cons.2 ⟨hc, hl⟩, rfl, hb⟩
      rw [linesFrom_cons hc, hls, List.append_assoc, List.singleton_append]

/-- A line feed ends a line. -/
theorem linesFrom_append_newline (line s t : Str) :
    linesFrom line (s ++ '\n' :: t) = linesFrom line (s ++ ['\n']) ++ linesFrom [] t := by
  induction hn : s.length using Nat.strong_induction_on generalizing s line with
  | _ n ih =>
    cases s with
    | nil => rfl
    | cons c s =>
      cases hc : isLineBreak c with
      | false =>
        rw [List.cons_append, List.cons_append, linesFrom_cons hc, linesFrom_cons hc]
        exact ih s.length (by simp [← hn]) _ s rfl
      | true =>
        by_cases hr : c = '\r' ∧ (s = [] ∨ ∃ s', s = '\n' :: s')
        · obtain ⟨rfl, rfl | ⟨s', rfl⟩⟩ := hr
          · rfl
          · have hs' := ih s'.length (by simp [← hn]) [] s' rfl
            simp only [List.cons_append, linesFrom_crlf, hs']
        · have hbreak (u : Str) : linesFrom line (c :: (s ++ '\n' :: u)) =
              line :: linesFrom [] (s ++ '\n' :: u) := by
            rw [linesFrom_of_ne fun s' h h' => hr ⟨h, ?_⟩, if_pos hc]
            cases s with
            | nil => exact .inl rfl
            | cons d s => exact .inr ⟨s, by rw [(List.cons.inj h').1]⟩
          rw [List.cons_append, List.cons_append, hbreak, hbreak, List.cons_append,
            ih s.length (by simp [← hn]) [] s rfl]

theorem splitlines_append_newline (s t : Str) :
    splitlines (s ++ '\n' :: t) = splitlines (s ++ ['\n']) ++ splitlines t :=
  linesFrom_append_newline [] s t

/-- No line has a line break. -/
theorem isLineBreak_of_mem_linesFrom {line l : Str} (hline : ∀ c ∈ line, isLineBreak c = false)
    (hl : l ∈ linesFrom line s) : ∀ c ∈ l, isLineBreak c = false := by
  induction hn : s.length using Nat.strong_induction_on generalizing s line with
  | _ n ih =>
    cases s with
    | nil =>
      rw [linesFrom_nil] at hl
      split at hl
      · exact absurd hl List.not_mem_nil
      · exact List.mem_singleton.1 hl ▸ hline
    | cons c s =>
      cases hc : isLineBreak c with
      | false =>
        rw [linesFrom_cons hc] at hl
        refine ih s.length (by simp [← hn]) (List.forall_mem_append.2 ⟨hline, ?_⟩) hl rfl
        exact List.forall_mem_singleton.2 hc
      | true =>
        obtain ⟨s', hs', hss'⟩ := linesFrom_break hc line (s := s)
        rw [hs', List.mem_cons] at hl
        rcases hl with rfl | hl
        · exact hline
        · refine ih s'.length ?_ (fun d hd => absurd hd List.not_mem_nil) hl rfl
          rw [← hn, List.length_cons]
          rcases hss' with rfl | rfl
          · exact Nat.lt_succ_self _
          · simp

theorem isLineBreak_of_mem_splitlines {l : Str} (hl : l ∈ splitlines s) :
    ∀ c ∈ l, isLineBreak c = false :=
  isLineBreak_of_mem_linesFrom (fun _ hc => absurd hc List.not_mem_nil) hl

end

end Text
