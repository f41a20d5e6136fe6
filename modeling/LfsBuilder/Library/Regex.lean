import LfsBuilder.Library.Text

/-!
# Backtracking regular expressions

Regular expressions as Python's `re` runs them: a pattern can match a text in
several ways, which are tried in a fixed order (`ways`), the longest repetition
first, or the shortest if it is lazy. The first way counts.

* `scan`, `search`: the leftmost match of a pattern, with the text before it, which is
  also what a lazy gap before the pattern takes (`matchAt_gap`);
* `findall`, `sub`: all matches, each behind the one before;
* `matchAt_stop`: a pattern without a character `x`, before one that starts with `x`,
  matches just the text up to the first `x` (`fullmatch`);
* `Still`: the part of a text where no match starts, which a search passes over.
-/

namespace Backtracking

open Text

/-- A regular expression: single characters, sequences, repetitions of a class of
    characters, and groups. -/
inductive Regex
  | empty
  | char (p : Char → Bool)
  | seq (r q : Regex)
  | many (p : Char → Bool)
  | lazy (p : Char → Bool)
  | group (r : Regex)

/-- A match: the text matched, what its groups are, and the text that is left. -/
structure Match where
  text : Str
  groups : List Str
  rest : Str
  deriving DecidableEq

/-- The match that takes `u` more, at the front. -/
def Match.after (u : Str) (m : Match) : Match := { m with text := u ++ m.text }

/-- The match that leaves `t` more, at the end. -/
def Match.leave (t : Str) (m : Match) : Match := { m with rest := m.rest ++ t }

@[simp] theorem Match.after_rest (u : Str) (m : Match) : (m.after u).rest = m.rest := rfl
@[simp] theorem Match.after_text (u : Str) (m : Match) : (m.after u).text = u ++ m.text := rfl
@[simp] theorem Match.after_groups (u : Str) (m : Match) : (m.after u).groups = m.groups := rfl
@[simp] theorem Match.leave_text (t : Str) (m : Match) : (m.leave t).text = m.text := rfl
@[simp] theorem Match.leave_groups (t : Str) (m : Match) : (m.leave t).groups = m.groups := rfl
@[simp] theorem Match.leave_rest (t : Str) (m : Match) : (m.leave t).rest = m.rest ++ t := rfl

/-- The ways of `p*`, longest first. -/
def greedy (p : Char → Bool) : Str → List Match
  | [] => [⟨[], [], []⟩]
  | c :: s => (if p c then (greedy p s).map (Match.after [c]) else []) ++ [⟨[], [], c :: s⟩]

/-- The ways of `p*?`, shortest first. -/
def shortest (p : Char → Bool) : Str → List Match
  | [] => [⟨[], [], []⟩]
  | c :: s => ⟨[], [], c :: s⟩ :: if p c then (shortest p s).map (Match.after [c]) else []

/-- The ways in which a pattern matches the start of a text, in the order in
    which they are tried. -/
def ways : Regex → Str → List Match
  | .empty, s => [⟨[], [], s⟩]
  | .char _, [] => []
  | .char p, c :: s => if p c then [⟨[c], [], s⟩] else []
  | .seq r q, s => (ways r s).flatMap fun m =>
      (ways q m.rest).map fun m' => ⟨m.text ++ m'.text, m.groups ++ m'.groups, m'.rest⟩
  | .many p, s => greedy p s
  | .lazy p, s => shortest p s
  | .group r, s => (ways r s).map fun m => { m with groups := m.text :: m.groups }

/-- `re.match` -/
def matchAt (r : Regex) (s : Str) : Option Match := (ways r s).head?

/-- The leftmost match of a pattern, and the text before it. -/
def scan (r : Regex) : Str → Option (Str × Match)
  | [] => (matchAt r []).map fun m => ([], m)
  | c :: s =>
    match matchAt r (c :: s) with
    | some m => some ([], m)
    | none => (scan r s).map fun (u, m) => (c :: u, m)

/-- `re.search` -/
def search (r : Regex) (s : Str) : Option Match := (scan r s).map Prod.snd

/-- The matches in a text, after `skip` characters. -/
def findallFrom (r : Regex) : (skip : ℕ) → Str → List Match
  | _, [] => []
  | skip + 1, _ :: s => findallFrom r skip s
  | 0, c :: s =>
    match matchAt r (c :: s) with
    | some m => m :: findallFrom r (m.text.length - 1) s
    | none => findallFrom r 0 s

/-- `re.findall`, for a pattern that does not match the empty text. -/
def findall (r : Regex) (s : Str) : List Match := findallFrom r 0 s

/-- The text with its matches replaced, after `skip` characters. -/
def subFrom (r : Regex) (repl : Str) : (skip : ℕ) → Str → Str
  | _, [] => []
  | skip + 1, _ :: s => subFrom r repl skip s
  | 0, c :: s =>
    match matchAt r (c :: s) with
    | some m => repl ++ subFrom r repl (m.text.length - 1) s
    | none => c :: subFrom r repl 0 s

/-- `re.sub`, for a pattern that does not match the empty text. -/
def sub (r : Regex) (repl s : Str) : Str := subFrom r repl 0 s

/-- `re.sub`, for a pattern that starts with `^`. -/
def subStart (r : Regex) (repl s : Str) : Str :=
  match matchAt r s with
  | some m => repl ++ m.rest
  | none => s

/-- The text `w`, character by character up to `same`. -/
def lit (same : Char → Char → Bool) (w : Str) : Regex :=
  w.foldr (fun c r => .seq (.char (same c)) r) .empty

/-- `.`, which under `re.DOTALL` matches every character. -/
def dot (_ : Char) : Bool := true

/-- Whether a pattern can match a text up to its end. -/
def fullmatch (r : Regex) (s : Str) : Bool := (ways r s).any fun m => m.rest = []

/-! ## What a match is made of -/

variable {r q : Regex} {p : Char → Bool} {s t u v : Str} {c x : Char} {m : Match}

theorem text_greedy : ∀ s, ∀ m ∈ greedy p s, m.text ++ m.rest = s
  | [], m, h => by
    rw [greedy, List.mem_singleton] at h
    rw [h]
    rfl
  | c :: s, m, h => by
    rw [greedy, List.mem_append, List.mem_singleton] at h
    rcases h with h | rfl
    · split at h
      · obtain ⟨m', hm', rfl⟩ := List.mem_map.1 h
        rw [Match.after_text, Match.after_rest, List.append_assoc, text_greedy s m' hm']
        rfl
      · exact absurd h List.not_mem_nil
    · rfl

theorem text_shortest : ∀ s, ∀ m ∈ shortest p s, m.text ++ m.rest = s
  | [], m, h => by
    rw [shortest, List.mem_singleton] at h
    rw [h]
    rfl
  | c :: s, m, h => by
    rw [shortest, List.mem_cons] at h
    rcases h with rfl | h
    · rfl
    · split at h
      · obtain ⟨m', hm', rfl⟩ := List.mem_map.1 h
        rw [Match.after_text, Match.after_rest, List.append_assoc, text_shortest s m' hm']
        rfl
      · exact absurd h List.not_mem_nil

/-- A match and what it leaves are the text. -/
theorem text_ways : ∀ (r : Regex) (s : Str), ∀ m ∈ ways r s, m.text ++ m.rest = s
  | .empty, s, m, h => by
    rw [ways, List.mem_singleton] at h
    rw [h]
    rfl
  | .char _, [], m, h => absurd h List.not_mem_nil
  | .char p, c :: s, m, h => by
    rw [ways] at h
    split at h
    · rw [List.mem_singleton.1 h]
      rfl
    · exact absurd h List.not_mem_nil
  | .seq r q, s, m, h => by
    rw [ways] at h
    obtain ⟨m₁, h₁, h⟩ := List.mem_flatMap.1 h
    obtain ⟨m₂, h₂, rfl⟩ := List.mem_map.1 h
    rw [← text_ways r s m₁ h₁, ← text_ways q m₁.rest m₂ h₂, List.append_assoc]
  | .many _, s, m, h => text_greedy s m h
  | .lazy _, s, m, h => text_shortest s m h
  | .group r, s, m, h => by
    rw [ways] at h
    obtain ⟨m', h', rfl⟩ := List.mem_map.1 h
    exact text_ways r s m' h'

theorem text_matchAt (h : matchAt r s = some m) : m.text ++ m.rest = s :=
  text_ways r s m (List.mem_of_mem_head? h)

/-! ## Sequences -/

theorem matchAt_seq : matchAt (.seq r q) s = (ways r s).findSome? fun m =>
    (matchAt q m.rest).map fun m' => ⟨m.text ++ m'.text, m.groups ++ m'.groups, m'.rest⟩ := by
  rw [matchAt, ways, List.head?_flatMap]
  simp only [List.head?_map, matchAt]

theorem matchAt_left (h : matchAt (.seq r q) s ≠ none) : matchAt r s ≠ none := by
  intro hr
  rw [matchAt, List.head?_eq_none_iff] at hr
  rw [matchAt_seq, hr] at h
  exact h rfl

theorem matchAt_empty : matchAt .empty s = some ⟨[], [], s⟩ := rfl

theorem matchAt_char : matchAt (.seq (.char p) q) (c :: s) =
    if p c then (matchAt q s).map (Match.after [c]) else none := by
  rw [matchAt_seq, ways]
  split
  · rw [List.findSome?_singleton]
    rfl
  · rfl

theorem matchAt_char_nil : matchAt (.seq (.char p) q) [] = none := rfl

theorem matchAt_seq_empty : matchAt (.seq .empty q) s = matchAt q s := by
  rw [matchAt_seq, ways, List.findSome?_singleton]
  exact Option.map_id'

theorem matchAt_seq_assoc {r₁ r₂ : Regex} :
    matchAt (.seq (.seq r₁ r₂) q) s = matchAt (.seq r₁ (.seq r₂ q)) s := by
  simp only [matchAt, ways, List.flatMap_assoc, List.flatMap_map, List.map_flatMap, List.map_map,
    Function.comp_def, List.append_assoc]

variable {same : Char → Char → Bool} {w : Str}

theorem matchAt_lit_nil : matchAt (.seq (lit same []) q) s = matchAt q s := matchAt_seq_empty

theorem matchAt_lit_cons {a : Char} : matchAt (.seq (lit same (a :: w)) q) (c :: s) =
    if same a c then (matchAt (.seq (lit same w) q) s).map (Match.after [c]) else none := by
  rw [lit, List.foldr_cons, matchAt_seq_assoc, matchAt_char]
  rfl

theorem lit_congr {same' : Char → Char → Bool} (h : ∀ a ∈ w, same a = same' a) :
    lit same w = lit same' w := by
  induction w with
  | nil => rfl
  | cons a w ih =>
    rw [lit, List.foldr_cons, h a List.mem_cons_self]
    exact congrArg _ (ih fun b hb => h b (List.mem_cons_of_mem _ hb))

/-- A literal in two parts. -/
theorem matchAt_lit_split : matchAt (.seq (lit same (u ++ w)) q) s =
    matchAt (.seq (lit same u) (.seq (lit same w) q)) s := by
  induction u generalizing s with
  | nil => rw [List.nil_append, matchAt_lit_nil]
  | cons a u ih =>
    cases s with
    | nil => rw [List.cons_append, lit, List.foldr_cons, matchAt_seq_assoc, lit, List.foldr_cons,
        matchAt_seq_assoc, matchAt_char_nil, matchAt_char_nil]
    | cons c s => rw [List.cons_append, matchAt_lit_cons, matchAt_lit_cons, ih]

theorem matchAt_lit_self : matchAt (.seq (lit (· == ·) w) q) (w ++ s) =
    (matchAt q s).map (Match.after w) := by
  induction w with
  | nil => exact matchAt_lit_nil.trans Option.map_id'.symm
  | cons a w ih =>
    rw [List.cons_append, matchAt_lit_cons, if_pos (beq_self_eq_true a), ih, Option.map_map]
    rfl

theorem exists_of_matchAt_lit (h : matchAt (.seq (lit (· == ·) w) q) s ≠ none) :
    ∃ t, s = w ++ t ∧ matchAt q t ≠ none := by
  induction w generalizing s with
  | nil =>
    rw [matchAt_lit_nil] at h
    exact ⟨s, rfl, h⟩
  | cons a w ih =>
    cases s with
    | nil => exact absurd (by rw [lit, List.foldr_cons, matchAt_seq_assoc, matchAt_char_nil]) h
    | cons c s =>
      rw [matchAt_lit_cons] at h
      split at h
      · next hac =>
        obtain ⟨t, rfl, ht⟩ := ih fun hs => h (by rw [hs]; rfl)
        exact ⟨t, by rw [eq_of_beq hac, List.cons_append], ht⟩
      · exact absurd rfl h

theorem head?_greedy (p : Char → Bool) (s : Str) :
    (greedy p s).head? = some ⟨s.takeWhile p, [], s.dropWhile p⟩ := by
  induction s with
  | nil => rfl
  | cons c s ih =>
    rw [greedy]
    split
    · next hc =>
      rw [List.head?_append, List.head?_map, ih, List.takeWhile_cons_of_pos hc,
        List.dropWhile_cons_of_pos hc]
      rfl
    · next hc =>
      rw [List.takeWhile_cons_of_neg hc, List.dropWhile_cons_of_neg hc]
      rfl

/-- A repetition at the end of a pattern takes all it can. -/
theorem matchAt_many : matchAt (.many p) s = some ⟨s.takeWhile p, [], s.dropWhile p⟩ :=
  head?_greedy p s

/-- A repetition before a pattern that does not begin with one of its characters takes all
    it can. -/
theorem matchAt_many_seq (hq : ∀ c s, p c = true → matchAt q (c :: s) = none) :
    matchAt (.seq (.many p) q) s =
      (matchAt q (s.dropWhile p)).map (Match.after (s.takeWhile p)) := by
  rw [matchAt_seq, ways]
  suffices h : ∀ f : Match → Match, (greedy p s).findSome? (fun m =>
      (matchAt q m.rest).map fun m' => f ⟨m.text ++ m'.text, m.groups ++ m'.groups, m'.rest⟩) =
        (matchAt q (s.dropWhile p)).map fun m' => f (m'.after (s.takeWhile p)) from h id
  induction s with
  | nil => exact fun f => List.findSome?_singleton
  | cons c s ih =>
    intro f
    rw [greedy]
    split
    · next hc =>
      have hlast : matchAt q (c :: s) = none := hq c s hc
      rw [List.findSome?_append, List.findSome?_map, List.findSome?_singleton, hlast,
        Option.map_none, Option.or_none, List.takeWhile_cons_of_pos hc,
        List.dropWhile_cons_of_pos hc]
      exact ih fun m => f (m.after [c])
    · next hc =>
      rw [List.nil_append, List.findSome?_singleton, List.takeWhile_cons_of_neg hc,
        List.dropWhile_cons_of_neg hc]
      rfl

theorem matchAt_lit_end {a : Char} : matchAt (lit same (a :: w)) (c :: s) =
    if same a c then (matchAt (lit same w) s).map (Match.after [c]) else none := matchAt_char

/-- A literal that ends with `x` does not see what comes after an `x`. -/
theorem matchAt_lit_append (hw : ∀ a ∈ w, same a x = false) (hs : x ∈ s) :
    matchAt (lit same (w ++ [x])) (s ++ t) =
      (matchAt (lit same (w ++ [x])) s).map (Match.leave t) := by
  induction w generalizing s with
  | nil =>
    obtain ⟨c, s, rfl⟩ := List.exists_cons_of_ne_nil (List.ne_nil_of_mem hs)
    rw [List.nil_append, List.cons_append, matchAt_lit_end, matchAt_lit_end]
    split <;> rfl
  | cons a w ih =>
    obtain ⟨c, s, rfl⟩ := List.exists_cons_of_ne_nil (List.ne_nil_of_mem hs)
    rw [List.cons_append, List.cons_append, matchAt_lit_end, matchAt_lit_end]
    split
    · next hac =>
      have hcx : c ≠ x := fun h => by
        rw [h, hw a List.mem_cons_self] at hac
        cases hac
      rw [ih (fun b hb => hw b (List.mem_cons_of_mem _ hb))
        ((List.mem_cons.1 hs).resolve_left hcx.symm), Option.map_map, Option.map_map]
      rfl
    · rfl

/-- A literal that has `x` at its end only is matched by a text with an `x` if it is by a
    longer one. -/
theorem matchAt_lit_of_append (hw : ∀ a ∈ w.dropLast, same a x = false) (hs : x ∈ s)
    (h : matchAt (lit same w) (s ++ t) ≠ none) : matchAt (lit same w) s ≠ none := by
  induction w generalizing s with
  | nil => simp [lit, matchAt_empty]
  | cons a w ih =>
    obtain ⟨c, s, rfl⟩ := List.exists_cons_of_ne_nil (List.ne_nil_of_mem hs)
    rw [List.cons_append, matchAt_lit_end] at h
    rw [matchAt_lit_end]
    split at h
    · next hac =>
      rw [if_pos hac, ne_eq, Option.map_eq_none_iff]
      rw [ne_eq, Option.map_eq_none_iff] at h
      cases w with
      | nil => simp [lit, matchAt_empty]
      | cons b w =>
        rw [List.dropLast_cons_cons] at hw
        have hcx : c ≠ x := fun h => by
          rw [h, hw a List.mem_cons_self] at hac
          cases hac
        exact ih (fun d hd => hw d (List.mem_cons_of_mem _ hd))
          ((List.mem_cons.1 hs).resolve_left hcx.symm) h
    · exact absurd rfl h

theorem mem_of_matchAt_lit (hw : ∀ c, same x c = true → c = x)
    (h : matchAt (lit same (w ++ [x])) s = some m) : x ∈ s := by
  induction w generalizing s m with
  | nil =>
    cases s with
    | nil => cases h
    | cons c s =>
      rw [List.nil_append, matchAt_lit_end] at h
      split at h
      · next hc => exact hw c hc ▸ List.mem_cons_self
      · cases h
  | cons a w ih =>
    cases s with
    | nil => cases h
    | cons c s =>
      rw [List.cons_append, matchAt_lit_end] at h
      split at h
      · obtain ⟨m', hm', _⟩ := Option.map_eq_some_iff.1 h
        exact List.mem_cons_of_mem _ (ih hm')
      · cases h

/-! ## Patterns without a character -/

/-- The pattern matches no text with the character `x`, and has no groups. -/
def Avoids (x : Char) : Regex → Prop
  | .empty => True
  | .char p => p x = false
  | .seq r q => Avoids x r ∧ Avoids x q
  | .many p => p x = false
  | .lazy p => p x = false
  | .group _ => False

theorem avoids_lit (hw : ∀ a ∈ w, same a x = false) : Avoids x (lit same w) := by
  induction w with
  | nil => exact trivial
  | cons a w ih =>
    exact ⟨hw a List.mem_cons_self, ih fun b hb => hw b (List.mem_cons_of_mem _ hb)⟩

theorem greedy_append (hx : p x = false) :
    greedy p (u ++ x :: t) = (greedy p u).map (Match.leave (x :: t)) := by
  induction u with
  | nil => simp [greedy, hx, Match.leave]
  | cons c u ih =>
    rw [List.cons_append, greedy, greedy, List.map_append, ih]
    split <;> simp [Match.leave, Match.after, Function.comp_def]

theorem shortest_append (hx : p x = false) :
    shortest p (u ++ x :: t) = (shortest p u).map (Match.leave (x :: t)) := by
  induction u with
  | nil => simp [shortest, hx, Match.leave]
  | cons c u ih =>
    rw [List.cons_append, shortest, shortest, List.map_cons, ih]
    split <;> simp [Match.leave, Match.after, Function.comp_def]

/-- A pattern that avoids `x` does not see what comes from `x` on. -/
theorem ways_append : ∀ {r : Regex} {u : Str}, Avoids x r →
    ways r (u ++ x :: t) = (ways r u).map (Match.leave (x :: t))
  | .empty, _, _ => rfl
  | .char p, [], h => by
    rw [Avoids] at h
    simp [ways, h]
  | .char p, c :: u, _ => by
    rw [List.cons_append, ways, ways]
    split <;> rfl
  | .seq r q, u, h => by
    rw [ways, ways_append h.1, ways, List.flatMap_map, List.map_flatMap]
    refine List.flatMap_congr fun m _ => ?_
    rw [Match.leave_rest, ways_append h.2, List.map_map, List.map_map]
    rfl
  | .many _, _, h => greedy_append h
  | .lazy _, _, h => shortest_append h

/-- No match of a pattern that avoids `x` has an `x`. -/
theorem notMem_text (hr : Avoids x r) (hm : m ∈ ways r s) : x ∉ m.text := by
  intro hx
  have htext := text_ways r s m hm
  obtain ⟨u, t, hut, hu⟩ := List.eq_append_cons_of_mem hx
  rw [hut, List.append_assoc, List.cons_append] at htext
  rw [← htext, ways_append hr] at hm
  obtain ⟨m', hm', hmm'⟩ := List.mem_map.1 hm
  have hpre := text_ways r u m' hm'
  rw [← Match.leave_text, hmm', hut] at hpre
  exact hu (hpre ▸ by simp)

theorem groups_greedy : ∀ s, ∀ m ∈ greedy p s, m.groups = []
  | [], m, h => by
    rw [greedy, List.mem_singleton] at h
    rw [h]
  | c :: s, m, h => by
    rw [greedy, List.mem_append, List.mem_singleton] at h
    rcases h with h | rfl
    · split at h
      · obtain ⟨m', hm', rfl⟩ := List.mem_map.1 h
        exact groups_greedy s m' hm'
      · exact absurd h List.not_mem_nil
    · rfl

theorem groups_shortest : ∀ s, ∀ m ∈ shortest p s, m.groups = []
  | [], m, h => by
    rw [shortest, List.mem_singleton] at h
    rw [h]
  | c :: s, m, h => by
    rw [shortest, List.mem_cons] at h
    rcases h with rfl | h
    · rfl
    · split at h
      · obtain ⟨m', hm', rfl⟩ := List.mem_map.1 h
        exact groups_shortest s m' hm'
      · exact absurd h List.not_mem_nil

theorem groups_ways : ∀ {r : Regex} {s : Str}, Avoids x r → ∀ m ∈ ways r s, m.groups = []
  | .empty, s, _, m, h => by
    rw [ways, List.mem_singleton] at h
    rw [h]
  | .char _, [], _, m, h => absurd h List.not_mem_nil
  | .char p, c :: s, _, m, h => by
    rw [ways] at h
    split at h
    · rw [List.mem_singleton.1 h]
    · exact absurd h List.not_mem_nil
  | .seq r q, s, hr, m, h => by
    rw [ways] at h
    obtain ⟨m₁, h₁, h⟩ := List.mem_flatMap.1 h
    obtain ⟨m₂, h₂, rfl⟩ := List.mem_map.1 h
    rw [groups_ways hr.1 m₁ h₁, groups_ways hr.2 m₂ h₂, List.append_nil]
  | .many _, s, _, m, h => groups_greedy s m h
  | .lazy _, s, _, m, h => groups_shortest s m h

/-- The number of groups of a pattern. -/
def groupCount : Regex → ℕ
  | .seq r q => groupCount r + groupCount q
  | .group r => groupCount r + 1
  | _ => 0

theorem groupCount_lit : groupCount (lit same w) = 0 := by
  induction w with
  | nil => rfl
  | cons a w ih => exact (Nat.zero_add _).trans ih

theorem length_groups_ways : ∀ (r : Regex) (s : Str), ∀ m ∈ ways r s,
    m.groups.length = groupCount r
  | .empty, s, m, h => by
    rw [ways, List.mem_singleton] at h
    rw [h]
    rfl
  | .char _, [], m, h => absurd h List.not_mem_nil
  | .char p, c :: s, m, h => by
    rw [ways] at h
    split at h
    · rw [List.mem_singleton.1 h]
      rfl
    · exact absurd h List.not_mem_nil
  | .seq r q, s, m, h => by
    rw [ways] at h
    obtain ⟨m₁, h₁, h⟩ := List.mem_flatMap.1 h
    obtain ⟨m₂, h₂, rfl⟩ := List.mem_map.1 h
    rw [List.length_append, length_groups_ways r s m₁ h₁, length_groups_ways q m₁.rest m₂ h₂,
      groupCount]
  | .many _, s, m, h => by
    rw [groups_greedy s m h]
    rfl
  | .lazy _, s, m, h => by
    rw [groups_shortest s m h]
    rfl
  | .group r, s, m, h => by
    rw [ways] at h
    obtain ⟨m', h', rfl⟩ := List.mem_map.1 h
    rw [List.length_cons, length_groups_ways r s m' h', groupCount]

theorem fullmatch_eq_false (hr : Avoids x r) (hs : x ∈ s) : fullmatch r s = false := by
  obtain ⟨u, t, rfl⟩ := List.append_of_mem hs
  simp [fullmatch, ways_append hr]

/-- A pattern that avoids `x`, before one that starts with `x`, matches all of the
    text before the first `x`, or fails. -/
theorem matchAt_stop (hr : Avoids x r) (hq : ∀ c s, c ≠ x → matchAt q (c :: s) = none)
    (hu : x ∉ u) : matchAt (.seq r q) (u ++ x :: t) =
      if fullmatch r u then (matchAt q (x :: t)).map (Match.after u) else none := by
  rw [matchAt_seq, ways_append hr, List.findSome?_map]
  have htext : ∀ m ∈ ways r u, m.text ++ m.rest = u ∧ m.groups = [] := fun m hm =>
    ⟨text_ways r u m hm, groups_ways hr m hm⟩
  rw [fullmatch]
  generalize ways r u = ms at htext
  induction ms with
  | nil => rfl
  | cons m ms ih =>
    obtain ⟨hm, hg⟩ := htext m List.mem_cons_self
    rw [List.findSome?_cons, Function.comp_apply, Match.leave_rest, List.any_cons]
    rcases hrest : m.rest with _ | ⟨c, s⟩
    · -- The pattern has taken the text up to `x`.
      rw [hrest, List.append_nil] at hm
      have ih := ih fun m hm => htext m (List.mem_cons_of_mem _ hm)
      cases hq' : matchAt q (x :: t) with
      | some m' => simp [hq', hm, hg, Match.after]
      | none => simpa [hq'] using ih
    · have hc : c ≠ x := by
        rintro rfl
        exact hu (hm ▸ by simp [hrest])
      rw [List.cons_append, hq c _ hc]
      simpa using ih fun m hm => htext m (List.mem_cons_of_mem _ hm)

/-- A pattern that avoids `x`, before an `x`. -/
theorem matchAt_upto (hr : Avoids x r) (hx : ∀ c, same x c = true ↔ c = x) (hu : x ∉ u) :
    matchAt (.seq r (.seq (lit same [x]) q)) (u ++ x :: t) =
      if fullmatch r u then ((matchAt q t).map (Match.after [x])).map (Match.after u)
      else none := by
  rw [matchAt_stop hr (fun c s hc => ?_) hu]
  · rw [matchAt_lit_cons, if_pos ((hx x).2 rfl), matchAt_lit_nil]
  · rw [matchAt_lit_cons, if_neg fun h => hc ((hx c).1 h)]

/-! ## Gaps -/

/-- The ways of a gap, with a pattern behind it, are tried until the pattern matches. -/
theorem findSome?_shortest {β : Type*} {f : Match → Match → β} {g : Str → Match → β}
    (hf : ∀ m m', m.groups = [] → f m m' = g m.text m') (s : Str) :
    (shortest dot s).findSome? (fun m => (matchAt q m.rest).map (f m)) =
      (scan q s).map fun um => g um.1 um.2 := by
  induction s generalizing f g with
  | nil =>
    rw [shortest, List.findSome?_singleton, scan, Option.map_map]
    exact congrArg (Option.map · (matchAt q [])) (funext fun m' => hf _ m' rfl)
  | cons c s ih =>
    rw [shortest, show dot c = true from rfl, if_pos rfl, List.findSome?_cons, scan]
    cases matchAt q (c :: s) with
    | some m' => exact congrArg some (hf _ m' rfl)
    | none =>
      dsimp only [Option.map_none]
      rw [List.findSome?_map, Option.map_map]
      exact ih (f := fun m m' => f (m.after [c]) m') (g := fun u m' => g (c :: u) m')
        fun m m' hm => hf _ m' hm

/-- What a lazy gap takes is the text before the leftmost match. -/
theorem matchAt_gap (q : Regex) (s : Str) : matchAt (.seq (.lazy dot) q) s =
    (scan q s).map fun um => um.2.after um.1 := by
  rw [matchAt_seq]
  exact findSome?_shortest
    (f := fun m m' => ⟨m.text ++ m'.text, m.groups ++ m'.groups, m'.rest⟩)
    (g := fun u m => m.after u) (fun m m' hm => by rw [hm]; rfl) s

theorem matchAt_group_gap (q : Regex) (s : Str) : matchAt (.seq (.group (.lazy dot)) q) s =
    (scan q s).map fun um => ⟨um.1 ++ um.2.text, um.1 :: um.2.groups, um.2.rest⟩ := by
  rw [matchAt_seq, ways, List.findSome?_map, ways]
  exact findSome?_shortest
    (f := fun m m' => Match.mk (m.text ++ m'.text) (m.text :: m.groups ++ m'.groups) m'.rest)
    (g := fun u m => Match.mk (u ++ m.text) (u :: m.groups) m.rest)
    (fun m m' hm => by rw [hm]; rfl) s

/-! ## Scanning -/

/-- No match of the pattern starts in `u`, where `t` comes after it. -/
def Still (r : Regex) : (u t : Str) → Prop
  | [], _ => True
  | c :: u, t => matchAt r (c :: (u ++ t)) = none ∧ Still r u t

theorem scan_of_matchAt (h : matchAt r s = some m) : scan r s = some ([], m) := by
  cases s with
  | nil => rw [scan, h]; rfl
  | cons c s => rw [scan, h]

theorem scan_append (h : Still r u t) :
    scan r (u ++ t) = (scan r t).map fun (w, m) => (u ++ w, m) := by
  induction u with
  | nil => exact Option.map_id'.symm
  | cons c u ih =>
    rw [List.cons_append, scan, h.1, ih h.2, Option.map_map]
    rfl

theorem matchAt_of_scan (h : scan r s = some (u, m)) : ∃ v, s = u ++ v ∧ matchAt r v = some m := by
  induction s generalizing u with
  | nil =>
    rw [scan, Option.map_eq_some_iff] at h
    obtain ⟨m', hm', h⟩ := h
    cases h
    exact ⟨[], rfl, hm'⟩
  | cons c s ih =>
    rw [scan] at h
    cases hm : matchAt r (c :: s) with
    | some m' =>
      rw [hm] at h
      cases h
      exact ⟨c :: s, rfl, hm⟩
    | none =>
      rw [hm, Option.map_eq_some_iff] at h
      obtain ⟨⟨u', m'⟩, h', hum⟩ := h
      cases hum
      obtain ⟨v, rfl, hv⟩ := ih h'
      exact ⟨v, rfl, hv⟩

theorem matchAt_of_search (h : search r s = some m) : ∃ v, matchAt r v = some m := by
  obtain ⟨⟨u, m'⟩, hscan, rfl⟩ := Option.map_eq_some_iff.1 h
  obtain ⟨v, -, hv⟩ := matchAt_of_scan hscan
  exact ⟨v, hv⟩

/-- A literal that ends with `x` is found in the same place in a longer text. -/
theorem scan_lit_append (hw : ∀ a ∈ w, same a x = false) (hx : ∀ c, same x c = true → c = x)
    (h : scan (lit same (w ++ [x])) s = some (u, m)) :
    scan (lit same (w ++ [x])) (s ++ t) = some (u, m.leave t) := by
  induction s generalizing u m with
  | nil =>
    rw [scan, Option.map_eq_some_iff] at h
    obtain ⟨m', hm', _⟩ := h
    exact absurd (mem_of_matchAt_lit hx hm') List.not_mem_nil
  | cons c s ih =>
    rw [scan] at h
    cases hm : matchAt (lit same (w ++ [x])) (c :: s) with
    | some m' =>
      rw [hm] at h
      cases h
      refine scan_of_matchAt ?_
      rw [matchAt_lit_append hw (mem_of_matchAt_lit hx hm), hm]
      rfl
    | none =>
      rw [hm, Option.map_eq_some_iff] at h
      obtain ⟨⟨u', m'⟩, h', hum⟩ := h
      cases hum
      -- The literal is found further on, so there is an `x` further on.
      obtain ⟨v, rfl, hv⟩ := matchAt_of_scan h'
      have hxs : x ∈ c :: (u' ++ v) :=
        List.mem_cons_of_mem _ (List.mem_append_right _ (mem_of_matchAt_lit hx hv))
      rw [List.cons_append, scan, ← List.cons_append, matchAt_lit_append hw hxs, hm, ih h']
      rfl

theorem still_of_notMem (hr : ∀ c s, matchAt r (c :: s) ≠ none → c = x) (hu : x ∉ u) :
    Still r u t := by
  induction u with
  | nil => trivial
  | cons c u ih =>
    rw [List.mem_cons, not_or] at hu
    refine ⟨?_, ih hu.2⟩
    by_contra h
    exact hu.1 (hr c _ h).symm

theorem still_iff : Still r u t ↔ ∀ v, v <:+ u → v ≠ [] → matchAt r (v ++ t) = none := by
  induction u with
  | nil => exact ⟨fun _ v hv hne => absurd (List.suffix_nil.1 hv) hne, fun _ => trivial⟩
  | cons c u ih =>
    rw [Still, ih]
    constructor
    · rintro ⟨hc, hu⟩ v hv hne
      rcases List.suffix_cons_iff.1 hv with rfl | hv
      · exact hc
      · exact hu v hv hne
    · intro h
      exact ⟨h _ List.suffix_rfl (List.cons_ne_nil c u),
        fun v hv => h v (hv.trans (List.suffix_cons c u))⟩

theorem still_append : Still r (u ++ v) t ↔ Still r u (v ++ t) ∧ Still r v t := by
  induction u with
  | nil => exact (and_iff_right trivial).symm
  | cons c u ih => rw [List.cons_append, Still, Still, ih, List.append_assoc, and_assoc]

theorem search_append (h : Still r u t) : search r (u ++ t) = search r t := by
  rw [search, scan_append h, Option.map_map]
  rfl

theorem search_of_matchAt (h : matchAt r s = some m) : search r s = some m := by
  rw [search, scan_of_matchAt h]
  rfl

theorem search_eq_none_iff : search r s = none ↔ ∀ v, v <:+ s → matchAt r v = none := by
  rw [search, Option.map_eq_none_iff]
  induction s with
  | nil => simp [scan]
  | cons c s ih =>
    rw [scan]
    constructor
    · intro h v hv
      cases hm : matchAt r (c :: s) with
      | some m => rw [hm] at h; cases h
      | none =>
        rw [hm] at h
        rcases List.suffix_cons_iff.1 hv with rfl | hv
        · exact hm
        · exact ih.1 (Option.map_eq_none_iff.1 h) v hv
    · intro h
      rw [h _ List.suffix_rfl]
      exact Option.map_eq_none_iff.2 (ih.2 fun v hv => h v (hv.trans (List.suffix_cons c s)))

/-- A pattern occurs in a text only where its end does. -/
theorem search_seq_eq_none (h : search q s = none) : search (.seq r q) s = none := by
  rw [search_eq_none_iff] at h ⊢
  intro v hv
  rw [matchAt_seq, List.findSome?_eq_none_iff]
  intro m hm
  have hrest : m.rest <:+ v := ⟨m.text, text_ways r v m hm⟩
  rw [h _ (hrest.trans hv)]
  rfl

/-- Replacing keeps the number of a character that is neither in the matches nor in what
    replaces them. -/
theorem count_subFrom (hr : Avoids x r) {repl : Str} (hrepl : x ∉ repl)
    (hne : ∀ s m, matchAt r s = some m → m.text ≠ []) (k : ℕ) :
    (subFrom r repl k s).count x = (s.drop k).count x := by
  induction s generalizing k with
  | nil => simp [subFrom]
  | cons c s ih =>
    cases k with
    | succ k => rw [subFrom, ih, List.drop_succ_cons]
    | zero =>
      rw [subFrom, List.drop_zero]
      cases hm : matchAt r (c :: s) with
      | none =>
        dsimp only
        rw [List.count_cons, ih, List.drop_zero, ← List.count_cons]
      | some m =>
        have htext := text_matchAt hm
        obtain ⟨d, u, hu⟩ := List.exists_cons_of_ne_nil (hne _ m hm)
        have hx : x ∉ m.text := notMem_text hr (List.mem_of_mem_head? hm)
        dsimp only
        rw [hu, List.cons_append] at htext
        obtain ⟨rfl, rfl⟩ := List.cons.inj htext
        rw [hu, List.mem_cons, not_or] at hx
        rw [List.count_append, List.count_eq_zero_of_not_mem hrepl, Nat.zero_add, ih, hu,
          List.length_cons, Nat.add_sub_cancel, List.drop_left,
          List.count_cons_of_ne (Ne.symm hx.1), List.count_append,
          List.count_eq_zero_of_not_mem hx.2, Nat.zero_add]

theorem subFrom_drop {repl : Str} (k : ℕ) (s : Str) :
    subFrom r repl k s = subFrom r repl 0 (s.drop k) := by
  induction s generalizing k with
  | nil => rw [List.drop_nil, subFrom, subFrom]
  | cons c s ih =>
    cases k with
    | zero => rfl
    | succ k => rw [subFrom, ih, List.drop_succ_cons]

/-- A match at the start of a text is replaced, and then those in what it leaves. -/
theorem sub_of_matchAt (repl : Str) (h : matchAt r s = some m) (hm : m.text ≠ []) :
    sub r repl s = repl ++ sub r repl m.rest := by
  have hs := text_matchAt h
  obtain ⟨c, w, hw⟩ := List.exists_cons_of_ne_nil hm
  rw [hw, List.cons_append] at hs
  subst hs
  rw [sub, subFrom, h]
  dsimp only
  rw [subFrom_drop, hw, List.length_cons, Nat.add_sub_cancel, List.drop_left]
  rfl

/-- Where no match starts, nothing is replaced. -/
theorem sub_append (repl : Str) (h : Still r u t) : sub r repl (u ++ t) = u ++ sub r repl t := by
  induction u with
  | nil => rfl
  | cons c u ih =>
    rw [List.cons_append, sub, subFrom, h.1]
    exact congrArg _ (ih h.2)

/-- The place of a match: the text from it on. -/
def Match.place (m : Match) : Str := m.text ++ m.rest

theorem mem_findallFrom {k : ℕ} (h : m ∈ findallFrom r k s) :
    m.place <:+ s ∧ matchAt r m.place = some m := by
  induction s generalizing k with
  | nil =>
    rw [findallFrom] at h
    cases h
  | cons c s ih =>
    cases k with
    | succ k =>
      obtain ⟨hs, hm⟩ := ih h
      exact ⟨hs.trans (List.suffix_cons c s), hm⟩
    | zero =>
      rw [findallFrom] at h
      cases hc : matchAt r (c :: s) with
      | none =>
        rw [hc] at h
        obtain ⟨hs, hm⟩ := ih h
        exact ⟨hs.trans (List.suffix_cons c s), hm⟩
      | some m₀ =>
        rw [hc] at h
        rcases List.mem_cons.1 h with rfl | h
        · rw [Match.place, text_matchAt hc]
          exact ⟨List.suffix_rfl, hc⟩
        · obtain ⟨hs, hm⟩ := ih h
          exact ⟨hs.trans (List.suffix_cons c s), hm⟩

/-- Each match is behind the one before. -/
theorem pairwise_findallFrom (k : ℕ) (s : Str) :
    (findallFrom r k s).Pairwise fun m m' => m'.place.length < m.place.length := by
  induction s generalizing k with
  | nil => exact .nil
  | cons c s ih =>
    cases k with
    | succ k => exact ih k
    | zero =>
      rw [findallFrom]
      cases hc : matchAt r (c :: s) with
      | none => exact ih 0
      | some m₀ =>
        refine .cons (fun m hm => ?_) (ih _)
        rw [Match.place, Match.place, text_matchAt hc, List.length_cons]
        exact Nat.lt_succ_of_le (mem_findallFrom hm).1.length_le

/-- A place where the pattern matches is found, if no match runs from before it over it. -/
theorem mem_findallFrom_of_matchAt {k : ℕ} (hm : matchAt r v = some m) (hv : v ≠ [])
    (hs : v <:+ s.drop k) (hover : ∀ m' ∈ findallFrom r k s,
      m'.rest.length < v.length → m'.place.length ≤ v.length) : m ∈ findallFrom r k s := by
  induction s generalizing k with
  | nil =>
    rw [List.drop_nil, List.suffix_nil] at hs
    exact absurd hs hv
  | cons c s ih =>
    cases k with
    | succ k => exact ih hs hover
    | zero =>
      rw [List.drop_zero] at hs
      rw [findallFrom] at hover ⊢
      rcases List.suffix_cons_iff.1 hs with rfl | hvs
      · rw [hm]
        exact List.mem_cons_self
      cases hc : matchAt r (c :: s) with
      | none =>
        rw [hc] at hover
        exact ih hvs hover
      | some m₀ =>
        rw [hc] at hover
        obtain ⟨hfirst, hover⟩ := List.forall_mem_cons.1 hover
        refine List.mem_cons_of_mem _ (ih ?_ hover)
        have htext := text_matchAt hc
        rw [Match.place, htext, List.length_cons] at hfirst
        -- The place is not in the first match, so it is in what this leaves.
        have hlen : v.length ≤ m₀.rest.length := by
          by_contra hlt
          have := hfirst (by omega)
          have := hvs.length_le
          omega
        cases ht : m₀.text with
        | nil => exact hvs
        | cons d u =>
          rw [ht, List.cons_append] at htext
          obtain ⟨rfl, rfl⟩ := List.cons.inj htext
          rw [List.length_cons, Nat.add_sub_cancel, List.drop_left]
          exact List.suffix_of_suffix_length_le hvs (List.suffix_append u m₀.rest) hlen

end Backtracking
