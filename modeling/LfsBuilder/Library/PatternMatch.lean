import LfsBuilder.Library.Pattern
import LfsBuilder.Library.Regex

/-!
# What a pattern matches

The search of Python's `re` for a pattern: the ways in which it matches at a place of a
text, in the order in which they are tried (`ways`), and the first one at the leftmost
place (`search`).

* `Denotes`: a pattern without alternatives, looks and references is one of the regular
  expressions of `Backtracking`;
* `search_of_denotes`: they find the same.
-/

namespace Sre

open Text

/-- What Python knows of characters: their letter case, and which ones are alphanumeric, and
    digits. -/
structure Unicode where
  letters : Letters
  lowerChar : Char → Char
  isAlnum : Char → Bool
  decimal : Char → Option ℕ

/-- A place in a text: what is before it, the last character first, what comes after, and
    what the groups are. -/
structure Place where
  before : Str
  rest : Str
  groups : ℕ → Option Str := fun _ => none

/-- The text from a place to a later one. -/
def Place.upto (p q : Place) : Str := (q.before.take (q.before.length - p.before.length)).reverse

section

variable (u : Unicode)

/-! ## Characters -/

/-- Whether the character of a pattern with the code `n` matches `c`. -/
def sameCode (f : Flags) (n : ℕ) (c : Char) : Bool :=
  if !f.ignoreCase then n = c.toNat
  else if ¬n.isValidChar then false
  else if f.ascii then (Char.ofNat n).toLower = c.toLower
  else u.letters.same (Char.ofNat n) c

def isWord (f : Flags) (c : Char) : Bool :=
  (if f.ascii then c.isAlphanum else u.isAlnum c) || c = '_'

def inCategory (f : Flags) (c : Char) : Category → Bool
  | .digit => if f.ascii then c.isDigit else (u.decimal c).isSome
  | .space => if f.ascii then isBlank c else isSpace c
  | .word => isWord u f c

def inItem (f : Flags) (c : Char) : Item → Bool
  | .literal n => sameCode u f n c
  | .range lo hi => (List.range' lo (hi + 1 - lo)).any fun n => sameCode u f n c
  | .category k negated => inCategory u f c k != negated

/-- Whether a character of a reference matches `d`. -/
def sameChar (f : Flags) (c d : Char) : Bool :=
  if !f.ignoreCase then c = d
  else if f.ascii then c.toLower = d.toLower
  else u.lowerChar c = u.lowerChar d

/-! ## Places -/

namespace Place

def isAt (f : Flags) (p : Place) : Anchor → Bool
  | .beginning => p.before = [] || f.multiLine && p.before.head? = some '\n'
  | .ending =>
    p.rest = [] || p.rest = ['\n'] || f.multiLine && p.rest.head? = some '\n'
  | .beginningString => p.before = []
  | .endString => p.rest = []
  | .boundary => p.before.head?.any (isWord u f) != p.rest.head?.any (isWord u f)
  | .nonBoundary =>
    !(p.before = [] && p.rest = []) &&
      p.before.head?.any (isWord u f) == p.rest.head?.any (isWord u f)

/-- The place behind the next character, if that is as it should be. -/
def next (p : Place) (ok : Char → Bool) : List Place :=
  match p.rest with
  | [] => []
  | c :: s => if ok c then [{ p with before := c :: p.before, rest := s }] else []

/-- The place behind the text `t`, up to letter case. -/
def skip (f : Flags) : Str → Place → List Place
  | [], p => [p]
  | c :: t, p => (p.next (sameChar u f c)).flatMap (skip f t)

/-- The place `n` characters before. -/
def back (n : ℕ) (p : Place) : Option Place :=
  if n ≤ p.before.length then
    some { p with before := p.before.drop n, rest := (p.before.take n).reverse ++ p.rest }
  else none

end Place

/-! ## Ways -/

/-- `lo` rounds of a repetition. -/
def rounds (body : Place → List Place) : ℕ → Place → List Place
  | 0, p => [p]
  | lo + 1, p => (body p).flatMap (rounds body lo)

/-- Up to `n` rounds of a repetition, the longest way first or the shortest; a round that
    takes nothing is the last. -/
def further (body : Place → List Place) (lazy : Bool) : ℕ → Place → List Place
  | 0, p => [p]
  | n + 1, p =>
    let more := (body p).flatMap fun q =>
      if q.rest.length = p.rest.length then [q] else further body lazy n q
    if lazy then p :: more else more ++ [p]

/-- The ways of a repetition. Without a limit, each round but the last takes a character. -/
def repWays (body : Place → List Place) (k : Kind) (lo : ℕ) (hi : Option ℕ) (p : Place) :
    List Place :=
  let limit (q : Place) := hi.elim (q.rest.length + 1) (· - lo)
  match k with
  | .max => (rounds body lo p).flatMap fun q => further body false (limit q) q
  | .min => (rounds body lo p).flatMap fun q => further body true (limit q) q
  | .possessive =>
    let first (q : Place) := (body q).head?.toList
    (rounds first lo p).flatMap fun q => (further first false (limit q) q).head?.toList

/-- The ways in which a pattern matches at a place, in the order in which they are tried. -/
def ways : Pattern → Place → List Place
  | .empty, p => [p]
  | .chars f negated items, p => p.next fun c => items.any (inItem u f c) != negated
  | .any f, p => p.next fun c => f.dotAll || c ≠ '\n'
  | .anchor f a, p => if p.isAt u f a then [p] else []
  | .seq a b, p => (ways a p).flatMap (ways b)
  | .branch a b, p => ways a p ++ ways b p
  | .rep k lo hi a, p => repWays (ways a) k lo hi p
  | .group none a, p => ways a p
  | .group (some n) a, p => (ways a p).map fun q =>
      { q with groups := Function.update q.groups n (some (p.upto q)) }
  | .atomic a, p => (ways a p).head?.toList
  | .look behind negated a, p =>
    match (p.back (behind.getD 0)).bind fun q => (ways a q).head? with
    | some q => if negated then [] else [{ p with groups := q.groups }]
    | none => if negated then [p] else []
  | .ref f n _, p =>
    match p.groups n with
    | some t => p.skip u f t
    | none => []
  | .cond n yes no, p => if (p.groups n).isSome then ways yes p else ways no p

theorem ways_seq (a b : Pattern) (p : Place) :
    ways u (.seq a b) p = (ways u a p).flatMap (ways u b) := rfl

theorem ways_group (n : ℕ) (a : Pattern) (p : Place) :
    ways u (.group (some n) a) p = (ways u a p).map fun q =>
      { q with groups := Function.update q.groups n (some (p.upto q)) } := rfl

theorem ways_rep (k : Kind) (lo : ℕ) (hi : Option ℕ) (a : Pattern) (p : Place) :
    ways u (.rep k lo hi a) p = repWays (ways u a) k lo hi p := rfl

/-- The first of the places from `p` on where `f` has a value, and its first value there. -/
def firstFrom {α : Type*} (f : Place → List α) (before : Str) : Str → Option α
  | [] => (f { before, rest := [] }).head?
  | c :: s =>
    match (f { before, rest := c :: s }).head? with
    | some a => some a
    | none => firstFrom f (c :: before) s

/-- `re.search`, for a pattern that has been compiled. -/
def search (p : Pattern) (s : Str) : Option Place := firstFrom (ways u p) [] s

end

/-! ## The text of a place -/

/-- The text that a place is in. -/
def Place.text (p : Place) : Str := p.before.reverse ++ p.rest

section

variable {u : Unicode} {p q : Place} {body : Place → List Place}

theorem Place.text_next {ok : Char → Bool} (h : q ∈ p.next ok) : q.text = p.text := by
  obtain ⟨before, rest, g⟩ := p
  rw [Place.next] at h
  cases rest with
  | nil => cases h
  | cons c s =>
    dsimp only at h
    split at h
    · rw [List.mem_singleton.1 h]
      simp [Place.text]
    · cases h

theorem Place.text_skip {f : Flags} {t : Str} (h : q ∈ p.skip u f t) : q.text = p.text := by
  induction t generalizing p with
  | nil => rw [List.mem_singleton.1 h]
  | cons c t ih =>
    obtain ⟨p', hp', hq⟩ := List.mem_flatMap.1 h
    rw [ih hq, Place.text_next hp']

theorem text_rounds (hbody : ∀ p, ∀ q ∈ body p, q.text = p.text) {n : ℕ}
    (h : q ∈ rounds body n p) : q.text = p.text := by
  induction n generalizing p with
  | zero => rw [List.mem_singleton.1 h]
  | succ n ih =>
    obtain ⟨p', hp', hq⟩ := List.mem_flatMap.1 h
    rw [ih hq, hbody p p' hp']

theorem text_further (hbody : ∀ p, ∀ q ∈ body p, q.text = p.text) {lazy : Bool} {n : ℕ}
    (h : q ∈ further body lazy n p) : q.text = p.text := by
  induction n generalizing p with
  | zero => rw [List.mem_singleton.1 h]
  | succ n ih =>
    have hround (h : q ∈ (body p).flatMap fun q =>
        if q.rest.length = p.rest.length then [q] else further body lazy n q) :
        q.text = p.text := by
      obtain ⟨p', hp', hq⟩ := List.mem_flatMap.1 h
      rw [← hbody p p' hp']
      split at hq
      · rw [List.mem_singleton.1 hq]
      · exact ih hq
    rw [further] at h
    cases lazy with
    | true =>
      rcases List.mem_cons.1 h with rfl | h
      · rfl
      · exact hround h
    | false =>
      rcases List.mem_append.1 h with h | h
      · exact hround h
      · rw [List.mem_singleton.1 h]

theorem text_repWays (hbody : ∀ p, ∀ q ∈ body p, q.text = p.text) {k : Kind} {lo : ℕ}
    {hi : Option ℕ} (h : q ∈ repWays body k lo hi p) : q.text = p.text := by
  cases k with
  | max =>
    obtain ⟨p', hp', hq⟩ := List.mem_flatMap.1 h
    rw [text_further hbody hq, text_rounds hbody hp']
  | min =>
    obtain ⟨p', hp', hq⟩ := List.mem_flatMap.1 h
    rw [text_further hbody hq, text_rounds hbody hp']
  | possessive =>
    have hfirst (p : Place) : ∀ q ∈ (body p).head?.toList, q.text = p.text := fun q hq =>
      hbody p q (List.mem_of_mem_head? (Option.mem_toList.1 hq))
    obtain ⟨p', hp', hq⟩ := List.mem_flatMap.1 h
    rw [text_further hfirst (List.mem_of_mem_head? (Option.mem_toList.1 hq)),
      text_rounds hfirst hp']

/-- A match stays in the text. -/
theorem text_ways (a : Pattern) (p : Place) : ∀ q ∈ ways u a p, q.text = p.text := by
  induction a generalizing p with
  | empty => exact fun q hq => by rw [List.mem_singleton.1 hq]
  | chars f negated items => exact fun q hq => Place.text_next hq
  | any f => exact fun q hq => Place.text_next hq
  | anchor f a =>
    intro q hq
    rw [ways] at hq
    split at hq
    · rw [List.mem_singleton.1 hq]
    · cases hq
  | seq a b iha ihb =>
    intro q hq
    obtain ⟨p', hp', hq⟩ := List.mem_flatMap.1 hq
    rw [ihb p' q hq, iha p p' hp']
  | branch a b iha ihb =>
    exact fun q hq => (List.mem_append.1 hq).elim (iha p q) (ihb p q)
  | rep k lo hi a ih => exact fun q hq => text_repWays ih hq
  | group n a ih =>
    cases n with
    | none => exact ih p
    | some n =>
      intro q hq
      obtain ⟨q', hq', rfl⟩ := List.mem_map.1 hq
      exact ih p q' hq'
  | atomic a ih =>
    exact fun q hq => ih p q (List.mem_of_mem_head? (Option.mem_toList.1 hq))
  | look behind negated a ih =>
    intro q hq
    rw [ways] at hq
    split at hq <;> split at hq
    · cases hq
    · rw [List.mem_singleton.1 hq]
      rfl
    · rw [List.mem_singleton.1 hq]
    · cases hq
  | ref f n w =>
    intro q hq
    rw [ways] at hq
    split at hq
    · exact Place.text_skip hq
    · cases hq
  | cond n yes no ihy ihn =>
    intro q hq
    rw [ways] at hq
    split at hq
    · exact ihy p q hq
    · exact ihn p q hq

theorem ways_branchOf {alternatives : List (List Pattern)} (h : alternatives ≠ []) (p : Place) :
    ways u (branchOf alternatives) p = alternatives.flatMap fun items => ways u (seqOf items) p := by
  induction alternatives with
  | nil => exact absurd rfl h
  | cons items alternatives ih =>
    cases alternatives with
    | nil => exact (List.append_nil _).symm
    | cons items' alternatives =>
      exact congrArg (ways u (seqOf items) p ++ ·) (ih (List.cons_ne_nil _ _))

theorem exists_of_firstFrom {α : Type*} {f : Place → List α} {a : α} {before rest : Str}
    (h : firstFrom f before rest = some a) : ∃ p, a ∈ f p := by
  induction rest generalizing before with
  | nil => exact ⟨_, List.mem_of_mem_head? h⟩
  | cons c s ih =>
    rw [firstFrom] at h
    split at h
    · next hhead => exact ⟨_, List.mem_of_mem_head? (hhead.trans h)⟩
    · exact ih h

/-- Two searches come to the same if they do at each place of the text. -/
theorem firstFrom_map_eq {α β γ : Type*} {f : Place → List α} {g : Place → List β} {a : α → γ}
    {b : β → γ} {text : Str} (h : ∀ p : Place, p.text = text →
      (f p).head?.map a = (g p).head?.map b) (before rest : Str)
    (htext : before.reverse ++ rest = text) :
    (firstFrom f before rest).map a = (firstFrom g before rest).map b := by
  induction rest generalizing before with
  | nil => exact h _ htext
  | cons c s ih =>
    have hplace := h { before, rest := c :: s } htext
    have ih := ih (c :: before) (by simpa using htext)
    rw [firstFrom, firstFrom]
    cases hf : (f { before, rest := c :: s }).head? with
    | some x =>
      rw [hf, Option.map_some] at hplace
      obtain ⟨y, hy, hxy⟩ := Option.map_eq_some_iff.1 hplace.symm
      rw [hy]
      exact congrArg some hxy.symm
    | none =>
      rw [hf, Option.map_none] at hplace
      rw [Option.map_eq_none_iff.1 hplace.symm]
      exact ih

end

/-! ## Patterns without alternatives, looks and references -/

section

variable (u : Unicode)

/-- The place behind a match, whose groups all have the number `k`. -/
def Place.behind (k : ℕ) (p : Place) (m : Backtracking.Match) : Place where
  before := m.text.reverse ++ p.before
  rest := m.rest
  groups := m.groups.foldl (fun g t => Function.update g k (some t)) p.groups

/-- The ways of a pattern are those of a regular expression. -/
def Denotes (k : ℕ) (a : Pattern) (r : Backtracking.Regex) : Prop :=
  ∀ p, ways u a p = (Backtracking.ways r p.rest).map (p.behind k)

/-- The pattern matches one character, as `ok` says. -/
def Tests (a : Pattern) (ok : Char → Bool) : Prop := ∀ p, ways u a p = p.next ok

variable {u} {k : ℕ} {a b : Pattern} {r q : Backtracking.Regex} {ok : Char → Bool} {s : Str}

theorem Place.behind_behind (p : Place) (m m' : Backtracking.Match) :
    (p.behind k m).behind k m' =
      p.behind k ⟨m.text ++ m'.text, m.groups ++ m'.groups, m'.rest⟩ := by
  simp [Place.behind]

theorem denotes_empty : Denotes u k .empty .empty := fun _ => rfl

theorem Denotes.seq (ha : Denotes u k a r) (hb : Denotes u k b q) :
    Denotes u k (.seq a b) (.seq r q) := fun p => by
  rw [ways_seq, ha, Backtracking.ways, List.flatMap_map, List.map_flatMap]
  refine List.flatMap_congr fun m _ => ?_
  rw [hb, List.map_map]
  exact List.map_congr_left fun m' _ => p.behind_behind m m'

theorem seqOf_cons (a : Pattern) (as : List Pattern) : seqOf (a :: as) = .seq a (seqOf as) := rfl

theorem ways_seqOf_append (as bs : List Pattern) (p : Place) :
    ways u (seqOf (as ++ bs)) p = (ways u (seqOf as) p).flatMap (ways u (seqOf bs)) := by
  induction as generalizing p with
  | nil => exact (List.flatMap_singleton _ p).symm
  | cons a as ih =>
    rw [List.cons_append, seqOf_cons, seqOf_cons, ways_seq, ways_seq, List.flatMap_assoc]
    exact List.flatMap_congr fun q _ => ih q

theorem denotes_append {as bs : List Pattern} (ha : Denotes u k (seqOf as) r)
    (hb : Denotes u k (seqOf bs) q) : Denotes u k (seqOf (as ++ bs)) (.seq r q) := fun p => by
  rw [ways_seqOf_append]
  exact ha.seq hb p

theorem denotes_singleton (ha : Denotes u k a r) : Denotes u k (seqOf [a]) r := fun p => by
  rw [seqOf_cons, ways_seq, ← ha p]
  exact List.flatMap_singleton' _

theorem Tests.denotes (h : Tests u a ok) : Denotes u k a (.char ok) := fun p => by
  rw [h, Place.next, Backtracking.ways.eq_def]
  cases p.rest with
  | nil => rfl
  | cons c s =>
    dsimp only
    split <;> rfl

theorem tests_chars {f : Flags} {negated : Bool} {items : List Item}
    (h : ∀ c, (items.any (inItem u f c) != negated) = ok c) :
    Tests u (.chars f negated items) ok := fun p => congrArg p.next (funext h)

theorem tests_any {f : Flags} (h : f.dotAll = true) :
    Tests u (.any f) Backtracking.dot := fun p => congrArg p.next <| funext fun c => by
  rw [h]
  rfl

/-- With as many rounds as there are characters, a repetition ends of itself. -/
theorem further_char (h : Tests u a ok) (lazy : Bool) (p : Place) {n : ℕ}
    (hn : p.rest.length < n) : further (ways u a) lazy n p =
      (if lazy then Backtracking.shortest ok p.rest else Backtracking.greedy ok p.rest).map
        (p.behind k) := by
  obtain ⟨before, rest, g⟩ := p
  induction rest generalizing before n with
  | nil =>
    obtain ⟨n, rfl⟩ := Nat.exists_eq_succ_of_ne_zero (Nat.ne_zero_of_lt hn)
    rw [further, h]
    cases lazy <;> rfl
  | cons c s ih =>
    obtain ⟨n, rfl⟩ := Nat.exists_eq_succ_of_ne_zero (Nat.ne_zero_of_lt hn)
    have ih := ih (c :: before) (Nat.lt_of_succ_lt_succ hn)
    have hround : ((Place.mk before (c :: s) g).next ok).flatMap (fun q =>
        if q.rest.length = s.length + 1 then [q] else further (ways u a) lazy n q) =
        (if ok c then if lazy then (Backtracking.shortest ok s).map (Backtracking.Match.after [c])
          else (Backtracking.greedy ok s).map (Backtracking.Match.after [c]) else []).map
          ((Place.mk before (c :: s) g).behind k) := by
      rw [Place.next]
      dsimp only
      split
      · rw [List.flatMap_cons, List.flatMap_nil, List.append_nil,
          if_neg (by simp), ih]
        cases lazy <;> simp [Place.behind, Function.comp_def]
      · rfl
    rw [further, h, List.length_cons, hround, Backtracking.shortest, Backtracking.greedy]
    cases lazy <;> split <;> simp [Place.behind]

theorem denotes_many (h : Tests u a ok) : Denotes u k (.rep .max 0 none a) (.many ok) := fun p => by
  rw [ways_rep, repWays]
  exact (List.flatMap_singleton _ p).trans (further_char h false p (Nat.lt_succ_self _))

theorem denotes_lazy (h : Tests u a ok) : Denotes u k (.rep .min 0 none a) (.lazy ok) := fun p => by
  rw [ways_rep, repWays]
  exact (List.flatMap_singleton _ p).trans (further_char h true p (Nat.lt_succ_self _))

theorem denotes_group (ha : Denotes u k a r)
    (hr : ∀ s, ∀ m ∈ Backtracking.ways r s, m.groups = []) :
    Denotes u k (.group (some k) a) (.group r) := fun p => by
  rw [ways_group, ha, Backtracking.ways, List.map_map, List.map_map]
  refine List.map_congr_left fun m hm => ?_
  simp [Place.behind, Place.upto, hr _ m hm]

/-- Literals, one after the other. -/
theorem denotes_lit {same : Char → Char → Bool} {f : Flags} {w : Str}
    (h : ∀ a ∈ w, ∀ c, sameCode u f a.toNat c = same a c) :
    Denotes u k (seqOf (w.map fun a => .literal f a.toNat)) (Backtracking.lit same w) := by
  induction w with
  | nil => exact denotes_empty
  | cons a w ih =>
    obtain ⟨ha, hw⟩ := List.forall_mem_cons.1 h
    have htest : Tests u (.literal f a.toNat) (same a) := tests_chars fun c => by
      simp [inItem, ha c]
    exact htest.denotes.seq (ih hw)

/-! ## Searching -/

theorem groups_behind (p : Place) (m : Backtracking.Match) :
    (p.behind k m).groups k = m.groups.getLast?.or (p.groups k) := by
  rw [Place.behind]
  induction m.groups using List.reverseRecOn with
  | nil => rfl
  | append_singleton l t _ => simp

/-- The search finds what that for the regular expression finds. -/
theorem search_of_denotes (h : Denotes u k a r) (s : Str) :
    (search u a s).map (fun q => q.groups k) =
      (Backtracking.search r s).map fun m => m.groups.getLast? := by
  have hhead (before s : Str) : (ways u a { before, rest := s }).head? =
      (Backtracking.matchAt r s).map (Place.behind k { before, rest := s }) := by
    rw [h, List.head?_map]
    rfl
  rw [search, Backtracking.search]
  generalize ([] : Str) = before
  induction s generalizing before with
  | nil =>
    rw [firstFrom, hhead, Backtracking.scan, Option.map_map, Option.map_map, Option.map_map]
    refine congrArg (Option.map · _) (funext fun m => ?_)
    exact (groups_behind _ m).trans Option.or_none
  | cons c s ih =>
    rw [firstFrom, hhead, Backtracking.scan]
    cases Backtracking.matchAt r (c :: s) with
    | some m => exact congrArg some ((groups_behind _ m).trans Option.or_none)
    | none =>
      dsimp only [Option.map_none]
      rw [ih, Option.map_map, Option.map_map, Option.map_map]
      rfl

end

end Sre
