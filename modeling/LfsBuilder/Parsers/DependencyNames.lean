import LfsBuilder.Parsers.LfsParser

/-!
# The names in a list of dependencies

The code with which `resolve_dependencies` and `build_dependency_graph` split the text of
a list into names (`splitDeps`), against the way in which the book writes a list.

* `splitDeps_of_rendering`: the names of a list are read back as they are, whatever
  white space they are written with;
* `splitDeps_isDependency_iff`: the texts in which all names are well formed: the periods
  are taken off a piece after it has been stripped and tested.
-/

namespace LfsBuilder

open Text Backtracking

variable {letters : Letters} {s t u v w : Str} {c : Char}

/-! ## Words in a text -/

/-- What `andPattern` matches after the white space before the word. -/
def andTail : Regex := .seq (lit (· == ·) "and".toList) <| .seq (.char isSpace) (.many isSpace)

theorem matchAt_andPattern : matchAt andPattern (c :: s) = if isSpace c then
    (matchAt andTail (s.dropWhile isSpace)).map (Match.after (c :: s.takeWhile isSpace))
    else none := by
  have htail (d : Char) (s : Str) (hd : isSpace d = true) : matchAt andTail (d :: s) = none := by
    by_contra h
    obtain ⟨t, ht, -⟩ := exists_of_matchAt_lit h
    obtain rfl := (List.cons.inj ht).1
    cases hd
  rw [andPattern, matchAt_char, show Regex.seq (lit (· == ·) "and".toList) _ = andTail from rfl,
    matchAt_many_seq htail, Option.map_map]
  rfl

theorem matchAt_andTail (hc : isSpace c = true) : matchAt andTail ("and".toList ++ c :: s) =
    some ⟨"and".toList ++ c :: s.takeWhile isSpace, [], s.dropWhile isSpace⟩ := by
  rw [andTail, matchAt_lit_self, matchAt_char, if_pos hc, matchAt_many]
  rfl

theorem exists_of_matchAt_andTail (h : matchAt andTail s ≠ none) :
    ∃ d r, s = "and".toList ++ d :: r ∧ isSpace d = true := by
  obtain ⟨t, rfl, ht⟩ := exists_of_matchAt_lit h
  cases t with
  | nil => exact absurd matchAt_char_nil ht
  | cons d r =>
    rw [matchAt_char] at ht
    split at ht
    · next hd => exact ⟨d, r, rfl, hd⟩
    · exact absurd rfl ht

/-- Where the word begins in a text, the text has it as a word of its own, unless what comes
    after the text goes on with it. -/
theorem mem_words_of_matchAt_andTail (hu : u ≠ []) (h : matchAt andTail (u ++ t) ≠ none)
    (ht : t.head? ≠ some 'n' ∧ t.head? ≠ some 'd') : "and".toList ∈ words u := by
  obtain ⟨d, r, hdr, hd⟩ := exists_of_matchAt_andTail h
  rcases List.append_eq_append_iff.1 hdr with ⟨y, hy, hty⟩ | ⟨y, hy, hty⟩
  · -- The word is cut off by the end of `u`.
    obtain ⟨a, z, rfl⟩ := List.exists_cons_of_ne_nil hu
    cases y with
    | nil =>
      rw [List.append_nil] at hy
      rw [← hy]
      decide
    | cons b y =>
      rw [List.cons_append] at hty
      have hb : b = 'n' ∨ b = 'd' := by
        have hand : ['a', 'n', 'd'] = a :: (z ++ b :: y) := hy
        have hmem : b ∈ z ++ b :: y := List.mem_append_right _ List.mem_cons_self
        rw [← (List.cons.inj hand).2] at hmem
        simpa using hmem
      rw [hty] at ht
      rcases hb with rfl | rfl
      · exact absurd rfl ht.1
      · exact absurd rfl ht.2
  · rw [hy]
    refine words_word (by decide) (by decide) fun a ha => ?_
    cases y with
    | nil => cases ha
    | cons b y =>
      cases (List.cons.inj hty).1
      cases ha
      exact hd

/-- No match of `andPattern` starts in a text that does not have the word, does not end with
    white space, and does not go on as the word does. -/
theorem still_andPattern (hlast : ∀ d, u.getLast? = some d → isSpace d = false)
    (hword : "and".toList ∉ words u) (ht : t.head? ≠ some 'n' ∧ t.head? ≠ some 'd') :
    Still andPattern u t := by
  refine still_iff.2 fun v hv hne => ?_
  by_contra hm
  obtain ⟨c, v, rfl⟩ := List.exists_cons_of_ne_nil hne
  obtain ⟨p, rfl⟩ := hv
  rw [List.cons_append, matchAt_andPattern] at hm
  split at hm
  · next hc =>
    -- What comes after the white space begins with a word of `u`.
    have hx : v.dropWhile isSpace ≠ [] := fun hnil => by
      have hlast := hlast ((c :: v).getLast (List.cons_ne_nil c v)) (by
        rw [List.getLast?_append_of_ne_nil p (List.cons_ne_nil c v), List.getLast?_eq_some_getLast])
      have hblank : Blank (c :: v) := List.forall_mem_cons.2 ⟨hc, List.dropWhile_eq_nil_iff.1 hnil⟩
      rw [hblank _ (List.getLast_mem _)] at hlast
      cases hlast
    have hwords : words (p ++ c :: v) = words p ++ words (v.dropWhile isSpace) := by
      conv_lhs => rw [← List.takeWhile_append_dropWhile (p := isSpace) (l := v)]
      rw [words_append_cons hc, words_blank_append fun d hd => List.mem_takeWhile_imp hd]
    have htail : matchAt andTail (v.dropWhile isSpace ++ t) ≠ none := fun hnone => by
      rw [List.dropWhile_append, if_neg (by simpa using hx), hnone] at hm
      exact hm rfl
    rw [hwords] at hword
    exact hword (List.mem_append_right _ (mem_words_of_matchAt_andTail hx htail ht))
  · exact hm rfl

theorem still_of_blank (hu : Blank u) : Still andPattern u [] := by
  induction u with
  | nil => trivial
  | cons c u ih =>
    obtain ⟨hc, hu⟩ := List.forall_mem_cons.1 hu
    refine ⟨?_, ih hu⟩
    rw [List.append_nil, matchAt_andPattern, if_pos hc, List.dropWhile_eq_nil_iff.2 hu]
    rfl

/-- The word, with the white space around it, is replaced by a comma. -/
theorem sub_andPattern (hv : Blank v) (hv₀ : v ≠ []) (hw : Blank w) (hw₀ : w ≠ [])
    (ht : ∀ d, t.head? = some d → isSpace d = false) :
    sub andPattern ", ".toList (v ++ "and".toList ++ w ++ t) =
      ", ".toList ++ sub andPattern ", ".toList t := by
  obtain ⟨c, v, rfl⟩ := List.exists_cons_of_ne_nil hv₀
  obtain ⟨d, w, rfl⟩ := List.exists_cons_of_ne_nil hw₀
  obtain ⟨hc, hv⟩ := List.forall_mem_cons.1 hv
  obtain ⟨hd, hw⟩ := List.forall_mem_cons.1 hw
  have hrest : (w ++ t).dropWhile isSpace = t := by
    rw [List.dropWhile_append_of_pos hw]
    cases t with
    | nil => rfl
    | cons a t => exact List.dropWhile_cons_of_neg (by simpa using ht a rfl)
  have hdrop : (v ++ ("and".toList ++ d :: (w ++ t))).dropWhile isSpace =
      "and".toList ++ d :: (w ++ t) := by
    rw [List.dropWhile_append_of_pos hv]
    rfl
  have hm : matchAt andPattern (c :: (v ++ ("and".toList ++ d :: (w ++ t)))) = some
      ((Match.mk ("and".toList ++ d :: (w ++ t).takeWhile isSpace) [] t).after
        (c :: (v ++ ("and".toList ++ d :: (w ++ t))).takeWhile isSpace)) := by
    rw [matchAt_andPattern, if_pos hc, hdrop, matchAt_andTail hd, hrest]
    rfl
  have hsub := sub_of_matchAt ", ".toList hm (by simp)
  simpa only [List.append_assoc, List.cons_append, Match.after_rest] using hsub

/-! ## Pieces of a text -/

/-- The pieces between the commas and the words `and`. -/
def pieces (text : Str) : List Str := (sub andPattern ", ".toList text).splitOn ','

/-- The name in a piece, if there is one. -/
def nameIn? (letters : Letters) (piece : Str) : Option Str :=
  if strip piece ≠ [] && letters.lower (strip piece) ≠ "none".toList then
    some (rstrip ['.'] (strip piece))
  else none

theorem splitDeps_eq (letters : Letters) (text : Str) :
    splitDeps letters text = (pieces text).filterMap (nameIn? letters) := by
  rw [splitDeps, pieces, ← List.filterMap_eq_map, ← List.filterMap_eq_filter,
    List.filterMap_filterMap]
  refine List.filterMap_congr fun piece _ => ?_
  rw [nameIn?]
  simp only [Option.guard]
  split <;> rfl

/-! ## Names -/

/-- A well-formed name of a dependency. -/
structure IsDependency (letters : Letters) (name : Str) : Prop where
  ne_nil : name ≠ []
  strip_eq : strip name = name
  notMem_comma : ',' ∉ name
  getLast?_ne : name.getLast? ≠ some '.'
  ne_none : letters.lower name ≠ "none".toList

/-- A piece that gives a name that is not well formed: after what is the name there are
    periods, and the name is empty, ends with white space, or is `none`. -/
def Spoilt (letters : Letters) (piece : Str) : Prop :=
  ∃ name dots, strip piece = name ++ dots ∧ dots ≠ [] ∧ (∀ c ∈ dots, c = '.') ∧
    (name = [] ∨ (∃ c, name.getLast? = some c ∧ isSpace c = true) ∨
      letters.lower name = "none".toList)

theorem exists_rstrip_append (s : Str) :
    ∃ dots, (∀ c ∈ dots, c = '.') ∧ s = rstrip ['.'] s ++ dots :=
  ⟨s.rtakeWhile (· ∈ ['.']), fun c hc => by simpa using List.mem_rtakeWhile_imp hc,
    (List.rdropWhile_append_rtakeWhile ..).symm⟩

theorem rstrip_append_dots {name dots : Str} (hdots : ∀ c ∈ dots, c = '.')
    (hname : name.getLast? ≠ some '.') : rstrip ['.'] (name ++ dots) = name := by
  induction dots using List.reverseRecOn with
  | nil =>
    rw [List.append_nil, rstrip, List.rdropWhile_eq_self_iff]
    intro hne hlast
    refine hname ?_
    rw [List.getLast?_eq_some_getLast hne, show name.getLast hne = '.' by simpa using hlast]
  | append_singleton dots d ih =>
    obtain rfl : d = '.' := hdots d (by simp)
    rw [← List.append_assoc, rstrip, List.rdropWhile_concat_pos _ _ _ (by decide)]
    exact ih fun c hc => hdots c (List.mem_append_left _ hc)

theorem getLast?_rstrip (s : Str) : (rstrip ['.'] s).getLast? ≠ some '.' := by
  intro h
  have hne : rstrip ['.'] s ≠ [] := fun hnil => by
    rw [hnil] at h
    cases h
  have hlast : ¬decide ((rstrip ['.'] s).getLast hne ∈ ['.']) = true :=
    List.rdropWhile_last_not _ _ hne
  rw [List.getLast?_eq_some_getLast hne, Option.some.injEq] at h
  rw [h] at hlast
  exact hlast (by decide)

theorem notMem_of_lower_none (h : letters.lower s = "none".toList) : '.' ∉ s := by
  rw [← letters.mem_lower s '.' (by decide) rfl, h]
  decide

theorem nameIn?_eq_some_iff {name : Str} : nameIn? letters s = some name ↔
    (strip s ≠ [] ∧ letters.lower (strip s) ≠ "none".toList) ∧ rstrip ['.'] (strip s) = name := by
  rw [nameIn?]
  split
  · next h => simp_all
  · next h => simp_all

theorem isDependency_iff_of_nameIn? {name : Str} (hs : ',' ∉ s)
    (h : nameIn? letters s = some name) :
    IsDependency letters name ↔ ¬Spoilt letters s := by
  obtain ⟨⟨hne, hnone⟩, hname⟩ := nameIn?_eq_some_iff.1 h
  constructor
  · rintro hn ⟨core, dots, hcore, hdots₀, hdots, hbad⟩
    have hlast : core.getLast? ≠ some '.' := by
      rcases hbad with rfl | ⟨c, hc, hspace⟩ | hlower
      · exact fun h => by cases h
      · rintro hdot
        cases hc.symm.trans hdot
        cases hspace
      · exact fun hdot => notMem_of_lower_none hlower (List.mem_of_mem_getLast? hdot)
    rw [hcore, rstrip_append_dots hdots hlast] at hname
    subst hname
    rcases hbad with rfl | ⟨c, hc, hspace⟩ | hlower
    · exact hn.ne_nil rfl
    · rw [(strip_eq_self_iff.1 hn.strip_eq).2 c hc] at hspace
      cases hspace
    · exact hn.ne_none hlower
  · intro hspoilt
    obtain ⟨dots, hdots, hsplit⟩ := exists_rstrip_append (strip s)
    rw [hname] at hsplit
    have hcomma : ',' ∉ name := fun hmem => by
      have hmem : ',' ∈ strip s := hsplit ▸ List.mem_append_left _ hmem
      exact hs ((strip_isInfix s).subset hmem)
    obtain ⟨hhead, hlast⟩ := strip_eq_self_iff.1 (strip_strip s)
    rcases eq_or_ne dots [] with rfl | hdots₀
    · -- No period is taken off.
      rw [List.append_nil] at hsplit
      exact ⟨hsplit ▸ hne, hsplit ▸ strip_strip s, hcomma, hname ▸ getLast?_rstrip _,
        hsplit ▸ hnone⟩
    · have hname₀ : name ≠ [] := fun hnil => hspoilt ⟨name, dots, hsplit, hdots₀, hdots, .inl hnil⟩
      refine ⟨hname₀, strip_eq_self_iff.2 ⟨fun c hc => hhead c ?_, fun c hc => ?_⟩, hcomma,
        hname ▸ getLast?_rstrip _, fun hlower => ?_⟩
      · rw [hsplit, List.head?_append_of_ne_nil _ hname₀, hc]
      · exact Bool.eq_false_iff.2 fun hspace =>
          hspoilt ⟨name, dots, hsplit, hdots₀, hdots, .inr (.inl ⟨c, hc, hspace⟩)⟩
      · exact hspoilt ⟨name, dots, hsplit, hdots₀, hdots, .inr (.inr hlower)⟩

/-- All names in a text are well formed just if no piece of it is spoilt. -/
theorem splitDeps_isDependency_iff (letters : Letters) (text : Str) :
    (∀ name ∈ splitDeps letters text, IsDependency letters name) ↔
      ∀ piece ∈ pieces text, ¬Spoilt letters piece := by
  rw [splitDeps_eq]
  have hcomma (piece : Str) (hp : piece ∈ pieces text) : ',' ∉ piece := (of_mem_splitOn _ hp).1
  constructor
  · intro h piece hp hspoilt
    have hname : ∃ name, nameIn? letters piece = some name := by
      obtain ⟨core, dots, hcore, hdots₀, hdots, -⟩ := hspoilt
      have hdot : '.' ∈ strip piece := by
        obtain ⟨d, ds, rfl⟩ := List.exists_cons_of_ne_nil hdots₀
        rw [hcore, ← hdots d List.mem_cons_self]
        exact List.mem_append_right _ List.mem_cons_self
      exact ⟨_, nameIn?_eq_some_iff.2
        ⟨⟨List.ne_nil_of_mem hdot, fun hnone => notMem_of_lower_none hnone hdot⟩, rfl⟩⟩
    obtain ⟨name, hname⟩ := hname
    refine (isDependency_iff_of_nameIn? (hcomma piece hp) hname).1 ?_ hspoilt
    exact h name (List.mem_filterMap.2 ⟨piece, hp, hname⟩)
  · intro h name hname
    obtain ⟨piece, hp, hname⟩ := List.mem_filterMap.1 hname
    exact (isDependency_iff_of_nameIn? (hcomma piece hp) hname).2 (h piece hp)

/-- After the piece `None.`, there is a package `None`. -/
theorem splitDeps_none_period :
    ¬∀ name ∈ splitDeps .ascii "None.".toList, IsDependency .ascii name := by
  intro h
  have hnone := h "None".toList (by decide +kernel)
  exact hnone.ne_none (by decide +kernel)

/-! ## Lists as the book writes them -/

/-- A name that a list can hold: it does not have the word `and`. -/
structure IsListed (letters : Letters) (name : Str) : Prop extends IsDependency letters name where
  notMem_and : "and".toList ∉ words name

/-- White space between names. -/
def Gap (w : Str) : Prop := Blank w ∧ w ≠ []

/-- The ways to write a list of names: each but the last of three or more has a comma and
    white space after it. -/
inductive Rendering : List Str → Str → Prop
  | none : Rendering [] "None".toList
  | one (a : Str) : Rendering [a] a
  | two {a b v w : Str} : Gap v → Gap w → Rendering [a, b] (a ++ v ++ "and".toList ++ w ++ b)
  | more {heads : List (Str × Str)} {z w : Str} : 2 ≤ heads.length → (∀ h ∈ heads, Gap h.2) →
      Gap w → Rendering (heads.map Prod.fst ++ [z])
        (heads.flatMap (fun h => h.1 ++ ',' :: h.2) ++ "and".toList ++ w ++ z)

/-- The period at the end of a list, if there is one. -/
def Stop (names : List Str) (stop : Str) : Prop := stop = [] ∨ stop = ['.'] ∧ names ≠ []

section

variable {name stop : Str}

theorem head?_of_strip (hne : name ≠ []) (hn : strip name = name) :
    ∀ d, (name ++ t).head? = some d → isSpace d = false := fun d hd => by
  rw [List.head?_append_of_ne_nil _ hne] at hd
  exact (strip_eq_self_iff.1 hn).1 d hd

theorem still_name (hne : name ≠ []) (hn : strip name = name) (hand : "and".toList ∉ words name)
    (hw : Blank w) (ht : t.head? ≠ some 'n' ∧ t.head? ≠ some 'd') :
    Still andPattern (w ++ name) t := by
  refine still_andPattern (fun d hd => ?_) (by rwa [words_blank_append hw]) ht
  rw [List.getLast?_append_of_ne_nil _ hne] at hd
  exact (strip_eq_self_iff.1 hn).2 d hd

theorem IsListed.still (hn : IsListed letters name) (hw : Blank w)
    (ht : t.head? ≠ some 'n' ∧ t.head? ≠ some 'd') : Still andPattern (w ++ name) t :=
  still_name hn.ne_nil hn.strip_eq hn.notMem_and hw ht

theorem notMem_of_blank {x : Char} (hx : isSpace x = false) (hw : Blank w) : x ∉ w := fun h => by
  rw [hw x h] at hx
  cases hx

theorem nameIn?_name (hn : IsDependency letters name) (hv : Blank v) (hw : Blank w)
    (hstop : stop = [] ∨ stop = ['.']) :
    nameIn? letters (v ++ (name ++ stop ++ w)) = some name := by
  have hstrip : strip (v ++ (name ++ stop ++ w)) = name ++ stop := by
    rw [strip_blank_append hv, strip_append_blank hw]
    rcases hstop with rfl | rfl
    · rw [List.append_nil, hn.strip_eq]
    · refine strip_eq_self_iff.2 ⟨head?_of_strip hn.ne_nil hn.strip_eq, fun c hc => ?_⟩
      rw [List.getLast?_concat] at hc
      exact Option.some.inj hc ▸ rfl
  rw [nameIn?_eq_some_iff, hstrip]
  refine ⟨⟨List.append_ne_nil_of_left_ne_nil hn.ne_nil _, fun hlower => ?_⟩, ?_⟩
  · rcases hstop with rfl | rfl
    · exact hn.ne_none (by rwa [List.append_nil] at hlower)
    · exact notMem_of_lower_none hlower (by simp)
  · refine rstrip_append_dots (fun c hc => ?_) hn.getLast?_ne
    rcases hstop with rfl | rfl
    · cases hc
    · exact List.mem_singleton.1 hc

/-- A name before a comma is a piece. -/
theorem pieces_comma (hn : IsListed letters name) (hw : Blank w) :
    pieces (w ++ name ++ ',' :: t) = (w ++ name) :: pieces t := by
  have hcomma : Still andPattern [','] t := ⟨by rw [matchAt_andPattern]; rfl, trivial⟩
  have hstill : Still andPattern (w ++ name ++ [',']) t :=
    still_append.2 ⟨hn.still hw ⟨by simp, by simp⟩, hcomma⟩
  rw [pieces, List.append_cons, sub_append _ hstill, List.append_assoc, List.singleton_append]
  refine List.splitOn_append_cons_self_of_not_mem ?_ _
  exact List.not_mem_append (notMem_of_blank rfl hw) hn.notMem_comma

/-- Nothing is replaced from the last name of a list on. -/
theorem sub_last (hne : name ≠ []) (hn : strip name = name) (hand : "and".toList ∉ words name)
    (hv : Blank v) (hw : Blank w) (hstop : stop = [] ∨ stop = ['.']) :
    sub andPattern ", ".toList (v ++ (name ++ stop ++ w)) = v ++ (name ++ stop ++ w) := by
  have hend : ∀ d, isSpace d = false → w.head? ≠ some d := fun d hd h =>
    notMem_of_blank hd hw (List.mem_of_mem_head? h)
  have hname : Still andPattern (v ++ name) (stop ++ (w ++ [])) := by
    refine still_name hne hn hand hv ?_
    rcases hstop with rfl | rfl
    · simpa using ⟨hend 'n' rfl, hend 'd' rfl⟩
    · exact ⟨by simp, by simp⟩
  have hdot : Still andPattern stop (w ++ []) := by
    rcases hstop with rfl | rfl
    · trivial
    · exact ⟨by rw [matchAt_andPattern]; rfl, trivial⟩
  have hstill : Still andPattern (v ++ name ++ (stop ++ w)) [] :=
    still_append.2 ⟨by simpa using hname, still_append.2 ⟨hdot, still_of_blank hw⟩⟩
  have hsub := sub_append ", ".toList hstill
  rw [List.append_nil, show sub andPattern ", ".toList [] = [] from rfl, List.append_nil] at hsub
  simpa only [List.append_assoc] using hsub

/-- A piece with the last name of a list. -/
theorem splitOn_last (hn : IsListed letters name) (hv : Blank v) (hw : Blank w)
    (hstop : stop = [] ∨ stop = ['.']) :
    ((v ++ (name ++ stop ++ w)).splitOn ',').filterMap (nameIn? letters) = [name] := by
  have hcomma : ',' ∉ v ++ (name ++ stop ++ w) := by
    refine List.not_mem_append (notMem_of_blank rfl hv) (List.not_mem_append
      (List.not_mem_append hn.notMem_comma ?_) (notMem_of_blank rfl hw))
    rcases hstop with rfl | rfl <;> decide
  rw [List.splitOn_eq_singleton hcomma, List.filterMap_cons_some
    (nameIn?_name hn.toIsDependency hv hw hstop), List.filterMap_nil]

/-- The pieces from the word `and` on, before the last name. -/
theorem splitOn_and (hn : IsListed letters name) (hv : Gap v) (hw : Gap w) (hu : Blank u)
    (hstop : stop = [] ∨ stop = ['.']) :
    sub andPattern ", ".toList (v ++ "and".toList ++ w ++ (name ++ stop ++ u)) =
      ',' :: ([' '] ++ (name ++ stop ++ u)) := by
  rw [sub_andPattern hv.1 hv.2 hw.1 hw.2]
  · have hlast := sub_last (v := []) hn.ne_nil hn.strip_eq hn.notMem_and
      (fun c hc => absurd hc List.not_mem_nil) hu hstop
    rw [List.nil_append] at hlast
    rw [hlast]
    rfl
  · rw [List.append_assoc]
    exact head?_of_strip hn.ne_nil hn.strip_eq

theorem nameIn?_piece (hn : IsListed letters name) (hw : Blank w) :
    nameIn? letters (w ++ name) = some name := by
  have hname := nameIn?_name hn.toIsDependency hw (w := []) (fun c hc => absurd hc List.not_mem_nil)
    (.inl rfl)
  rwa [List.append_nil, List.append_nil] at hname

/-- The names of a list from some place on, where all but the last have a comma after them. -/
theorem splitDeps_heads {heads : List (Str × Str)} {z : Str} (hne : heads ≠ [])
    (hheads : ∀ h ∈ heads, IsListed letters h.1 ∧ Gap h.2) (hz : IsListed letters z) (hv : Blank v)
    (hw : Gap w) (hu : Blank u) (hstop : stop = [] ∨ stop = ['.']) :
    splitDeps letters (v ++ (heads.flatMap (fun h => h.1 ++ ',' :: h.2) ++
      ("and".toList ++ w ++ (z ++ stop ++ u)))) = heads.map Prod.fst ++ [z] := by
  induction heads generalizing v with
  | nil => exact absurd rfl hne
  | cons h heads ih =>
    obtain ⟨⟨hname, hgap⟩, hrest⟩ := List.forall_mem_cons.1 hheads
    have htext : v ++ ((h :: heads).flatMap (fun h => h.1 ++ ',' :: h.2) ++
        ("and".toList ++ w ++ (z ++ stop ++ u))) =
          v ++ h.1 ++ ',' :: (h.2 ++ (heads.flatMap (fun h => h.1 ++ ',' :: h.2) ++
            ("and".toList ++ w ++ (z ++ stop ++ u)))) := by
      simp only [List.flatMap_cons, List.append_assoc, List.cons_append]
    rw [htext, splitDeps_eq, pieces_comma hname hv,
      List.filterMap_cons_some (nameIn?_piece hname hv), List.map_cons, List.cons_append,
      ← splitDeps_eq]
    congr 1
    cases heads with
    | nil =>
      have hand := splitOn_and hz hgap hw hu hstop
      rw [List.append_assoc, List.append_assoc] at hand
      have hempty : nameIn? letters [] = none := rfl
      rw [List.flatMap_nil, List.nil_append, splitDeps_eq, pieces, List.append_assoc, hand,
        ← List.nil_append (',' :: _), List.splitOn_append_cons_self_of_not_mem List.not_mem_nil,
        List.filterMap_cons_none hempty]
      exact splitOn_last hz (by simp [Blank, isSpace]) hu hstop
    | cons h' heads => exact ih (List.cons_ne_nil _ _) hrest hgap.1

/-- The word `None` stands for no names. -/
theorem splitDeps_none (letters : Letters) (hv : Blank v) (hw : Blank w) :
    splitDeps letters (v ++ ("None".toList ++ [] ++ w)) = [] := by
  have hlast : sub andPattern ", ".toList (v ++ ("None".toList ++ [] ++ w)) =
      v ++ ("None".toList ++ [] ++ w) :=
    sub_last (by decide) (by decide) (by decide) hv hw (.inl rfl)
  have hcomma : ',' ∉ v ++ ("None".toList ++ [] ++ w) :=
    List.not_mem_append (notMem_of_blank rfl hv)
      (List.not_mem_append (by decide) (notMem_of_blank rfl hw))
  have hlower : letters.lower "None".toList = "none".toList := by
    rw [letters.lower_ascii _ (by decide)]
    decide
  have hnone : nameIn? letters (v ++ ("None".toList ++ [] ++ w)) = none := by
    rw [nameIn?, strip_blank_append hv, strip_append_blank hw, List.append_nil,
      show strip "None".toList = "None".toList by decide, hlower]
    simp
  rw [splitDeps_eq, pieces, hlast, List.splitOn_eq_singleton hcomma,
    List.filterMap_cons_none hnone, List.filterMap_nil]

/-- Two names have the word between them. -/
theorem splitDeps_two {a b v' w' : Str} (ha : IsListed letters a) (hb : IsListed letters b)
    (hv' : Gap v') (hw' : Gap w') (hv : Blank v) (hw : Blank w) (hstop : stop = [] ∨ stop = ['.']) :
    splitDeps letters (v ++ (a ++ v' ++ "and".toList ++ w' ++ b ++ stop ++ w)) = [a, b] := by
  have hhead : ∀ d, isSpace d = false →
      (v' ++ "and".toList ++ w' ++ (b ++ stop ++ w)).head? ≠ some d := by
    obtain ⟨c, v', rfl⟩ := List.exists_cons_of_ne_nil hv'.2
    rintro d hd hcd
    cases hcd
    rw [hv'.1 c List.mem_cons_self] at hd
    cases hd
  have hsub := sub_append ", ".toList (ha.still hv ⟨hhead 'n' rfl, hhead 'd' rfl⟩)
  rw [splitOn_and hb hv' hw' hw hstop] at hsub
  have htext : v ++ (a ++ v' ++ "and".toList ++ w' ++ b ++ stop ++ w) =
      v ++ a ++ (v' ++ "and".toList ++ w' ++ (b ++ stop ++ w)) := by
    simp only [List.append_assoc]
  have hcomma : ',' ∉ v ++ a := List.not_mem_append (notMem_of_blank rfl hv) ha.notMem_comma
  rw [splitDeps_eq, pieces, htext, hsub, List.splitOn_append_cons_self_of_not_mem hcomma,
    List.filterMap_cons_some (nameIn?_piece ha hv),
    splitOn_last hb (by simp [Blank, isSpace]) hw hstop]

end

/-- Splitting a list into names undoes writing it, with white space around it and a period
    at its end. -/
theorem splitDeps_of_rendering {names : List Str} {text stop : Str}
    (hnames : ∀ name ∈ names, IsListed letters name) (h : Rendering names text) (hv : Blank v)
    (hw : Blank w) (hstop : Stop names stop) :
    splitDeps letters (v ++ (text ++ stop ++ w)) = names := by
  have hstop' : stop = [] ∨ stop = ['.'] := hstop.imp id And.left
  cases h with
  | none =>
    obtain rfl : stop = [] := hstop.resolve_right fun h => h.2 rfl
    exact splitDeps_none letters hv hw
  | one a =>
    have ha := hnames text List.mem_cons_self
    rw [splitDeps_eq, pieces, sub_last ha.ne_nil ha.strip_eq ha.notMem_and hv hw hstop']
    exact splitOn_last ha hv hw hstop'
  | @two a b v' w' hv' hw' =>
    obtain ⟨ha, hb⟩ := List.forall_mem_cons.1 hnames
    exact splitDeps_two ha (hb b List.mem_cons_self) hv' hw' hv hw hstop'
  | @more heads z w' hlen hgaps hw' =>
    have hmap (h : Str × Str) (hh : h ∈ heads) : IsListed letters h.1 ∧ Gap h.2 :=
      ⟨hnames _ (List.mem_append_left _ (List.mem_map_of_mem hh)), hgaps h hh⟩
    have hne : heads ≠ [] := fun hnil => by
      rw [hnil] at hlen
      exact absurd hlen (by decide)
    have hz := hnames z (List.mem_append_right _ List.mem_cons_self)
    have hheads := splitDeps_heads hne hmap hz hv hw' hw hstop'
    simpa only [List.append_assoc] using hheads

theorem splitDeps_of_rendering_attr :
    splitDeps .ascii
        ("\n  ".toList ++ ("Bash,\n  Binutils, and Texinfo".toList ++ ['.'] ++ ['\n'])) =
      ["Bash".toList, "Binutils".toList, "Texinfo".toList] := by
  have hlisted : ∀ name ∈ ["Bash".toList, "Binutils".toList, "Texinfo".toList],
      IsListed .ascii name := by
    intro name hname
    have hand : ∀ name ∈ ["Bash".toList, "Binutils".toList, "Texinfo".toList], name ≠ [] ∧
        strip name = name ∧ ',' ∉ name ∧ name.getLast? ≠ some '.' ∧
          Letters.ascii.lower name ≠ "none".toList ∧ "and".toList ∉ words name := by decide +kernel
    obtain ⟨h₁, h₂, h₃, h₄, h₅, h₆⟩ := hand name hname
    exact ⟨⟨h₁, h₂, h₃, h₄, h₅⟩, h₆⟩
  have hgap : ∀ h ∈ [("Bash".toList, "\n  ".toList), ("Binutils".toList, [' '])], Gap h.2 := by
    simp [Gap, Blank, isSpace]
  exact splitDeps_of_rendering hlisted (.more (z := "Texinfo".toList) (w := [' '])
    (by decide) hgap (by simp [Gap, Blank, isSpace])) (by simp [Blank, isSpace])
    (by simp [Blank, isSpace]) (.inr ⟨rfl, by simp⟩)

end LfsBuilder
