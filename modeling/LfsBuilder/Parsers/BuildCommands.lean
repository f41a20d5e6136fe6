import LfsBuilder.Parsers.LfsParser

/-!
# Two readings of a chapter

When the two ways of `extract_build_commands` to read a chapter agree: its elements,
as BeautifulSoup finds them, and the matches of two patterns in its text. The
patterns are compared with the structure of the document, one kind of block at a
time (`BlockKind`): a document is `Aligned` where the pattern finds the blocks that have
a command, and it may find texts that are no blocks besides (`regions`).

* `buildCommand?_eq_none_iff`, `silent_of_eq_none`: which texts have no command;
* `BlockKind.Stands.exists_match`: where the pattern of a kind finds a block;
* `BlockKind.filterMap_blocks`: the commands of the blocks, match by match;
* `extractBuildCommands_agree_iff`: in an aligned document, the two readings agree
  just if every match has the command of the block that stands there.
-/

namespace LfsBuilder

open Text Backtracking Markup

/-! ## Commands -/

/-- The characters of a prompt. -/
def isPrompt (c : Char) : Bool := c = '#' || c = '$'

theorem subStart_prompt (c : Char) (s : Str) : subStart prompt [] (c :: s) =
    if isPrompt c then s.dropWhile isSpace else c :: s := by
  rw [subStart, prompt, matchAt_char, matchAt_many]
  by_cases hc : isPrompt c = true
  · rw [if_pos hc, if_pos (show (c = '#' || c = '$') = true from hc)]
    rfl
  · rw [if_neg hc, if_neg (show ¬(c = '#' || c = '$') = true from hc)]

/-- A text without a command: it is blank, or has nothing but a prompt, or `#` comes
    after its prompt. -/
inductive Silent : Str → Prop
  | blank {s : Str} : Blank s → Silent s
  | prompt {w v : Str} {c : Char} : Blank w → isPrompt c = true → Blank v → Silent (w ++ c :: v)
  | comment {w v z : Str} {c : Char} : Blank w → isPrompt c = true →
      (∀ d ∈ v, isSpace d = true ∧ isLineBreak d = false) → Silent (w ++ c :: (v ++ '#' :: z))

theorem isSpace_of_isPrompt {c : Char} (h : isPrompt c = true) : isSpace c = false := by
  simp only [isPrompt, Bool.or_eq_true, decide_eq_true_eq] at h
  rcases h with rfl | rfl <;> rfl

theorem isLineBreak_of_isSpace {c : Char} (h : isSpace c = false) : isLineBreak c = false := by
  by_contra hb
  rw [Bool.not_eq_false] at hb
  rw [isSpace_of_isLineBreak hb] at h
  cases h

theorem intercalate_cons (x : Str) (xs : List Str) :
    ['\n'].intercalate (x :: xs) = x ++ xs.flatMap fun y => '\n' :: y := by
  induction xs generalizing x with
  | nil => simp
  | cons y xs ih =>
    rw [List.intercalate_cons_cons, ih, List.flatMap_cons]
    simp

/-- The command of a text whose first line is known: the line without its prompt, and
    the other lines. -/
theorem cleanCommand_eq {s : Str} {c : Char} {l : Str} {ls : List Str} (hc : isSpace c = false)
    (hs : splitlines (strip s) = (c :: l) :: ls) : ∃ rest, cleanCommand s =
      subStart prompt [] (c :: l.rdropWhile isSpace) ++ rest ∧ (rest = [] ↔ ls = []) ∧
        rest.head? ≠ some '#' := by
  refine ⟨(ls.map fun line => subStart prompt [] (strip line)).flatMap fun y => '\n' :: y,
    ?_, ?_, ?_⟩
  · rw [cleanCommand, hs, List.map_cons, intercalate_cons, strip_cons hc]
  · cases ls <;> simp
  · cases ls <;> simp

theorem buildCommand?_eq_none_iff {s : Str} : buildCommand? s = none ↔
    cleanCommand s = [] ∨ (cleanCommand s).head? = some '#' := by
  rw [buildCommand?, isBuildCommand, startsWith]
  by_cases h : cleanCommand s = [] <;> simp [h]

theorem splitlines_strip {w s : Str} {c : Char} (hw : Blank w) (hc : isSpace c = false) :
    splitlines (strip (w ++ c :: s)) = linesFrom [c] (s.rdropWhile isSpace) := by
  rw [strip_blank_append hw, strip_cons hc, splitlines, linesFrom_cons (isLineBreak_of_isSpace hc),
    List.nil_append]

theorem Silent.eq_none {s : Str} (h : Silent s) : buildCommand? s = none := by
  rw [buildCommand?_eq_none_iff]
  cases h with
  | blank hs =>
    left
    rw [cleanCommand, strip_of_blank hs]
    rfl
  | @prompt w v c hw hc hv =>
    left
    have hline : splitlines (strip (w ++ c :: v)) = [[c]] := by
      rw [splitlines_strip hw (isSpace_of_isPrompt hc), List.rdropWhile_eq_nil_iff.2 hv]
      rfl
    obtain ⟨rest, hrest, hnil, _⟩ := cleanCommand_eq (isSpace_of_isPrompt hc) hline
    rw [hrest, hnil.2 rfl, subStart_prompt, if_pos hc]
    rfl
  | @comment w v z c hw hc hv =>
    right
    obtain ⟨l, b, ls, hls, -⟩ := linesFrom_cases
      (show c :: (v ++ ['#']) ≠ [] from List.cons_ne_nil _ _)
      (z.rdropWhile isSpace)
    have hline : splitlines (strip (w ++ c :: (v ++ '#' :: z))) = (c :: (v ++ '#' :: l)) :: ls := by
      have hbreak : ∀ d ∈ v ++ ['#'], isLineBreak d = false := by
        intro d hd
        rcases List.mem_append.1 hd with hd | hd
        · exact (hv d hd).2
        · rw [List.mem_singleton.1 hd]
          rfl
      rw [splitlines_strip hw (isSpace_of_isPrompt hc), rdropWhile_append_cons (by decide),
        List.append_cons, linesFrom_append hbreak, List.singleton_append, hls]
      simp
    obtain ⟨rest, hrest, _⟩ := cleanCommand_eq (isSpace_of_isPrompt hc) hline
    rw [hrest, subStart_prompt, if_pos hc, rdropWhile_append_cons (by decide),
      List.dropWhile_append_of_pos fun d hd => (hv d hd).1]
    rfl

theorem silent_of_eq_none {s : Str} (h : buildCommand? s = none) : Silent s := by
  rw [buildCommand?_eq_none_iff] at h
  rcases strip_cases s with hs | ⟨w, c, r, hw, hc, rfl⟩
  · exact .blank hs
  obtain ⟨l, b, ls, hls, hl, hlb, hb⟩ := linesFrom_cases (List.cons_ne_nil c [])
    (r.rdropWhile isSpace)
  have hline : splitlines (strip (w ++ c :: r)) = (c :: l) :: ls :=
    (splitlines_strip hw hc).trans hls
  obtain ⟨rest, hrest, hnil, hhead⟩ := cleanCommand_eq hc hline
  obtain ⟨w', hw', hr⟩ := exists_rdropWhile r
  rw [hrest, subStart_prompt] at h
  split_ifs at h with hprompt
  · obtain ⟨w₁, hw₁, hl₁⟩ := exists_rdropWhile l
    have hd := List.takeWhile_append_dropWhile (p := isSpace) (l := l.rdropWhile isSpace)
    rcases hdrop : (l.rdropWhile isSpace).dropWhile isSpace with _ | ⟨d, z⟩
    · -- The first line is nothing but a prompt, so there are no other lines.
      rw [hdrop, List.nil_append] at h
      have hls : ls = [] := hnil.1 (h.resolve_right hhead)
      have hline : Blank (l.rdropWhile isSpace) := List.dropWhile_eq_nil_iff.1 hdrop
      refine .prompt hw hprompt ?_
      rw [hr, hlb, hl₁]
      exact ((hline.append hw₁).append (hb hls)).append hw'
    · rw [hdrop] at h
      obtain rfl : d = '#' := by simpa using h
      rw [hdrop] at hd
      have hline : r = (l.rdropWhile isSpace).takeWhile isSpace ++ '#' :: (z ++ w₁ ++ b ++ w') := by
        calc r = r.rdropWhile isSpace ++ w' := hr
          _ = l.rdropWhile isSpace ++ w₁ ++ b ++ w' := by rw [hlb, ← hl₁]
          _ = (l.rdropWhile isSpace).takeWhile isSpace ++ '#' :: z ++ w₁ ++ b ++ w' := by rw [hd]
          _ = _ := by simp only [List.append_assoc, List.cons_append]
      rw [hline]
      refine .comment hw hprompt fun d hd' => ⟨List.mem_takeWhile_imp hd', hl d ?_⟩
      rw [hl₁]
      exact List.mem_append_left _ ((List.takeWhile_sublist _).subset hd')
  · -- The command begins with a character that is no prompt.
    have hhash : c = '#' := by simpa using h
    exact absurd (by rw [hhash]; rfl) hprompt

/-! ## Blocks -/

/-- A kind of build block: the pattern for its start tags, its end tag up to the angle
    bracket, and the elements that are meant. -/
structure BlockKind where
  tag : Regex
  close : Str
  isBlock : Soup → Element → Bool
  tag_avoids : Avoids '>' tag
  close_avoids : ∀ a ∈ close, ignoreCase a '>' = false

/-- A block of a document: where it stands, what is written there, and its text as it is
    read. -/
structure Block where
  place : Str
  element : Element
  text : Str

namespace BlockKind

variable (k : BlockKind)

/-- The pattern for the end tag. -/
def closer : Regex := lit ignoreCase (k.close ++ ['>'])

/-- The pattern for the block. -/
def pattern : Regex := block k.tag (k.close ++ ['>'])

/-- Whether the pattern takes a mark for the start tag of a block. -/
def opens (m : Mark) : Bool := fullmatch k.tag (m.text.takeWhile (· ≠ '>'))

/-- The first end tag of its kind that follows the start tag of an element is its own. -/
def ClosedBy (e : Element) : Prop :=
  ∃ m, scan k.closer (render e.inner ++ (Mark.stop e).text) = some (render e.inner, m) ∧ m.rest = []

/-- The blocks of a document, which is read as `read`. -/
def blocks (soup : Soup) (read doc : Content) : List Block :=
  ((placed doc).zip (elements read)).filterMap fun x =>
    if k.isBlock soup x.2 then some ⟨x.1.1, x.1.2, soup.text x.2⟩ else none

/-- The pattern finds a block where it is: it opens at the start tag, ends at the end
    tag, and no match runs from before the block into it. -/
structure Stands (doc : Content) (b : Block) : Prop where
  opens : k.opens (.start b.element)
  tag : '>' ∉ b.element.tag.text
  closed : k.ClosedBy b.element
  apart : ∀ m ∈ findall k.pattern (render doc),
    m.rest.length < b.place.length → m.place.length ≤ b.place.length

/-- The pattern finds every block that has a command. -/
def Aligned (soup : Soup) (read doc : Content) : Prop :=
  ∀ b ∈ k.blocks soup read doc, buildCommand? b.text ≠ none → k.Stands doc b

/-- The text that the fallback reads for each match, and that of the block there, if there
    is one. -/
def regions (soup : Soup) (read doc : Content) : List (Str × Option Str) :=
  (findall k.pattern (render doc)).map fun m =>
    (m.groups.headD [], ((k.blocks soup read doc).find? fun b => b.place = m.place).map Block.text)

/-! ### What the pattern finds -/

variable {k : BlockKind} {soup : Soup} {read doc : Content} {b : Block} {t u : Str}

theorem matchAt_pattern (hu : '>' ∉ u) : matchAt k.pattern (u ++ '>' :: t) =
    if fullmatch k.tag u then (scan k.closer t).map fun um =>
      ⟨u ++ '>' :: (um.1 ++ um.2.text), um.1 :: um.2.groups, um.2.rest⟩
    else none := by
  rw [pattern, block, matchAt_upto k.tag_avoids (fun _ => ignoreCase_symbol_iff rfl) hu,
    matchAt_group_gap, closer, Option.map_map, Option.map_map]
  rfl

theorem takeWhile_stop (hu : '>' ∉ u) : (u ++ '>' :: t).takeWhile (· ≠ '>') = u := by
  rw [List.takeWhile_append_of_pos, List.takeWhile_cons_of_neg, List.append_nil]
  · simp
  · exact fun c hc => decide_eq_true fun h => hu (h ▸ hc)

/-- At the start tag of a block, the pattern takes the block. -/
theorem matchAt_pattern_block {e : Element} (ho : k.opens (.start e)) (htag : '>' ∉ e.tag.text)
    (hc : k.ClosedBy e) : ∃ m, matchAt k.pattern ((Mark.start e).text ++ (render e.inner ++
      ((Mark.stop e).text ++ t))) = some m ∧ m.groups.headD [] = render e.inner := by
  obtain ⟨m, hm, -⟩ := hc
  have hu : '>' ∉ '<' :: e.tag.text := by simpa using htag
  have hstart (s : Str) : (Mark.start e).text ++ s = '<' :: e.tag.text ++ '>' :: s :=
    List.append_assoc ..
  rw [opens, show (Mark.start e).text = '<' :: e.tag.text ++ '>' :: [] from rfl,
    takeWhile_stop hu] at ho
  have hscan := scan_lit_append (t := t) k.close_avoids (fun c hc => ignoreCase_symbol rfl hc) hm
  rw [List.append_assoc] at hscan
  rw [hstart, matchAt_pattern hu, if_pos ho, closer, hscan, Option.map_some]
  exact ⟨_, rfl, rfl⟩

/-! ### What is read -/

/-- A block is an element of the document, and its text is that of what it is read as. -/
theorem exists_of_mem_blocks (h : ReadAs soup.decode doc read) (hb : b ∈ k.blocks soup read doc) :
    (b.place, b.element) ∈ placed doc ∧
      ∃ c, ReadAs soup.decode b.element.inner c ∧ b.text = getText soup.decode c := by
  obtain ⟨⟨⟨p, e⟩, e'⟩, hmem, hx⟩ := List.mem_filterMap.1 hb
  have helements := h.elements
  rw [elements, ← map_placedIn, List.forall₂_map_left_iff] at helements
  split at hx
  · obtain rfl := Option.some.inj hx
    exact ⟨(List.of_mem_zip hmem).1, e'.inner, (List.forall₂_zip helements hmem).2, rfl⟩
  · cases hx

theorem length_placed (h : ReadAs soup.decode doc read) :
    (placed doc).length = (elements read).length := by
  rw [← h.elements.length_eq, elements, ← map_placedIn, List.length_map]
  rfl

/-- BeautifulSoup finds the blocks of a document. -/
theorem filter_elements (h : ReadAs soup.decode doc read) :
    ((elements read).filter (k.isBlock soup)).filterMap (fun e => buildCommand? (soup.text e)) =
      (k.blocks soup read doc).filterMap fun b => buildCommand? b.text := by
  rw [blocks, List.filterMap_filterMap, List.filterMap_filter]
  nth_rewrite 1 [← List.map_snd_zip (length_placed h).ge]
  rw [List.filterMap_map]
  refine List.filterMap_congr fun x _ => ?_
  rw [Function.comp_apply]
  split <;> rfl

/-- A block with a command is found with its content, where it stands. -/
theorem Stands.exists_match (h : ReadAs soup.decode doc read) (hb : b ∈ k.blocks soup read doc)
    (hne : buildCommand? b.text ≠ none) (hs : k.Stands doc b) :
    ∃ m ∈ findall k.pattern (render doc),
      m.place = b.place ∧ m.groups.headD [] = render b.element.inner := by
  obtain ⟨hplaced, c, hc, htext⟩ := exists_of_mem_blocks h hb
  rcases place_of_placed hplaced with hnil | ⟨rest, hrest⟩
  · -- An element without content has no text.
    rw [hnil] at hc
    cases hc
    rw [htext] at hne
    exact absurd rfl hne
  · obtain ⟨m, hm, hgroup⟩ := matchAt_pattern_block (t := rest) hs.opens hs.tag hs.closed
    rw [← hrest] at hm
    have hplace : b.place ≠ [] := by simp [hrest, Mark.text]
    exact ⟨m, mem_findallFrom_of_matchAt hm hplace (placed_suffix hplaced) hs.apart,
      text_matchAt hm, hgroup⟩

end BlockKind

/-! ## The two kinds of blocks -/

/-- The elements `pre` of the class `userinput`. -/
def preKind : BlockKind where
  tag := preTag
  close := "</pre".toList
  isBlock soup e := soup.named "pre".toList e && soup.hasClass "userinput".toList e
  tag_avoids := ⟨avoids_lit (by decide), rfl, avoids_lit (by decide), rfl, avoids_lit (by decide),
    rfl, rfl⟩
  close_avoids := by decide

/-- The elements `userinput`. -/
def userinputKind : BlockKind where
  tag := userinputTag
  close := "</userinput".toList
  isBlock soup e := soup.named "userinput".toList e
  tag_avoids := ⟨avoids_lit (by decide), rfl⟩
  close_avoids := by decide

/-! ## The two readings of a chapter -/

variable {soup : Soup} {read doc : Content}

theorem Silent.getText {decode : Str → Str} (hd : DecodesReferences decode) {c c' : Content}
    (hwf : c.WellFormed) (hj : c.Joined) (hread : ReadAs decode c c') {s : Str} (h : Silent s)
    (hs : render c = s) : Silent (getText decode c') := by
  -- Blanks, prompts and `#` are read as they are, unless they are all blank.
  have hplain {w v z : Str} {d : Char} (hd' : isPrompt d = true) (hw : Blank w)
      (hv : ∀ x ∈ v, isSpace x = true ∨ x = '#') (hsplit : render c = w ++ d :: v ++ z) :
      ∃ z', Markup.getText decode c' = w ++ d :: v ++ z' ∧ (z = [] → z' = []) := by
    have hnot {x : Char} (hx : isSpace x = false) (hp : isPrompt x = false) :
        x ∉ w ++ d :: v := by
      rw [List.mem_append, List.mem_cons, not_or, not_or]
      refine ⟨fun h => ?_, fun h => ?_, fun h => ?_⟩
      · rw [hw x h] at hx
        cases hx
      · rw [h, hd'] at hp
        cases hp
      · rcases hv x h with h | rfl
        · rw [h] at hx
          cases hx
        · cases hp
    refine hread.getText_eq hd hwf hj hsplit (hnot rfl rfl) (hnot rfl rfl) fun hb => ?_
    have hspace := hb d (List.mem_append_right _ List.mem_cons_self)
    rw [isSpace_of_isPrompt hd'] at hspace
    cases hspace
  cases h with
  | blank hw => exact .blank (hread.blank_getText hd hwf (hs ▸ hw))
  | prompt hw hc hv =>
    obtain ⟨z', hz', hz⟩ := hplain hc hw (fun x hx => .inl (hv x hx))
      (hs.trans (List.append_nil _).symm)
    rw [hz', hz rfl, List.append_nil]
    exact .prompt hw hc hv
  | @comment w v z d hw hc hv =>
    obtain ⟨z', hz', -⟩ := hplain (v := v ++ ['#']) (z := z) hc hw
      (by simpa [or_imp, forall_and] using fun x hx => .inl (hv x hx).1) (by rw [hs]; simp)
    rw [hz', List.append_assoc, List.cons_append, List.append_assoc]
    exact .comment hw hc hv

section

variable {α β γ : Type*} {f g : α → Option β} {l : List α} {A : List α} {B : List β}
  {a : α → Str} {b : β → Str}

theorem length_filterMap_le (h : ∀ x ∈ l, f x = none → g x = none) :
    (l.filterMap g).length ≤ (l.filterMap f).length := by
  induction l with
  | nil => exact le_rfl
  | cons x l ih =>
    obtain ⟨hx, hl⟩ := List.forall_mem_cons.1 h
    have := ih hl
    rw [List.filterMap_cons, List.filterMap_cons]
    cases hf : f x with
    | none => simpa [hx hf] using this
    | some a => cases g x <;> simp <;> omega

/-- Two readings of a list agree just if they agree everywhere, where the second
    reads nothing that the first does not. -/
theorem filterMap_eq_iff (h : ∀ x ∈ l, f x = none → g x = none) :
    l.filterMap f = l.filterMap g ↔ ∀ x ∈ l, f x = g x := by
  refine ⟨fun heq => ?_, List.filterMap_congr⟩
  induction l with
  | nil => exact fun x hx => absurd hx List.not_mem_nil
  | cons x l ih =>
    obtain ⟨hx, hl⟩ := List.forall_mem_cons.1 h
    rw [List.filterMap_cons, List.filterMap_cons] at heq
    cases hf : f x with
    | none =>
      rw [hf, hx hf] at heq
      exact List.forall_mem_cons.2 ⟨hf.trans (hx hf).symm, ih hl heq⟩
    | some a =>
      rw [hf] at heq
      cases hg : g x with
      | none =>
        -- The second reading would have no more than the rest.
        rw [hg] at heq
        have heq : a :: l.filterMap f = l.filterMap g := heq
        have hlen := length_filterMap_le hl
        rw [← heq, List.length_cons] at hlen
        omega
      | some b =>
        rw [hg] at heq
        have heq : a :: l.filterMap f = b :: l.filterMap g := heq
        obtain ⟨rfl, htail⟩ := List.cons.inj heq
        exact List.forall_mem_cons.2 ⟨hf.trans hg.symm, ih hl htail⟩

/-- The order of values by their keys, the longest key first. -/
def Behind (p q : Str × γ) : Prop := q.1.length < p.1.length

instance : Std.Irrefl (Behind (γ := γ)) := ⟨fun p => lt_irrefl p.1.length⟩

instance : Std.Antisymm (Behind (γ := γ)) := ⟨fun _ _ h h' => absurd h' (lt_asymm h)⟩

/-- In a list in order, each entry is found by its key. -/
theorem find?_of_pairwise (hB : B.Pairwise fun y y' => (b y').length < (b y).length) {y : β}
    (hy : y ∈ B) : B.find? (fun y' => b y' = b y) = some y := by
  induction hB with
  | nil => cases hy
  | @cons z B hz hB ih =>
    rcases List.mem_cons.1 hy with rfl | hy
    · simp
    · have hne : b z ≠ b y := fun h => by
        have hlt := hz y hy
        rw [h] at hlt
        exact lt_irrefl _ hlt
      rw [List.find?_cons_of_neg (by simpa using hne), ih hy]

/-- A list read through another one, where both are in the order of their keys. -/
theorem filterMap_find? {g : β → Option γ}
    (hA : A.Pairwise fun x x' => (a x').length < (a x).length)
    (hB : B.Pairwise fun y y' => (b y').length < (b y).length)
    (h : ∀ y ∈ B, g y ≠ none → ∃ x ∈ A, a x = b y) :
    B.filterMap g = A.filterMap fun x => (B.find? fun y => b y = a x).bind g := by
  -- Both are the same set of values, with their keys.
  suffices hkeys : B.filterMap (fun y => (g y).map (b y, ·)) =
      A.filterMap fun x => ((B.find? fun y => b y = a x).bind g).map (a x, ·) by
    have hvalues := congrArg (List.map Prod.snd) hkeys
    simpa [List.map_filterMap, Option.map_map, Function.comp_def] using hvalues
  refine List.Pairwise.eq_of_mem_iff (r := Behind) ?_ ?_ fun p => ?_
  · refine hB.filterMap _ fun y y' hlt p hp p' hp' => ?_
    obtain ⟨v, -, rfl⟩ := Option.map_eq_some_iff.1 hp
    obtain ⟨v', -, rfl⟩ := Option.map_eq_some_iff.1 hp'
    exact hlt
  · refine hA.filterMap _ fun x x' hlt p hp p' hp' => ?_
    obtain ⟨v, -, rfl⟩ := Option.map_eq_some_iff.1 hp
    obtain ⟨v', -, rfl⟩ := Option.map_eq_some_iff.1 hp'
    exact hlt
  · rw [List.mem_filterMap, List.mem_filterMap]
    constructor
    · rintro ⟨y, hy, hp⟩
      obtain ⟨v, hv, rfl⟩ := Option.map_eq_some_iff.1 hp
      obtain ⟨x, hx, hxy⟩ := h y hy (by simp [hv])
      refine ⟨x, hx, ?_⟩
      rw [hxy, find?_of_pairwise hB hy, Option.bind_some, hv]
      rfl
    · rintro ⟨x, hx, hp⟩
      obtain ⟨v, hv, rfl⟩ := Option.map_eq_some_iff.1 hp
      obtain ⟨y, hy, hv⟩ := Option.bind_eq_some_iff.1 hv
      have hkey : b y = a x := by simpa using List.find?_some hy
      exact ⟨y, List.mem_of_find?_eq_some hy, by rw [hv, hkey]; rfl⟩

end

namespace BlockKind

variable {k : BlockKind}

/-- Each block starts behind the one before. -/
theorem pairwise_blocks (h : ReadAs soup.decode doc read) :
    (k.blocks soup read doc).Pairwise fun b b' => b'.place.length < b.place.length := by
  have hzip : ((placed doc).zip (elements read)).Pairwise
      fun x x' => x'.1.1.length < x.1.1.length := by
    have hplaced : (placed doc).Pairwise fun x x' => x'.1.length < x.1.length :=
      pairwise_placedIn (marks doc)
    rwa [← List.map_fst_zip (length_placed h).le, List.pairwise_map] at hplaced
  refine hzip.filterMap _ fun x x' hlt b hb b' hb' => ?_
  split at hb
  · obtain rfl := Option.some.inj hb
    split at hb'
    · obtain rfl := Option.some.inj hb'
      exact hlt
    · cases hb'
  · cases hb

/-- In an aligned document, the commands of the blocks are those of the blocks at the
    matches. -/
theorem filterMap_blocks (h : ReadAs soup.decode doc read) (ha : k.Aligned soup read doc) :
    (k.blocks soup read doc).filterMap (fun b => buildCommand? b.text) =
      (k.regions soup read doc).filterMap fun r => r.2.bind buildCommand? := by
  rw [filterMap_find? (a := Match.place) (b := Block.place)
    (pairwise_findallFrom (r := k.pattern) 0 (render doc)) (pairwise_blocks h)]
  · rw [regions, List.filterMap_map]
    refine List.filterMap_congr fun m _ => ?_
    rw [Function.comp_apply, Option.bind_map]
    rfl
  · intro b hb hne
    obtain ⟨m, hm, hplace, -⟩ := (ha b hb hne).exists_match h hb hne
    exact ⟨m, hm, hplace⟩

/-- Where the fallback reads no command, BeautifulSoup reads none. -/
theorem eq_none_of_regions (hd : DecodesReferences soup.decode) (hwf : doc.WellFormed)
    (hj : doc.Joined) (h : ReadAs soup.decode doc read) (ha : k.Aligned soup read doc) :
    ∀ r ∈ k.regions soup read doc, buildCommand? r.1 = none → r.2.bind buildCommand? = none := by
  intro r hr hnone
  obtain ⟨m, hm, rfl⟩ := List.mem_map.1 hr
  cases hfind : (k.blocks soup read doc).find? fun b => b.place = m.place with
  | none => rfl
  | some b =>
    have hb := List.mem_of_find?_eq_some hfind
    have hplace : b.place = m.place := by simpa using List.find?_some hfind
    rw [Option.map_some, Option.bind_some]
    by_contra hne
    -- The match at the block is the one that the pattern has there.
    obtain ⟨m', hm', hplace', hgroup⟩ := (ha b hb hne).exists_match h hb hne
    have hmm : m = m' := Option.some.inj <| by
      rw [← (mem_findallFrom hm).2, ← hplace, ← hplace', (mem_findallFrom hm').2]
    rw [hmm, hgroup] at hnone
    obtain ⟨hplaced, c, hc, htext⟩ := exists_of_mem_blocks h hb
    have hinner := marks_inner_infix hplaced
    rw [htext] at hne
    exact hne ((silent_of_eq_none hnone).getText hd (fun m hm => hwf m (hinner.subset hm))
      (hj.of_infix hinner) hc rfl).eq_none

end BlockKind

/-- The fallback of `extract_build_commands` and BeautifulSoup find the same commands in a
    document where the patterns find the blocks that have a command, just if each match
    of the patterns has the same command as it is written and as the block that
    stands there is read, and none that is no block has one. -/
theorem extractBuildCommands_agree_iff
    (hparse : ReadAs soup.decode doc (soup.parse (render doc)))
    (hdecode : DecodesReferences soup.decode) (hwf : doc.WellFormed) (hjoined : doc.Joined)
    (hpre : preKind.Aligned soup (soup.parse (render doc)) doc)
    (huserinput : userinputKind.Aligned soup (soup.parse (render doc)) doc) :
    extractBuildCommands none (render doc) = extractBuildCommands (some soup) (render doc) ↔
      ∀ r ∈ preKind.regions soup (soup.parse (render doc)) doc ++
          userinputKind.regions soup (soup.parse (render doc)) doc,
        buildCommand? r.1 = r.2.bind buildCommand? := by
  have hwritten (k : BlockKind) :
      (findall k.pattern (render doc)).filterMap (fun m => buildCommand? (m.groups.headD [])) =
        (k.regions soup (soup.parse (render doc)) doc).filterMap fun r => buildCommand? r.1 := by
    rw [BlockKind.regions, List.filterMap_map]
    rfl
  rw [← filterMap_eq_iff (List.forall_mem_append.2
    ⟨BlockKind.eq_none_of_regions hdecode hwf hjoined hparse hpre,
      BlockKind.eq_none_of_regions hdecode hwf hjoined hparse huserinput⟩),
    List.filterMap_append, List.filterMap_append, ← hwritten, ← hwritten,
    ← BlockKind.filterMap_blocks hparse hpre, ← BlockKind.filterMap_blocks hparse huserinput,
    ← BlockKind.filter_elements hparse, ← BlockKind.filter_elements hparse]
  simp only [extractBuildCommands, List.filterMap_append]
  rfl

/-- A parser that reads every text as the document `doc`, as BeautifulSoup reads the text
    of `doc`. -/
def soupOf (doc : Content) : Soup where
  parse _ := doc
  decode := decodeXml
  fold := List.map Char.toLower

/-- `<screen><userinput>make</userinput></screen><!-- wrap it in <userinput> -->` -/
def makeChapter : Content :=
  .element { name := "screen".toList }
    (.element { name := "userinput".toList } (.data "make".toList .nil) [] .nil) []
    (.comment "<!-- wrap it in <userinput> -->".toList .nil)

theorem extractBuildCommands_agree_make :
    extractBuildCommands none (render makeChapter) =
      extractBuildCommands (some (soupOf makeChapter)) (render makeChapter) := by
  refine (@extractBuildCommands_agree_iff (soupOf makeChapter) _ (.refl _)
    decodesReferences_decodeXml ?_ (by decide) (fun b hb => by cases hb) ?_).2 (by decide +kernel)
  · simp only [Content.WellFormed, marks, List.cons_append, List.nil_append,
      List.forall_mem_cons, Mark.WellFormed]
    exact ⟨by decide, by decide, by decide, by decide, by decide,
      ⟨"!-- wrap it in <userinput> --".toList, rfl⟩,
      fun m hm => absurd hm List.not_mem_nil⟩
  · intro b hb _
    obtain rfl := List.mem_singleton.1 (show b ∈ [Block.mk
      ("<userinput>make</userinput></screen>".toList ++ "<!-- wrap it in <userinput> -->".toList)
      ⟨{ name := "userinput".toList }, .data "make".toList .nil, []⟩ "make".toList] from hb)
    have hclosed : userinputKind.ClosedBy
        ⟨{ name := "userinput".toList }, .data "make".toList .nil, []⟩ :=
      ⟨⟨"</userinput>".toList, [], []⟩, by decide +kernel, rfl⟩
    exact ⟨by decide +kernel, by decide, hclosed, by decide +kernel⟩

/-- A chapter with the command `make && make install`. -/
def installChapter : Content :=
  .element
    { name := "pre".toList, attrs := [⟨[' '], "class".toList, ['='], '"', "userinput".toList⟩] }
    (.data "make &amp;&amp; make install".toList .nil) [] .nil

theorem extractBuildCommands_disagree :
    extractBuildCommands (some (soupOf installChapter)) (render installChapter) =
      ["make && make install".toList] ∧
    extractBuildCommands none (render installChapter) =
      ["make &amp;&amp; make install".toList] := by
  decide +kernel

end LfsBuilder
