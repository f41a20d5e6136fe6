import LfsBuilder.Parsers.LfsParser

/-!
# The pattern for a section

What the pattern of `resolve_dependencies` is for a name without special characters: it
compiles, and finds what a regular expression with the name in it finds
(`searchSection_of_plain`).
-/

namespace LfsBuilder

open Text Backtracking Markup

/-- The characters that are more than themselves in a pattern. -/
def special : Str := ".^$*+?\x7b[\\|()".toList

/-- The pattern `\s*name\s*`. -/
def padded (py : Python) (name : Str) : Regex :=
  .seq (.many isSpace) <| .seq (lit py.letters.same name) (.many isSpace)

/-- The start tags with the identifier of the first list of a package, up to their
    angle bracket. -/
def dependsTag (py : Python) (name : Str) : Regex :=
  .seq (lit py.letters.same "<segmentedlist".toList) <| .seq (.many inTag) <|
    .seq (lit py.letters.same "id=".toList) <| .seq (.char quotation) <|
    .seq (lit py.letters.same (py.letters.lower name)) <|
    .seq (lit py.letters.same "-depends".toList) <| .seq (.char quotation) (.many inTag)

/-- What the pattern is for a name without special characters. -/
def sectionRegex (py : Python) (name : Str) : Regex :=
  .seq (.seq (lit py.letters.same "<bridgehead".toList) (.many inTag)) <|
    .seq (lit py.letters.same ['>']) <| .seq (padded py name) <|
    .seq (lit py.letters.same "</bridgehead>".toList) <| .seq (.lazy dot) <|
    .seq (dependsTag py name) <| .seq (lit py.letters.same ['>']) <| .seq (.lazy dot) <|
    .seq (lit py.letters.same "<seg>".toList) <| .seq (.group (.lazy dot)) <|
    lit py.letters.same "</seg>".toList

/-! ## The parts of the pattern -/

/-- The characters of a text, as items of a pattern. -/
def lits (w : Str) : List Sre.Pattern := w.map fun c => .literal sectionFlags c.toNat

/-- `[^>]*` -/
def tagRep : Sre.Pattern := .rep .max 0 none (.chars sectionFlags true [.literal '>'.toNat])

/-- `\s*` -/
def spaceRep : Sre.Pattern :=
  .rep .max 0 none (.chars sectionFlags false [.category .space false])

/-- `.*?` -/
def gap : Sre.Pattern := .rep .min 0 none (.any sectionFlags)

/-- `[\"']` -/
def quoteSet : Sre.Pattern :=
  .chars sectionFlags false [.literal '"'.toNat, .literal '\''.toNat]

/-- What follows the list in the pattern, where its group has the number `k`. -/
def segItems (k : ℕ) : List Sre.Pattern :=
  [gap] ++ (lits "<seg>".toList ++ ([.group (some k) (Sre.seqOf [gap])] ++ lits "</seg>".toList))

/-- The start tag of the list, up to its angle bracket. -/
def dependsItems (py : Python) (name : Str) : List Sre.Pattern :=
  lits "<segmentedlist".toList ++ ([tagRep] ++ (lits "id=".toList ++ ([quoteSet] ++
    (lits (py.letters.lower name) ++ (lits "-depends".toList ++ ([quoteSet] ++ [tagRep]))))))

/-- The pattern for a name without special characters. -/
def sectionItems (py : Python) (name : Str) : List Sre.Pattern :=
  (lits "<bridgehead".toList ++ [tagRep]) ++ (lits ['>'] ++
    (([spaceRep] ++ (lits name ++ [spaceRep])) ++ (lits "</bridgehead>".toList ++ ([gap] ++
      (dependsItems py name ++ (lits ['>'] ++ segItems 1))))))

/-! ## Reading the pattern -/

section

variable {py : Python} {name s w : Str} {ts : List Sre.Token} {l : List Sre.Pattern}

/-- The state of the parser at the level of the pattern. -/
def topState (l : List Sre.Pattern) : Sre.State :=
  { frame := { opening := .whole, flags := sectionFlags, items := l } }

theorem tokens_plain (hw : '\\' ∉ w) : Sre.tokens w = some (w.map .plain) := by
  induction w with
  | nil => rfl
  | cons c w ih =>
    rw [List.mem_cons, not_or] at hw
    rw [Sre.tokens, ih hw.2]
    · rfl
    · exact fun hc => absurd hc.symm hw.1
    · exact fun _ _ hc => absurd hc.symm hw.1

theorem special_subset_escaped : special ⊆ escaped := by decide

/-- The token for a character of a name that has been escaped. -/
def escapedToken (c : Char) : Sre.Token := if c ∈ escaped then .escaped c else .plain c

theorem tokens_escape (w : Str) : Sre.tokens (escape w) = some (w.map escapedToken) := by
  induction w with
  | nil => rfl
  | cons c w ih =>
    rw [escape, List.flatMap_cons, List.map_cons, escapedToken]
    split
    · have hescaped : Sre.tokens ['\\', c] = some [.escaped c] := rfl
      rw [Sre.tokens_append hescaped, ← escape, ih]
      rfl
    · next hc =>
      have hplain : '\\' ∉ [c] := fun h => hc (List.mem_singleton.1 h ▸ by decide)
      rw [Sre.tokens_append (tokens_plain hplain), ← escape, ih]
      rfl

theorem step_plain {c : Char} (hc : c ∉ special) :
    Sre.step py.decimal (topState l) (.plain c) ts =
      some (topState (.literal sectionFlags c.toNat :: l), 0) := by
  have hverbose : (topState l).frame.flags.verbose = false := rfl
  simp only [Sre.step, hverbose, Bool.false_and, Bool.false_eq_true, if_false]
  split
  all_goals first | rfl | exact absurd (by decide) hc

theorem step_escaped {c : Char} (hc : c ∈ escaped) :
    Sre.step py.decimal (topState l) (.escaped c) ts =
      some (topState (.literal sectionFlags c.toNat :: l), 0) := by
  obtain ⟨hanchor, hset, hdigits, hchar, hzero, hoct, hdigit, halpha⟩ :
      Sre.anchors c = none ∧ Sre.categories c = none ∧ Sre.hexDigits c = none ∧
        (Sre.escapes c = none ∨ Sre.escapes c = some c.toNat) ∧ c ≠ '0' ∧ Sre.isOct c = false ∧
        c.isDigit = false ∧ c.isAlpha = false := by
    revert c
    decide
  rw [Sre.step, Sre.escape, hanchor, hset, hdigits]
  rcases hchar with hchar | hchar
  · rw [hchar]
    simp [hzero, hoct, hdigit, halpha, topState, Sre.State.push]
  · rw [hchar]
    rfl

/-- Literals are read one by one. -/
theorem run_literals {token : Char → Sre.Token} (htoken : ∀ c ∈ w, ∀ l ts,
      Sre.step py.decimal (topState l) (token c) ts =
        some (topState (.literal sectionFlags c.toNat :: l), 0)) (l : List Sre.Pattern) :
    Sre.run py.decimal 0 (w.map token ++ ts) (topState l) =
      Sre.run py.decimal 0 ts (topState ((lits w).reverse ++ l)) := by
  induction w generalizing l with
  | nil => rfl
  | cons c w ih =>
    obtain ⟨hc, hw⟩ := List.forall_mem_cons.1 htoken
    rw [List.map_cons, List.cons_append, Sre.run, hc, Option.bind_some, ih hw, lits, lits,
      List.map_cons, List.reverse_cons, List.append_assoc]
    rfl

theorem run_plain (hw : ∀ c ∈ w, c ∉ special) (l : List Sre.Pattern) :
    Sre.run py.decimal 0 (w.map .plain ++ ts) (topState l) =
      Sre.run py.decimal 0 ts (topState ((lits w).reverse ++ l)) :=
  run_literals (fun c hc _ _ => step_plain (hw c hc)) l

theorem run_escape (l : List Sre.Pattern) :
    Sre.run py.decimal 0 (w.map escapedToken ++ ts) (topState l) =
      Sre.run py.decimal 0 ts (topState ((lits w).reverse ++ l)) := by
  refine run_literals (fun c _ l ts => ?_) l
  rw [escapedToken]
  split
  · next hc => exact step_escaped hc
  · next hc => exact step_plain fun h => hc (special_subset_escaped h)

theorem kindOf_escaped (hts : Sre.kindOf ts = (.max, 0)) :
    Sre.kindOf (w.map escapedToken ++ ts) = (.max, 0) := by
  cases w with
  | nil => exact hts
  | cons c w =>
    rw [List.map_cons, List.cons_append, escapedToken, Sre.kindOf.eq_def]
    split_ifs with hc
    · rfl
    · split
      · next h => exact absurd (by cases h; decide) hc
      · next h => exact absurd (by cases h; decide) hc
      · rfl

theorem step_star {f : Sre.Flags} {negated : Bool} {items : List Sre.Item}
    (hts : Sre.kindOf ts = (.max, 0)) :
    Sre.step py.decimal (topState (.chars f negated items :: l)) (.plain '*') ts =
      some (topState (.rep .max 0 none (.chars f negated items) :: l), 0) := by
  change some (topState (.rep (Sre.kindOf ts).1 0 none _ :: l), 0 + (Sre.kindOf ts).2) = _
  rw [hts]
  rfl

/-- The pattern up to the name, from there to the next place of the name, and behind that. -/
def patternBefore : Str := "<bridgehead[^>]*>\\s*".toList

def patternBetween : Str :=
  "\\s*</bridgehead>.*?".toList ++ "<segmentedlist[^>]*id=[\\\"']".toList

def patternBehind : Str := "-depends[\\\"'][^>]*>".toList ++ ".*?<seg>(.*?)</seg>".toList

theorem sectionPattern_eq (py : Python) (name : Str) : sectionPattern py name = patternBefore ++
    (escape name ++ (patternBetween ++ (py.letters.lower name ++ patternBehind))) := by
  have happend (a b c d e f g : Str) : a ++ b ++ c ++ d ++ e ++ f ++ g =
      a ++ (b ++ (c ++ d ++ (e ++ (f ++ g)))) := by simp
  exact happend ..

theorem run_before (hts : Sre.kindOf ts = (.max, 0)) :
    Sre.run py.decimal 0 ((Sre.tokens patternBefore).getD [] ++ ts) (topState []) =
      Sre.run py.decimal 0 ts (topState
        (lits "<bridgehead".toList ++ (tagRep :: (lits ['>'] ++ [spaceRep]))).reverse) := by
  have hstart (ts : List Sre.Token) :
      Sre.run py.decimal 0 ((Sre.tokens "<bridgehead[^>]*>\\s".toList).getD [] ++ ts) (topState []) =
        Sre.run py.decimal 0 ts (topState (.chars sectionFlags false [.category .space false] ::
          (lits "<bridgehead".toList ++ (tagRep :: lits ['>'])).reverse)) := rfl
  have hsplit : (Sre.tokens patternBefore).getD [] ++ ts =
      (Sre.tokens "<bridgehead[^>]*>\\s".toList).getD [] ++ (.plain '*' :: ts) := rfl
  rw [hsplit, hstart, Sre.run, step_star hts]
  rfl

theorem run_between : Sre.run py.decimal 0 ((Sre.tokens patternBetween).getD [] ++ ts)
    (topState l) = Sre.run py.decimal 0 ts (topState ((spaceRep :: (lits "</bridgehead>".toList ++
      (gap :: (lits "<segmentedlist".toList ++
        (tagRep :: (lits "id=".toList ++ [quoteSet])))))).reverse ++ l)) := rfl

theorem run_behind : Sre.run py.decimal 0 ((Sre.tokens patternBehind).getD []) (topState l) =
    some { topState ((lits "-depends".toList ++ (quoteSet :: tagRep :: (lits ['>'] ++
        segItems 1))).reverse ++ l) with
      groups := 1
      closed := [(1, (Sre.seqOf [gap]).width)] } := rfl

theorem kindOf_between : Sre.kindOf ((Sre.tokens patternBetween).getD [] ++ ts) = (.max, 0) := rfl

theorem tokens_before : Sre.tokens patternBefore = some ((Sre.tokens patternBefore).getD []) := rfl

theorem tokens_between : Sre.tokens patternBetween = some ((Sre.tokens patternBetween).getD []) :=
  rfl

theorem tokens_behind : Sre.tokens patternBehind = some ((Sre.tokens patternBehind).getD []) := rfl

theorem compile_sectionPattern (hname : ∀ c ∈ py.letters.lower name, c ∉ special) :
    Sre.compile py.decimal sectionFlags (sectionPattern py name) =
      some ⟨[sectionItems py name], 1⟩ := by
  have hslash : '\\' ∉ py.letters.lower name := fun h => hname _ h (by decide)
  have htokens : Sre.tokens (sectionPattern py name) =
      some ((Sre.tokens patternBefore).getD [] ++ (name.map escapedToken ++
        ((Sre.tokens patternBetween).getD [] ++ ((py.letters.lower name).map .plain ++
          (Sre.tokens patternBehind).getD [])))) := by
    rw [sectionPattern_eq, Sre.tokens_append tokens_before,
      Sre.tokens_append (tokens_escape name), Sre.tokens_append tokens_between,
      Sre.tokens_append (tokens_plain hslash), tokens_behind]
    rfl
  have hrun := @run_behind py ((lits (py.letters.lower name)).reverse ++
    ((spaceRep :: (lits "</bridgehead>".toList ++ (gap :: (lits "<segmentedlist".toList ++
      (tagRep :: (lits "id=".toList ++ [quoteSet])))))).reverse ++ ((lits name).reverse ++
        (lits "<bridgehead".toList ++ (tagRep :: (lits ['>'] ++ [spaceRep]))).reverse)))
  rw [← run_plain hname, ← run_between, ← run_escape,
    ← run_before (kindOf_escaped kindOf_between)] at hrun
  rw [Sre.compile, htokens]
  simp only [Option.bind_eq_bind, Option.bind_some]
  rw [show Sre.State.mk { opening := .whole, flags := sectionFlags } [] 0 [] [] none =
    topState [] from rfl, hrun]
  simp [topState, Sre.State.alternatives, sectionItems, dependsItems]

/-! ## Searching for the pattern -/

theorem sameCode_eq (a c : Char) : Sre.sameCode py sectionFlags a.toNat c =
    py.letters.same a c := by
  have hvalid : a.toNat.isValidChar := a.valid
  simp [Sre.sameCode, sectionFlags, hvalid]

theorem denotes_lits (k : ℕ) (w : Str) :
    Sre.Denotes py k (Sre.seqOf (lits w)) (lit py.letters.same w) :=
  Sre.denotes_lit fun a _ c => sameCode_eq a c

theorem same_symbol {x c : Char} (hx : x.toNat < 128) (hsym : x.isAlpha = false) :
    py.letters.same x c = decide (c = x) := by
  rw [py.letters.same_ascii x c hx, Bool.eq_iff_iff, ignoreCase_symbol_iff hsym, decide_eq_true_iff]

theorem tests_tag : Sre.Tests py (.chars sectionFlags true [.literal '>'.toNat]) inTag :=
  Sre.tests_chars fun c => by
    simp only [List.any_cons, List.any_nil, Sre.inItem, sameCode_eq]
    rw [same_symbol (by decide) rfl, inTag]
    simp

theorem tests_quote : Sre.Tests py quoteSet quotation :=
  Sre.tests_chars fun c => by
    simp only [List.any_cons, List.any_nil, Sre.inItem, sameCode_eq]
    rw [same_symbol (by decide) rfl, same_symbol (by decide) rfl, quotation]
    simp [Bool.or_comm]

theorem tests_space : Sre.Tests py (.chars sectionFlags false [.category .space false]) isSpace :=
  Sre.tests_chars fun c => by
    simp [Sre.inItem, Sre.inCategory, sectionFlags]

theorem denotes_tagRep (k : ℕ) : Sre.Denotes py k (Sre.seqOf [tagRep]) (.many inTag) :=
  Sre.denotes_singleton (Sre.denotes_many tests_tag)

theorem denotes_spaceRep (k : ℕ) : Sre.Denotes py k (Sre.seqOf [spaceRep]) (.many isSpace) :=
  Sre.denotes_singleton (Sre.denotes_many tests_space)

theorem denotes_quoteSet (k : ℕ) : Sre.Denotes py k (Sre.seqOf [quoteSet]) (.char quotation) :=
  Sre.denotes_singleton tests_quote.denotes

theorem denotes_gap (k : ℕ) : Sre.Denotes py k (Sre.seqOf [gap]) (.lazy dot) :=
  Sre.denotes_singleton (Sre.denotes_lazy (Sre.tests_any rfl))

theorem denotes_dependsItems (k : ℕ) :
    Sre.Denotes py k (Sre.seqOf (dependsItems py name)) (dependsTag py name) :=
  Sre.denotes_append (denotes_lits k _) <| Sre.denotes_append (denotes_tagRep k) <|
    Sre.denotes_append (denotes_lits k _) <| Sre.denotes_append (denotes_quoteSet k) <|
    Sre.denotes_append (denotes_lits k _) <| Sre.denotes_append (denotes_lits k _) <|
    Sre.denotes_append (denotes_quoteSet k) (denotes_tagRep k)

theorem denotes_segItems (k : ℕ) : Sre.Denotes py k (Sre.seqOf (segItems k))
    (.seq (.lazy dot) (.seq (lit py.letters.same "<seg>".toList)
      (.seq (.group (.lazy dot)) (lit py.letters.same "</seg>".toList)))) :=
  Sre.denotes_append (denotes_gap k) <| Sre.denotes_append (denotes_lits k _) <|
    Sre.denotes_append (Sre.denotes_singleton (Sre.denotes_group (denotes_gap k)
      fun s m hm => groups_shortest s m hm)) (denotes_lits k _)

theorem denotes_sectionItems :
    Sre.Denotes py 1 (Sre.seqOf (sectionItems py name)) (sectionRegex py name) :=
  Sre.denotes_append (Sre.denotes_append (denotes_lits 1 _) (denotes_tagRep 1)) <|
    Sre.denotes_append (denotes_lits 1 _) <|
    Sre.denotes_append (Sre.denotes_append (denotes_spaceRep 1)
      (Sre.denotes_append (denotes_lits 1 _) (denotes_spaceRep 1))) <|
    Sre.denotes_append (denotes_lits 1 _) <| Sre.denotes_append (denotes_gap 1) <|
    Sre.denotes_append (denotes_dependsItems 1) <| Sre.denotes_append (denotes_lits 1 _)
      (denotes_segItems 1)

theorem searchSection_of_compile {c : Sre.Compiled} {text : Str}
    (h : Sre.compile py.decimal sectionFlags (sectionPattern py name) = some c) :
    searchSection py name text =
      (Sre.search py c.pattern text).elim (.ok none) fun q => (firstGroup c.groups q).map some := by
  unfold searchSection
  rw [h]
  cases hsearch : Sre.search py c.pattern text <;> simp only [hsearch, Option.elim]

theorem groupCount_sectionRegex : groupCount (sectionRegex py name) = 1 := by
  simp only [sectionRegex, padded, dependsTag, groupCount, groupCount_lit]

/-- For a name without special characters, the fallback searches for the regular expression
    with the name in it. -/
theorem searchSection_of_plain (hname : ∀ c ∈ py.letters.lower name, c ∉ special) (text : Str) :
    searchSection py name text =
      .ok ((search (sectionRegex py name) text).bind fun m => m.groups.head?) := by
  have hsearch : (Sre.search py (Sre.Compiled.pattern ⟨[sectionItems py name], 1⟩) text).map
      (fun q => q.groups 1) = (search (sectionRegex py name) text).map fun m => m.groups.getLast? :=
    Sre.search_of_denotes denotes_sectionItems text
  rw [searchSection_of_compile (compile_sectionPattern hname)]
  cases hm : search (sectionRegex py name) text with
  | none =>
    rw [hm, Option.map_none, Option.map_eq_none_iff] at hsearch
    rw [hsearch]
    rfl
  | some m =>
    rw [hm, Option.map_some, Option.map_eq_some_iff] at hsearch
    obtain ⟨q, hq, hgroup⟩ := hsearch
    -- The group of the pattern takes part in every match.
    obtain ⟨v, hv⟩ := matchAt_of_search hm
    have hlength := length_groups_ways _ _ m (List.mem_of_mem_head? hv)
    rw [groupCount_sectionRegex, List.length_eq_one_iff] at hlength
    obtain ⟨t, ht⟩ := hlength
    rw [ht] at hgroup
    rw [hq, Option.elim_some, Option.bind_some, ht, firstGroup, if_neg Nat.one_ne_zero, hgroup]
    rfl

end

end LfsBuilder
