import LfsBuilder.Parsers.DependencyLookup

/-!
# What the fallback comes to

What the search of the fallback comes to in a document (`found`), for every name. For a name
that stands for itself in the pattern, that is the `seg` that `writtenSeg?` is. Any
other name makes a pattern of its own: where the part of it before the `seg` matches, it
comes to the next `seg` in the document, unless the name has groups of its own, or
has taken the end of the pattern away (`foundByPattern`).

* `search_segRegex_suffix`: from a place on, the pattern for a `seg` finds the next one;
* `searchSection_found`: the text that the search finds is that of `found`.
-/

namespace LfsBuilder

open Text Backtracking Markup

/-- What the search comes to: nothing, a `seg`, or the text of a group in the name. -/
inductive Found
  | nothing
  | seg (e : Element)
  | text (s : Str)

/-- The text of the list that has been found. -/
def Found.text? : Found → Option Str
  | .nothing => none
  | .seg e => some (render e.inner)
  | .text s => some s

/-- The first `seg` that starts in the last `n` characters of a document. -/
def segIn (n : ℕ) : List Mark → Option Element
  | [] => none
  | m :: ms =>
    ((opened? m).filter fun e => isWrittenSeg e && (written (m :: ms)).length ≤ n).or (segIn n ms)

/-- The items before the `seg`, if the pattern still has its end. -/
def beforeSeg? (groups : ℕ) (items : List Sre.Pattern) : Option (List Sre.Pattern) :=
  if segItems groups <:+ items then
    some (items.take (items.length - (segItems groups).length))
  else none

/-- What an alternative of the pattern comes to at a place, in each of its ways. -/
def foundIn (py : Python) (doc : Content) (groups : ℕ) (p : Sre.Place)
    (items : List Sre.Pattern) : List (Except LookupError Found) :=
  match beforeSeg? groups items with
  | some front =>
    (Sre.ways py (Sre.seqOf front) p).filterMap fun q =>
      (segIn q.rest.length (marks doc)).map fun e =>
        if groups = 1 then .ok (.seg e) else (firstGroup groups q).map .text
  | none => (Sre.ways py (Sre.seqOf items) p).map fun q => (firstGroup groups q).map .text

/-- What the pattern around a name comes to: the first way at the first place. -/
def foundByPattern (py : Python) (name : Str) (doc : Content) : Except LookupError Found :=
  match Sre.compile py.decimal sectionFlags (sectionPattern py name) with
  | none => .error .patternError
  | some c =>
    (Sre.firstFrom (fun p => c.alternatives.flatMap (foundIn py doc c.groups p)) []
      (render doc)).getD (.ok .nothing)

/-- A name that stands for itself in a pattern, and in a document. -/
def isPlainName (name : Str) : Bool := name.all fun c => c ∉ special && c ≠ '<' && c ≠ '>'

/-- What the fallback comes to. -/
def found (py : Python) (name : Str) (doc : Content) : Except LookupError Found :=
  if isPlainName name then .ok ((writtenSeg? py name doc).elim .nothing .seg)
  else foundByPattern py name doc

section

variable {py : Python} {name : Str} {doc : Content} {ms : List Mark} {v : Str} {n : ℕ}

/-! ## The next `seg` -/

theorem segIn_of_length_le (h : (written ms).length ≤ n) :
    segIn n ms = (opened ms).find? isWrittenSeg := by
  induction ms with
  | nil => rfl
  | cons m ms ih =>
    have hlen : (written ms).length ≤ n := by
      rw [written_cons, List.length_append] at h
      omega
    rw [segIn, ih hlen]
    cases hm : opened? m with
    | none => rw [opened_cons hm]; rfl
    | some e =>
      have hopened : opened (m :: ms) = e :: opened ms := List.filterMap_cons_some hm
      rw [hopened, List.find?_cons, Option.filter_some, decide_eq_true h, Bool.and_true]
      cases isWrittenSeg e <;> rfl

/-- A mark that starts before the last `n` characters is passed over. -/
theorem segIn_of_lt {m : Mark} (h : n < (written (m :: ms)).length) :
    segIn n (m :: ms) = segIn n ms := by
  rw [segIn, decide_eq_false (Nat.not_le.2 h)]
  simp

theorem segIn_skip {m : Mark} (h : n ≤ (written ms).length) : segIn n (m :: ms) = segIn n ms := by
  cases hm : opened? m with
  | none =>
    rw [segIn, hm]
    rfl
  | some e =>
    cases m with
    | start e' =>
      refine segIn_of_lt ?_
      rw [written_cons, List.length_append, Mark.text, List.length_append, List.length_singleton]
      omega
    | _ => cases hm

/-- From any place of a document on, the pattern for a `seg` finds the next one. -/
theorem search_segRegex_suffix (h : BookFormat doc) (hms : ms <:+ marks doc)
    (hv : v <:+ written ms) : (search segRegex v).map Match.groups =
      (segIn v.length ms).map fun seg => [render seg.inner] := by
  induction ms with
  | nil =>
    rw [List.suffix_nil.1 hv]
    rfl
  | cons m ms ih =>
    have hsuffix := (List.suffix_cons m ms).trans hms
    obtain ⟨w, hw⟩ := hv
    rw [written_cons] at hw
    rcases List.append_eq_append_iff.1 hw with ⟨u, hm, rfl⟩ | ⟨u, rfl, hu⟩
    · cases w with
      | nil =>
        -- The place is at the mark.
        rw [List.nil_append] at hm
        rw [← hm, ← written_cons, segIn_of_length_le le_rfl, search_segRegex h hms]
      | cons c w =>
        -- The place is in the mark, where no `seg` starts.
        have hlt : (u ++ written ms).length < (written (m :: ms)).length := by
          rw [written_cons, hm, List.append_assoc, @List.length_append _ (c :: w),
            List.length_cons]
          omega
        have hstill : Still segRegex u (written ms) := by
          rcases (h m (hms.subset List.mem_cons_self)).cases with ⟨e, rfl, he, -⟩ | ⟨-, hstill⟩
          · obtain ⟨-, hu⟩ := List.cons.inj hm
            refine begins_segRegex.still_of_notMem fun hmem => ?_
            have hlast : '<' ∈ e.tag.text ++ ['>'] := by
              rw [show e.tag.text ++ ['>'] = w ++ u from hu]
              exact List.mem_append_right w hmem
            simp [he] at hlast
          · have hboth := hstill segRegex (written ms) begins_segRegex
            rw [hm, still_append] at hboth
            exact hboth.2
        rw [segIn_of_lt hlt, search_append hstill, search_segRegex h hsuffix,
          segIn_of_length_le (by simp)]
    · rw [segIn_skip (by rw [hu, List.length_append]; omega), ih hsuffix ⟨u, hu.symm⟩]

/-! ## The end of the pattern -/

theorem suffix_of_text {q : Sre.Place} (hq : q.text = render doc) : q.rest <:+ render doc :=
  hq ▸ List.suffix_append q.before.reverse q.rest

/-- At any place of the document, the end of the pattern takes the next `seg`. -/
theorem groups_ways_segItems (h : BookFormat doc) (k : ℕ) {q : Sre.Place}
    (hq : q.text = render doc) :
    (Sre.ways py (Sre.seqOf (segItems k)) q).head?.map Sre.Place.groups =
      (segIn q.rest.length (marks doc)).map fun e =>
        Function.update q.groups k (some (render e.inner)) := by
  have hregex : Regex.seq (.lazy dot) (.seq (lit py.letters.same "<seg>".toList)
      (.seq (.group (.lazy dot)) (lit py.letters.same "</seg>".toList))) =
      .seq (.lazy dot) segRegex := by
    rw [lit_same py "<seg>".toList (by decide), lit_same py "</seg>".toList (by decide), segRegex]
  have hgroups := groups_gap (q := segRegex) (s := q.rest)
  rw [search_segRegex_suffix h List.suffix_rfl (suffix_of_text hq)] at hgroups
  have hfold := congrArg (Option.map fun groups : List Str =>
    groups.foldl (fun g t => Function.update g k (some t)) q.groups) hgroups
  rw [Option.map_map, Option.map_map] at hfold
  rw [denotes_segItems k q, hregex, List.head?_map, Option.map_map]
  exact hfold

theorem eq_append_of_beforeSeg? {items front : List Sre.Pattern}
    (h : beforeSeg? n items = some front) : items = front ++ segItems n := by
  rw [beforeSeg?] at h
  split at h
  · next hsuffix =>
    obtain ⟨t, rfl⟩ := hsuffix
    obtain rfl := Option.some.inj h
    simp
  · cases h

/-- What an alternative comes to is what its first way has for a group. -/
theorem foundIn_head? (h : BookFormat doc) (n : ℕ) (items : List Sre.Pattern) {p : Sre.Place}
    (hp : p.text = render doc) :
    (foundIn py doc n p items).head?.map (Except.map Found.text?) =
      (Sre.ways py (Sre.seqOf items) p).head?.map fun q => (firstGroup n q).map some := by
  have hown (q : Sre.Place) : ((firstGroup n q).map Found.text).map Found.text? =
      (firstGroup n q).map some := by
    cases firstGroup n q <;> rfl
  rw [foundIn]
  cases hfront : beforeSeg? n items with
  | none =>
    rw [List.head?_map, Option.map_map]
    exact congrArg (Option.map · _) (funext hown)
  | some front =>
    rw [eq_append_of_beforeSeg? hfront, Sre.ways_seqOf_append, List.head?_flatMap]
    dsimp only
    rw [List.head?_filterMap, List.map_findSome?, List.map_findSome?, ← List.head?_filterMap,
      ← List.head?_filterMap]
    refine congrArg List.head? (List.filterMap_congr fun q hq => ?_)
    have hq : q.text = render doc := (Sre.text_ways _ p q hq).trans hp
    have hgroups := @groups_ways_segItems py doc h n q hq
    rw [Function.comp_apply, Function.comp_apply]
    cases hseg : segIn q.rest.length (marks doc) with
    | none =>
      rw [hseg, Option.map_none, Option.map_eq_none_iff] at hgroups
      rw [hgroups]
      rfl
    | some e =>
      rw [hseg, Option.map_some, Option.map_eq_some_iff] at hgroups
      obtain ⟨q', hq', hgroup⟩ := hgroups
      rw [hq', Option.map_some, Option.map_some, Option.map_some]
      refine congrArg some ?_
      split
      · next hone =>
        subst hone
        rw [firstGroup, hgroup, Function.update_self]
        rfl
      · next hone =>
        rw [hown, firstGroup, firstGroup, hgroup, Function.update_of_ne (Ne.symm hone)]

theorem foundByPattern_of_compile {c : Sre.Compiled}
    (h : Sre.compile py.decimal sectionFlags (sectionPattern py name) = some c) :
    foundByPattern py name doc =
      (Sre.firstFrom (fun p => c.alternatives.flatMap (foundIn py doc c.groups p)) []
        (render doc)).getD (.ok .nothing) := by
  unfold foundByPattern
  rw [h]

/-- The fallback finds the text of what it comes to. -/
theorem searchSection_foundByPattern (h : BookFormat doc) :
    searchSection py name (render doc) = (foundByPattern py name doc).map Found.text? := by
  rcases hc : Sre.compile py.decimal sectionFlags (sectionPattern py name) with _ | c
  · unfold searchSection foundByPattern
    rw [hc]
    rfl
  · have hfirst : (Sre.firstFrom (fun p => c.alternatives.flatMap (foundIn py doc c.groups p)) []
        (render doc)).map (Except.map Found.text?) =
        (Sre.search py c.pattern (render doc)).map fun q => (firstGroup c.groups q).map some := by
      refine Sre.firstFrom_map_eq (fun p (hp : p.text = render doc) => ?_) [] _ rfl
      rw [Sre.Compiled.pattern, Sre.ways_branchOf (Sre.alternatives_ne_nil hc), List.head?_flatMap,
        List.head?_flatMap, List.map_findSome?, List.map_findSome?, ← List.head?_filterMap,
        ← List.head?_filterMap]
      exact congrArg List.head?
        (List.filterMap_congr fun items _ => foundIn_head? h c.groups items hp)
    rw [searchSection_of_compile hc, foundByPattern_of_compile hc]
    cases hsearch : Sre.search py c.pattern (render doc) with
    | none =>
      rw [hsearch, Option.map_none, Option.map_eq_none_iff] at hfirst
      rw [hfirst]
      rfl
    | some q =>
      rw [hsearch, Option.map_some, Option.map_eq_some_iff] at hfirst
      obtain ⟨f, hf, hfq⟩ := hfirst
      rw [hf, Option.getD_some, Option.elim_some, hfq]

theorem segIn_of_foundIn {items : List Sre.Pattern} {p : Sre.Place} {e : Element}
    (h : .ok (.seg e) ∈ foundIn py doc n p items) : ∃ n, segIn n (marks doc) = some e := by
  have hown (q : Sre.Place) : (firstGroup n q).map Found.text ≠ .ok (.seg e) := by
    cases firstGroup n q <;> exact fun h => by cases h
  rw [foundIn] at h
  split at h
  · obtain ⟨q, -, hq⟩ := List.mem_filterMap.1 h
    obtain ⟨e', he', heq⟩ := Option.map_eq_some_iff.1 hq
    split at heq
    · cases heq
      exact ⟨_, he'⟩
    · exact absurd heq (hown q)
  · obtain ⟨q, -, hq⟩ := List.mem_map.1 h
    exact absurd hq (hown q)

/-- The fallback comes to a `seg` of the document. -/
theorem segIn_of_foundByPattern {e : Element} (h : foundByPattern py name doc = .ok (.seg e)) :
    ∃ n, segIn n (marks doc) = some e := by
  rcases hc : Sre.compile py.decimal sectionFlags (sectionPattern py name) with _ | c
  · unfold foundByPattern at h
    rw [hc] at h
    cases h
  · rw [foundByPattern_of_compile hc] at h
    cases hfirst : Sre.firstFrom (fun p => c.alternatives.flatMap (foundIn py doc c.groups p)) []
        (render doc) with
    | none =>
      rw [hfirst] at h
      cases h
    | some f =>
      rw [hfirst, Option.getD_some] at h
      obtain ⟨p, hp⟩ := Sre.exists_of_firstFrom hfirst
      obtain ⟨items, -, hitems⟩ := List.mem_flatMap.1 hp
      exact segIn_of_foundIn (h ▸ hitems)

/-! ## Plain names -/

theorem searchSection_render (h : BookFormat doc) (hname : isPlainName name) :
    searchSection py name (render doc) =
      .ok ((writtenSeg? py name doc).map fun seg => render seg.inner) := by
  simp only [isPlainName, Bool.and_eq_true, List.all_eq_true, decide_eq_true_eq] at hname
  have hsymbol : ∀ c ∈ special, c.toNat < 128 ∧ c.isAlpha = false := by decide
  have hspecial : ∀ c ∈ py.letters.lower name, c ∉ special := fun c hc hmem => by
    obtain ⟨hascii, halpha⟩ := hsymbol c hmem
    exact (hname c ((py.letters.mem_lower name c hascii halpha).1 hc)).1.1 hmem
  have hsearch := search_sectionRegex py h (fun hlt => (hname _ hlt).1.2 rfl)
    (fun hgt => (hname _ hgt).2 rfl) (List.suffix_refl (marks doc))
  have hhead := congrArg (Option.bind · List.head?) hsearch
  rw [Option.bind_map, Option.bind_map] at hhead
  rw [searchSection_of_plain hspecial, writtenSeg?, render]
  exact congrArg _ (hhead.trans Option.map_eq_bind.symm)

/-- The text that the fallback finds in a document in the format of the book. -/
theorem searchSection_found (h : BookFormat doc) :
    searchSection py name (render doc) = (found py name doc).map Found.text? := by
  rw [found]
  split
  · next hname =>
    rw [searchSection_render h hname]
    cases writtenSeg? py name doc <;> rfl
  · exact searchSection_foundByPattern h

end

end LfsBuilder
