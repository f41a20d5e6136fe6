import LfsBuilder.Parsers.SectionPattern

/-!
# The way to the dependencies

Both ways of `resolve_dependencies` to read a document go through it from a heading to
a list to a `seg`, but each has its own idea of a heading, of a list and of a `seg`.

* `readSeg?`: the way of BeautifulSoup, on the elements of the document;
* `writtenSeg?`: what the pattern of the fallback does, on the elements of the
  document as they are written;
* `search_sectionRegex`: the pattern finds in the text of a document what
  `writtenSeg?` finds in the document.
-/

namespace LfsBuilder

open Text Backtracking Markup

/-! ## The elements on the way -/

/-- The elements after the first one with the property `p`. -/
def after (p : Element → Bool) (es : List Element) : List Element :=
  (es.dropWhile fun e => !p e).tail

/-- The `seg` that BeautifulSoup comes to: the first one in the first list with an
    identifier of the kind after the heading. -/
def readSeg? (letters : Letters) (soup : Soup) (name : Str) (doc : Content) : Option Element :=
  ((after (isBridge letters soup name) (elements doc)).find? (isDependsList soup)).bind
    fun seglist => (elements seglist.inner).find? (soup.named "seg".toList)

/-- The element that a start tag opens. -/
def opened? : Mark → Option Element
  | .start e => some e
  | _ => none

/-- The elements of a document that have an end tag, in document order. -/
def opened (ms : List Mark) : List Element := ms.filterMap opened?

/-- A text up to its first `>`, and what comes after. -/
def upto (s : Str) : Str := s.takeWhile (· ≠ '>')

def past (s : Str) : Str := (s.dropWhile (· ≠ '>')).tail

/-- Whether a pattern for start tags matches that of an element. -/
def opens (tag : Regex) (e : Element) : Bool := fullmatch tag (upto (Mark.start e).text)

/-- The start tags that the fallback takes for a `bridgehead`, up to their angle
    bracket. -/
def headingTag : Regex := .seq (lit ignoreCase "<bridgehead".toList) (.many inTag)

/-- A heading with nothing in it but the name of the package, as it is written. -/
def isWrittenHeading (py : Python) (name : Str) (e : Element) : Bool :=
  opens headingTag e && '>' ∉ e.tag.text && fullmatch (padded py name) (render e.inner) &&
    fullmatch (lit ignoreCase "</bridgehead".toList) (upto (Mark.stop e).text)

/-- A list with the identifier of the package, as it is written. -/
def isOwnList (py : Python) (name : Str) (e : Element) : Bool := opens (dependsTag py name) e

/-- A `seg`, as it is written. -/
def isWrittenSeg (e : Element) : Bool := opens (lit ignoreCase "<seg".toList) e

/-- The `seg` that the fallback comes to: the first one after the first list of the
    package after its heading. -/
def writtenSeg? (py : Python) (name : Str) (doc : Content) : Option Element :=
  (after (isOwnList py name) (after (isWrittenHeading py name) (opened (marks doc)))).find?
    isWrittenSeg

/-! ## Documents in the format of the book -/

/-- What the start tags of headings, lists and `seg`s begin with. -/
def beginnings : List Str := ["<bridgehead".toList, "<segmentedlist".toList, "<seg>".toList]

/-- A text in which no such start tag begins. -/
def Quiet (s : Str) : Prop := ∀ v ∈ s.tails, ∀ w ∈ beginnings, matchAt (lit ignoreCase w) v = none

instance (s : Str) : Decidable (Quiet s) := inferInstanceAs (Decidable (∀ v ∈ s.tails, _))

/-- The tag of a `seg` has nothing but the name, and the first `</seg>` that follows is its
    end tag. -/
def Simple (e : Element) : Prop :=
  '>' ∉ e.tag.text ∧ (scan (lit ignoreCase "</seg>".toList)
    (render e.inner ++ (Mark.stop e).text)).map Prod.fst = some (render e.inner)

/-- A mark of a document in the format of the book: headings, lists and `seg`s are written as
    elements with an end tag, and not in comments. -/
structure InBook (m : Mark) : Prop where
  wellFormed : m.WellFormed
  stops : m.text.take 2 = "</".toList → ∃ e, m = .stop e
  quiet : (∃ e, m = .start e) ∨ Quiet m.text
  segs : ∀ e, m = .start e → isWrittenSeg e → Simple e

/-- The format of the book, with headings, lists and `seg`s in any number and order, and
    with anything around them. -/
def BookFormat (doc : Content) : Prop := ∀ m ∈ marks doc, InBook m

/-! ## Marks -/

section

variable {m : Mark} {e : Element} {ms : List Mark} {doc : Content} {s t : Str}

theorem after_cons (p : Element → Bool) (e : Element) (es : List Element) :
    after p (e :: es) = if p e then es else after p es := by
  rw [after, List.dropWhile_cons]
  cases p e <;> rfl

theorem upto_append_past (hs : '>' ∈ s) : s = upto s ++ '>' :: past s := by
  induction s with
  | nil => exact absurd hs List.not_mem_nil
  | cons c s ih =>
    by_cases hc : c = '>'
    · subst hc
      rfl
    · have ih := ih ((List.mem_cons.1 hs).resolve_left (Ne.symm hc))
      rw [upto, past, List.takeWhile_cons_of_pos (by simpa using hc),
        List.dropWhile_cons_of_pos (by simpa using hc)]
      exact congrArg (c :: ·) ih

theorem notMem_upto : '>' ∉ upto s := fun h => by simpa using List.mem_takeWhile_imp h

end

section

variable {py : Python} {name : Str} {r q tag : Regex} {w : Str} {m : Mark} {e : Element}
  {ms : List Mark} {doc : Content} {s t : Str}

/-! ## Where the patterns can match -/

/-- A pattern that matches only where one of the start tags begins. -/
def Begins (r : Regex) : Prop :=
  ∃ w ∈ beginnings, ∀ s, matchAt r s ≠ none → matchAt (lit ignoreCase w) s ≠ none

theorem Begins.eq_lt (h : Begins r) {c : Char} (hr : matchAt r (c :: s) ≠ none) : c = '<' := by
  obtain ⟨w, hw, h⟩ := h
  obtain ⟨w, rfl⟩ : ∃ w', w = '<' :: w' := by
    revert w
    simp [beginnings]
  have hlit := h _ hr
  rw [matchAt_lit_end] at hlit
  split at hlit
  · next hc => exact ignoreCase_symbol rfl hc
  · exact absurd rfl hlit

theorem Begins.still_of_notMem (h : Begins r) (hs : '<' ∉ s) : Still r s t :=
  Backtracking.still_of_notMem (fun _ _ => h.eq_lt) hs

/-- No match starts in a mark that is quiet, whatever follows it. -/
theorem Begins.still (h : Begins r) (hm : m.WellFormed) (hq : Quiet m.text) : Still r m.text t := by
  rcases hm.text_end with ⟨raw, rfl⟩ | ⟨s, hs⟩
  · exact h.still_of_notMem hm
  · obtain ⟨w, hw, h⟩ := h
    have hlast : ∀ w ∈ beginnings, ∀ a ∈ w.dropLast, ignoreCase a '>' = false := by decide
    rw [still_iff]
    intro v hv hne
    by_contra hr
    have hgt : '>' ∈ v := by
      obtain ⟨v, rfl, -⟩ := (List.suffix_concat_iff.1 (hs ▸ hv)).resolve_left hne
      simp
    exact matchAt_lit_of_append (hlast w hw) hgt (h _ hr) (hq v ((List.mem_tails _ _).2 hv) w hw)

theorem lit_same (py : Python) (w : Str) (hw : ∀ a ∈ w, a.toNat < 128) :
    lit py.letters.same w = lit ignoreCase w :=
  lit_congr fun a ha => funext fun c => py.letters.same_ascii a c (hw a ha)

/-- The pattern from the `seg` on. -/
def segRegex : Regex :=
  .seq (lit ignoreCase "<seg>".toList) <| .seq (.group (.lazy dot)) (lit ignoreCase "</seg>".toList)

/-- The pattern from the list on. -/
def listRegex (py : Python) (name : Str) : Regex :=
  .seq (dependsTag py name) <| .seq (lit ignoreCase ['>']) <| .seq (.lazy dot) segRegex

theorem sectionRegex_eq : sectionRegex py name = .seq headingTag (.seq (lit ignoreCase ['>'])
    (.seq (padded py name) (.seq (lit ignoreCase "</bridgehead>".toList)
      (.seq (.lazy dot) (listRegex py name))))) := by
  rw [sectionRegex]
  simp only [lit_same py "<bridgehead".toList (by decide),
    lit_same py ['>'] (by decide),
    lit_same py "</bridgehead>".toList (by decide),
    lit_same py "<seg>".toList (by decide),
    lit_same py "</seg>".toList (by decide)]
  rfl

theorem begins_segRegex : Begins segRegex :=
  ⟨"<seg>".toList, by decide, fun _ h => matchAt_left h⟩

theorem begins_listRegex : Begins (listRegex py name) := by
  refine ⟨"<segmentedlist".toList, by decide, fun s h => ?_⟩
  have h := matchAt_left (matchAt_left h)
  rwa [lit_same py _ (by decide)] at h

theorem begins_sectionRegex : Begins (sectionRegex py name) := by
  refine ⟨"<bridgehead".toList, by decide, fun s h => ?_⟩
  rw [sectionRegex_eq] at h
  exact matchAt_left (matchAt_left h)

/-! ## Groups -/

theorem groups_after (u : Str) (o : Option Match) :
    (o.map (Match.after u)).map Match.groups = o.map Match.groups := by
  rw [Option.map_map]
  rfl

theorem groups_gap : (matchAt (.seq (.lazy dot) q) s).map Match.groups =
    (search q s).map Match.groups := by
  rw [matchAt_gap, search, Option.map_map, Option.map_map]
  rfl

/-- A tag at the beginning of a text is where the search finds the pattern, or the search
    goes on behind it. -/
theorem groups_search_tag (h : Begins r) {u : Str} (hu : '<' ∉ u) :
    (search r ('<' :: (u ++ t))).map Match.groups =
      ((matchAt r ('<' :: (u ++ t))).map Match.groups).or ((search r t).map Match.groups) := by
  cases hm : matchAt r ('<' :: (u ++ t)) with
  | some m => rw [search_of_matchAt hm]; rfl
  | none =>
    have hstill : Still r ('<' :: u) t := ⟨hm, h.still_of_notMem hu⟩
    rw [← List.cons_append, search_append hstill]
    rfl

/-- A pattern for tags, at a text with a `>`, looks at the text up to the `>`. -/
theorem groups_matchAt_upto (htag : Avoids '>' tag) (hs : '>' ∈ s) :
    (matchAt (.seq tag (.seq (lit ignoreCase ['>']) q)) (s ++ t)).map Match.groups =
      if fullmatch tag (upto s) then (matchAt q (past s ++ t)).map Match.groups else none := by
  conv_lhs => rw [upto_append_past hs, List.append_assoc, List.cons_append]
  rw [matchAt_upto htag (fun _ => ignoreCase_symbol_iff rfl) notMem_upto]
  split
  · rw [groups_after, groups_after]
  · rfl

theorem gt_mem_start : '>' ∈ (Mark.start e).text := by simp [Mark.text]

theorem past_append_cons {u : Str} (hu : '>' ∉ u) : past (u ++ '>' :: t) = t := by
  have hall : ∀ c ∈ u, decide (c ≠ '>') = true := fun c hc =>
    decide_eq_true fun h => hu (h ▸ hc)
  rw [past, List.dropWhile_append_of_pos hall]
  rfl

theorem past_start (he : '>' ∉ e.tag.text) : past (Mark.start e).text = [] :=
  past_append_cons (u := '<' :: e.tag.text) (by simpa using he)

theorem gt_mem_past_start (he : '>' ∈ e.tag.text) : '>' ∈ past (Mark.start e).text := by
  obtain ⟨u, v, htext, hu⟩ := List.eq_append_cons_of_mem he
  have hstart : (Mark.start e).text = '<' :: u ++ '>' :: (v ++ ['>']) := by
    rw [Mark.text, htext]
    simp
  rw [hstart, past_append_cons (by simpa using hu)]
  simp

theorem lt_notMem_past (hs : '<' ∉ s) : '<' ∉ past s := fun h =>
  hs ((List.dropWhile_sublist _).mem (List.mem_of_mem_tail h))

theorem lt_notMem_past_start (he : '<' ∉ e.tag.text) : '<' ∉ past (Mark.start e).text :=
  lt_notMem_past (s := e.tag.text ++ ['>']) (by simpa using he)

/-! ## The `seg` -/

theorem groups_matchAt_segRegex (h : isWrittenSeg e → Simple e) :
    (matchAt segRegex ((Mark.start e).text ++ (render e.inner ++ ((Mark.stop e).text ++ t)))).map
      Match.groups = if isWrittenSeg e then some [render e.inner] else none := by
  rw [segRegex, show "<seg>".toList = "<seg".toList ++ ['>'] from rfl, matchAt_lit_split,
    groups_matchAt_upto (avoids_lit (by decide)) gt_mem_start]
  refine ite_congr rfl (fun he => ?_) fun _ => rfl
  obtain ⟨hgt, hscan⟩ := h he
  obtain ⟨⟨_, m⟩, hm, rfl⟩ := Option.map_eq_some_iff.1 hscan
  have hgroups : m.groups = [] := by
    obtain ⟨v, -, hv⟩ := matchAt_of_scan hm
    have havoids : Avoids ' ' (lit ignoreCase "</seg>".toList) := avoids_lit (by decide)
    exact groups_ways havoids m (List.mem_of_mem_head? hv)
  rw [show "</seg>".toList = "</seg".toList ++ ['>'] from rfl] at hm ⊢
  have hlong := scan_lit_append (w := "</seg".toList) (x := '>') (t := t) (by decide)
    (fun c hc => ignoreCase_symbol rfl hc) hm
  rw [List.append_assoc] at hlong
  rw [past_start hgt, List.nil_append, matchAt_group_gap, hlong]
  simp [hgroups]

/-- A mark of the book is a start tag, or one where no pattern matches. -/
theorem InBook.cases (h : InBook m) :
    (∃ e, m = .start e ∧ '<' ∉ e.tag.text ∧ (isWrittenSeg e → Simple e)) ∨
      opened? m = none ∧ ∀ r t, Begins r → Still r m.text t := by
  have hwf := h.wellFormed
  rcases h.quiet with ⟨e, rfl⟩ | hq
  · exact .inl ⟨e, rfl, hwf, h.segs e rfl⟩
  · cases m with
    | start e => exact .inl ⟨e, rfl, hwf, h.segs e rfl⟩
    | _ => exact .inr ⟨rfl, fun r t hr => hr.still hwf hq⟩

theorem opened_start : opened (.start e :: ms) = e :: opened ms := rfl

theorem opened_cons (hm : opened? m = none) : opened (m :: ms) = opened ms :=
  List.filterMap_cons_none hm

theorem written_cons : written (m :: ms) = m.text ++ written ms := rfl

/-- What a pattern finds from a start tag on, where the next pattern tells what follows
    the tag. -/
theorem groups_search_start (hb : Begins r) (he : '<' ∉ e.tag.text) :
    (search r (written (.start e :: ms))).map Match.groups =
      ((matchAt r (written (.start e :: ms))).map Match.groups).or
        ((search r (written ms)).map Match.groups) :=
  groups_search_tag hb (u := e.tag.text ++ ['>']) (by simpa using he)

theorem search_segRegex (h : BookFormat doc) (hms : ms <:+ marks doc) :
    (search segRegex (written ms)).map Match.groups =
      ((opened ms).find? isWrittenSeg).map fun seg => [render seg.inner] := by
  induction ms with
  | nil => rfl
  | cons m ms ih =>
    have ih := ih ((List.suffix_cons m ms).trans hms)
    rcases (h m (hms.subset List.mem_cons_self)).cases with ⟨e, rfl, he, hseg⟩ | ⟨hm, hstill⟩
    · obtain ⟨rest, hrest⟩ := marks_of_start hms
      have hwritten : written (.start e :: ms) = (Mark.start e).text ++
          (render e.inner ++ ((Mark.stop e).text ++ written rest)) := by
        rw [hrest, written_cons, written, List.flatMap_append, List.flatMap_cons]
        rfl
      rw [groups_search_start begins_segRegex he, ih, hwritten, groups_matchAt_segRegex hseg,
        opened_start, List.find?_cons]
      cases isWrittenSeg e <;> rfl
    · rw [written_cons, search_append (hstill _ _ begins_segRegex), ih, opened_cons hm]

/-! ## The list -/

theorem avoids_same {x : Char} (hx : x.toNat < 128) (hsym : x.isAlpha = false) (hw : x ∉ w) :
    Avoids x (lit py.letters.same w) := by
  refine avoids_lit fun a ha => ?_
  by_contra h
  have hxa := py.letters.same_comm a x hx (by simpa using h)
  rw [py.letters.same_ascii x a hx] at hxa
  exact hw (ignoreCase_symbol hsym hxa ▸ ha)

theorem avoids_dependsTag (hname : '>' ∉ name) : Avoids '>' (dependsTag py name) := by
  have hlower : '>' ∉ py.letters.lower name :=
    mt (py.letters.mem_lower name '>' (by decide) rfl).1 hname
  exact ⟨avoids_same (by decide) rfl (by decide), rfl, avoids_same (by decide) rfl (by decide), rfl,
    avoids_same (by decide) rfl hlower, avoids_same (by decide) rfl (by decide), rfl, rfl⟩

/-- Two patterns of which the second needs the first. -/
theorem groups_or (h : search q s = none → search r s = none) :
    ((search q s).map Match.groups).or ((search r s).map Match.groups) =
      (search q s).map Match.groups := by
  cases hq : search q s with
  | some m => rfl
  | none => rw [h hq]; rfl

/-- Without a `seg` in a text, there is none for a list. -/
theorem search_listRegex_eq_none (h : search segRegex s = none) :
    search (listRegex py name) s = none :=
  search_seq_eq_none (search_seq_eq_none (search_seq_eq_none h))

theorem groups_matchAt_listRegex (hname : '>' ∉ name) (he : '<' ∉ e.tag.text) :
    (matchAt (listRegex py name) ((Mark.start e).text ++ t)).map Match.groups =
      if isOwnList py name e then (search segRegex t).map Match.groups else none := by
  rw [listRegex, groups_matchAt_upto (avoids_dependsTag hname) gt_mem_start, groups_gap,
    search_append (begins_segRegex.still_of_notMem (lt_notMem_past_start he))]
  rfl

theorem search_listRegex (h : BookFormat doc) (hname : '>' ∉ name)
    (hms : ms <:+ marks doc) : (search (listRegex py name) (written ms)).map Match.groups =
      ((after (isOwnList py name) (opened ms)).find? isWrittenSeg).map
        fun seg => [render seg.inner] := by
  induction ms with
  | nil => rfl
  | cons m ms ih =>
    have hsuffix := (List.suffix_cons m ms).trans hms
    have ih := ih hsuffix
    rcases (h m (hms.subset List.mem_cons_self)).cases with ⟨e, rfl, he, -⟩ | ⟨hm, hstill⟩
    · rw [groups_search_start begins_listRegex he, written_cons, groups_matchAt_listRegex hname he,
        opened_start, after_cons]
      split
      · rw [groups_or search_listRegex_eq_none, search_segRegex h hsuffix]
      · rw [Option.none_or, ih]
    · rw [written_cons, search_append (hstill _ _ begins_listRegex), ih, opened_cons hm]

/-! ## The heading -/

/-- The first markup in a content is not an end tag. -/
theorem render_cases {c : Content} (hwf : c.WellFormed)
    (hstops : ∀ m ∈ marks c, m.text.take 2 = "</".toList → ∃ e, m = .stop e) :
    '<' ∉ render c ∨ ∃ u v, render c = u ++ '<' :: v ∧ '<' ∉ u ∧ v.head? ≠ some '/' := by
  have hhead : ∀ m ∈ marks c, (∀ e, m ≠ .stop e) → ∀ a s, m.text = '<' :: a :: s → a ≠ '/' := by
    rintro m hm hne a s htext rfl
    obtain ⟨e, rfl⟩ := hstops m hm (by rw [htext]; rfl)
    exact hne e rfl
  induction c with
  | nil => exact .inl List.not_mem_nil
  | data raw rest ih =>
    obtain ⟨hraw, hwf⟩ := List.forall_mem_cons.1 hwf
    rw [render_data]
    rcases ih hwf (List.forall_mem_cons.1 hstops).2 (List.forall_mem_cons.1 hhead).2 with
      h | ⟨u, v, h, hu, hv⟩
    · exact .inl (List.not_mem_append hraw h)
    · exact .inr ⟨raw ++ u, v, by rw [h, List.append_assoc], List.not_mem_append hraw hu, hv⟩
  | comment raw rest ih =>
    obtain ⟨⟨s, hraw⟩, -⟩ := List.forall_mem_cons.1 hwf
    have hne := (List.forall_mem_cons.1 hhead).1 fun e he => by cases he
    refine .inr ⟨[], s ++ ['>'] ++ render rest, by rw [render_comment, hraw]; rfl,
      List.not_mem_nil, ?_⟩
    cases s with
    | nil => simp
    | cons a s => simpa using hne a (s ++ ['>']) hraw
  | element tag inner space rest ihi ih =>
    have hne := (List.forall_mem_cons.1 hhead).1 fun e he => by cases he
    refine .inr ⟨[], tag.text ++ ['>'] ++ _, by rw [render_element]; rfl, List.not_mem_nil, ?_⟩
    cases htag : tag.text with
    | nil => simp
    | cons a s => simpa using hne a (s ++ ['>']) (by rw [Mark.text, htag]; rfl)
  | empty tag rest ih =>
    have hne := (List.forall_mem_cons.1 hhead).1 fun e he => by cases he
    refine .inr ⟨[], tag.text ++ ['/', '>'] ++ render rest, by rw [render_empty]; rfl,
      List.not_mem_nil, ?_⟩
    cases htag : tag.text with
    | nil => exact absurd rfl (hne '/' ['>'] (by rw [Mark.text, htag]; rfl))
    | cons a s => simpa using hne a (s ++ ['/', '>']) (by rw [Mark.text, htag]; rfl)

theorem search_sectionRegex_eq_none (h : search (listRegex py name) s = none) :
    search (sectionRegex py name) s = none := by
  rw [sectionRegex_eq]
  exact search_seq_eq_none (search_seq_eq_none (search_seq_eq_none (search_seq_eq_none
    (search_seq_eq_none h))))

theorem avoids_padded {x : Char} (hx : x.toNat < 128) (hsym : x.isAlpha = false)
    (hspace : isSpace x = false) (hname : x ∉ name) : Avoids x (padded py name) :=
  ⟨hspace, avoids_same hx hsym hname, hspace⟩

theorem groups_matchAt_close (hr : Begins r) (he : '<' ∉ e.tag.name ++ e.space) :
    (matchAt (.seq (lit ignoreCase "</bridgehead>".toList) (.seq (.lazy dot) r))
      ((Mark.stop e).text ++ t)).map Match.groups =
      if fullmatch (lit ignoreCase "</bridgehead".toList) (upto (Mark.stop e).text) then
        (search r t).map Match.groups else none := by
  have hpast : '<' ∉ past (Mark.stop e).text :=
    lt_notMem_past (s := '/' :: e.tag.name ++ e.space ++ ['>']) (by simpa using he)
  rw [show "</bridgehead>".toList = "</bridgehead".toList ++ ['>'] from rfl, matchAt_lit_split,
    groups_matchAt_upto (avoids_lit (by decide)) (by simp [Mark.text]), groups_gap,
    search_append (hr.still_of_notMem hpast)]

/-- The name and the end tag of a heading, where a heading has content up to its first
    markup only. -/
theorem groups_matchAt_padded (hr : Begins r) (hlt : '<' ∉ name) (hgt : '>' ∉ name)
    (he : '<' ∉ e.tag.text) (hstop : '<' ∉ e.tag.name ++ e.space)
    (hinner : '<' ∉ render e.inner ∨
      ∃ u v, render e.inner = u ++ '<' :: v ∧ '<' ∉ u ∧ v.head? ≠ some '/') :
    (matchAt (.seq (padded py name) (.seq (lit ignoreCase "</bridgehead>".toList)
      (.seq (.lazy dot) r))) (past (Mark.start e).text ++
        (render e.inner ++ ((Mark.stop e).text ++ t)))).map Match.groups =
      if '>' ∉ e.tag.text ∧ fullmatch (padded py name) (render e.inner) ∧
        fullmatch (lit ignoreCase "</bridgehead".toList) (upto (Mark.stop e).text) then
        (search r t).map Match.groups else none := by
  have hpad : Avoids '<' (padded py name) := avoids_padded (by decide) rfl rfl hlt
  have hpast := lt_notMem_past_start he
  have hclose (q : Regex) (c : Char) (s : Str) (hc : c ≠ '<') :
      matchAt (.seq (lit ignoreCase "</bridgehead>".toList) q) (c :: s) = none := by
    rw [show "</bridgehead>".toList = '<' :: "/bridgehead>".toList from rfl, matchAt_lit_cons,
      if_neg fun h => hc (ignoreCase_symbol rfl h)]
  rcases hinner with hinner | ⟨u, v, hinner, hu, hv⟩
  · -- The end tag of the heading is the first markup in it.
    have hstart : past (Mark.start e).text ++ (render e.inner ++ ((Mark.stop e).text ++ t)) =
        (past (Mark.start e).text ++ render e.inner) ++
          '<' :: ('/' :: e.tag.name ++ e.space ++ ['>'] ++ t) := by
      rw [List.append_assoc]
      rfl
    rw [hstart, matchAt_stop hpad (hclose _) (List.not_mem_append hpast hinner), apply_ite
      (Option.map Match.groups), groups_after]
    have hstopText := groups_matchAt_close (t := t) hr hstop
    rw [show (Mark.stop e).text ++ t = '<' :: ('/' :: e.tag.name ++ e.space ++ ['>'] ++ t) from rfl]
      at hstopText
    rw [hstopText]
    by_cases hmem : '>' ∈ e.tag.text
    · -- What is left of the tag is not a part of the name.
      rw [fullmatch_eq_false (avoids_padded (by decide) rfl rfl hgt)
        (List.mem_append_left _ (gt_mem_past_start hmem)), if_neg (by simp),
        if_neg (by simp [hmem])]
      rfl
    · rw [past_start hmem, List.nil_append, Option.map_none]
      simp only [hmem, not_false_eq_true, true_and, ite_and]
  · -- Some other markup comes first.
    have hstart : past (Mark.start e).text ++ (render e.inner ++ ((Mark.stop e).text ++ t)) =
        (past (Mark.start e).text ++ u) ++ '<' :: (v ++ ((Mark.stop e).text ++ t)) := by
      rw [hinner]
      simp
    have hnone : matchAt (.seq (lit ignoreCase "</bridgehead>".toList) (.seq (.lazy dot) r))
        ('<' :: (v ++ ((Mark.stop e).text ++ t))) = none := by
      rw [show "</bridgehead>".toList = '<' :: '/' :: "bridgehead>".toList from rfl,
        matchAt_lit_cons, if_pos (ignoreCase_refl _)]
      cases v with
      | nil =>
        rw [List.nil_append, show (Mark.stop e).text ++ t =
          '<' :: ('/' :: e.tag.name ++ e.space ++ ['>'] ++ t) from rfl, matchAt_lit_cons,
          if_neg (by decide)]
        rfl
      | cons c v =>
        rw [List.cons_append, matchAt_lit_cons, if_neg fun h => hv
          (congrArg some (ignoreCase_symbol rfl h))]
        rfl
    have hfalse : fullmatch (padded py name) (render e.inner) = false :=
      fullmatch_eq_false hpad (hinner ▸ by simp)
    rw [hstart, matchAt_stop hpad (hclose _) (List.not_mem_append hpast hu), hnone, Option.map_none,
      ite_self, hfalse, if_neg (by simp)]
    rfl

theorem groups_matchAt_sectionRegex (hlt : '<' ∉ name) (hgt : '>' ∉ name)
    (he : '<' ∉ e.tag.text) (hstop : '<' ∉ e.tag.name ++ e.space)
    (hinner : '<' ∉ render e.inner ∨
      ∃ u v, render e.inner = u ++ '<' :: v ∧ '<' ∉ u ∧ v.head? ≠ some '/') :
    (matchAt (sectionRegex py name)
      ((Mark.start e).text ++ (render e.inner ++ ((Mark.stop e).text ++ t)))).map Match.groups =
      if isWrittenHeading py name e then (search (listRegex py name) t).map Match.groups
      else none := by
  have havoids : Avoids '>' headingTag := ⟨avoids_lit (by decide), rfl⟩
  rw [sectionRegex_eq, groups_matchAt_upto havoids gt_mem_start,
    groups_matchAt_padded begins_listRegex hlt hgt he hstop hinner, ← ite_and]
  refine if_congr ?_ rfl rfl
  simp [isWrittenHeading, opens, and_assoc]

/-- The pattern of the fallback finds in the text of a document what `writtenSeg?` finds in
    its elements. -/
theorem search_sectionRegex (py : Python) (h : BookFormat doc) (hlt : '<' ∉ name) (hgt : '>' ∉ name)
    (hms : ms <:+ marks doc) :
    (search (sectionRegex py name) (written ms)).map Match.groups =
      ((after (isOwnList py name) (after (isWrittenHeading py name) (opened ms))).find?
        isWrittenSeg).map fun seg => [render seg.inner] := by
  induction ms with
  | nil => rfl
  | cons m ms ih =>
    have hsuffix := (List.suffix_cons m ms).trans hms
    have ih := ih hsuffix
    rcases (h m (hms.subset List.mem_cons_self)).cases with ⟨e, rfl, he, -⟩ | ⟨hm, hstill⟩
    · obtain ⟨rest, hrest⟩ := marks_of_start hms
      have hwritten : written ms = render e.inner ++ ((Mark.stop e).text ++ written rest) := by
        rw [hrest, written, List.flatMap_append, List.flatMap_cons]
        rfl
      have hmem : ∀ m ∈ marks e.inner, m ∈ marks doc := fun m hm =>
        hsuffix.subset (hrest ▸ List.mem_append_left _ hm)
      have hstop : Mark.stop e ∈ marks doc :=
        hsuffix.subset (hrest ▸ List.mem_append_right _ List.mem_cons_self)
      have hinner := render_cases (fun m hm => (h m (hmem m hm)).wellFormed)
        fun m hm => (h m (hmem m hm)).stops
      rw [groups_search_start begins_sectionRegex he, written_cons, hwritten,
        groups_matchAt_sectionRegex hlt hgt he (h _ hstop).wellFormed hinner, opened_start,
        after_cons]
      split
      · next hheading =>
        -- There is no list in a heading that is just a name.
        have hplain : '<' ∉ render e.inner := by
          intro hmem
          have hpad : Avoids '<' (padded py name) := avoids_padded (by decide) rfl rfl hlt
          simp [isWrittenHeading, fullmatch_eq_false hpad hmem] at hheading
        obtain ⟨-, hstill⟩ := (h _ hstop).cases.resolve_left (by simp)
        have hskip : search (listRegex py name) (written ms) =
            search (listRegex py name) (written rest) := by
          rw [hwritten, search_append (begins_listRegex.still_of_notMem hplain),
            search_append (hstill _ _ begins_listRegex)]
        rw [← hwritten, ← hskip, groups_or search_sectionRegex_eq_none,
          search_listRegex h hgt hsuffix]
      · rw [← hwritten, Option.none_or, ih]
    · rw [written_cons, search_append (hstill _ _ begins_sectionRegex), ih, opened_cons hm]

end

end LfsBuilder
