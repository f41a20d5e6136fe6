import LfsBuilder.Parsers.DependencyNames
import LfsBuilder.Parsers.SectionSearch

/-!
# Two readings of the dependencies

When the fallback of `resolve_dependencies` and BeautifulSoup agree on a document in
the format of the book. The one returns a text as it is written, the other decodes it.

* `splitDeps_getText_iff`: a content gives the same names as it is written and as it is
  read just if there is no markup and no reference in it;
* `resolveDependencies_agree_iff`: on which packages the two agree (`Agree`);
* `bookFormat_appendix`: documents that are made of sections are in the format.
-/

namespace LfsBuilder

open Text Backtracking Markup

/-! ## Names in a text -/

section

variable {letters : Letters} {decode : Str → Str} {c c' : Content} {ms : List Mark} {x : Char}
  {s : Str}

theorem count_flatten_map {f : Str → Str} (hf : ∀ l, (f l).count x = l.count x) (ls : List Str) :
    (ls.map f).flatten.count x = ls.flatten.count x := by
  induction ls with
  | nil => rfl
  | cons l ls ih => rw [List.map_cons, List.flatten_cons, List.flatten_cons, List.count_append,
      List.count_append, hf, ih]

theorem count_flatten_filter {p : Str → Bool} (hp : ∀ l, x ∈ l → p l) (ls : List Str) :
    (ls.filter p).flatten.count x = ls.flatten.count x := by
  induction ls with
  | nil => rfl
  | cons l ls ih =>
    rw [List.filter_cons, List.flatten_cons, List.count_append]
    split
    · rw [List.flatten_cons, List.count_append, ih]
    · next hl => rw [ih, List.count_eq_zero_of_not_mem fun hx => hl (hp l hx), Nat.zero_add]

theorem matchAt_andPattern_ne_nil {m : Match} (h : matchAt andPattern s = some m) :
    m.text ≠ [] := by
  cases s with
  | nil => cases h
  | cons d s =>
    rw [andPattern, matchAt_char] at h
    split at h
    · obtain ⟨m', _, rfl⟩ := Option.map_eq_some_iff.1 h
      exact List.cons_ne_nil _ _
    · cases h

/-- The characters of markup and of references. -/
def markup : Str := "<&;".toList

/-- Such a character is in the names of a text as often as in the text. -/
theorem count_splitDeps (hx : x ∈ markup) : (splitDeps letters s).flatten.count x = s.count x := by
  obtain ⟨hascii, halpha, hspace, hand, hnone, hrepl, hcomma, hdot⟩ :
      x.toNat < 128 ∧ x.isAlpha = false ∧ isSpace x = false ∧
        (∀ a ∈ "and".toList, (a == x) = false) ∧ x ∉ "none".toList ∧ x ∉ ", ".toList ∧
        x ≠ ',' ∧ x ∉ ['.'] := by
    revert x
    decide
  have havoids : Avoids x andPattern := ⟨hspace, hspace, avoids_lit hand, hspace, hspace⟩
  have hkeep (d : Str) (hd : x ∈ d) :
      (strip d ≠ [] && letters.lower (strip d) ≠ "none".toList) = true := by
    have hstrip : x ∈ strip d := by
      rwa [← List.count_pos_iff, count_strip hspace, List.count_pos_iff]
    have hlower := (letters.mem_lower (strip d) x hascii halpha).2 hstrip
    simp only [Bool.and_eq_true, decide_eq_true_eq]
    exact ⟨List.ne_nil_of_mem hstrip, fun h => hnone (h ▸ hlower)⟩
  rw [splitDeps, count_flatten_map fun d => by rw [count_rstrip hdot, count_strip hspace],
    count_flatten_filter hkeep, count_splitOn hcomma, sub,
    count_subFrom havoids hrepl (fun _ _ => matchAt_andPattern_ne_nil), List.drop_zero]

/-- How much markup there may be in a text. -/
def weight (s : Str) : ℕ := s.count '<' + s.count '&' + s.count ';'

theorem weight_splitDeps : weight (splitDeps letters s).flatten = weight s := by
  rw [weight, count_splitDeps (by decide), count_splitDeps (by decide), count_splitDeps (by decide)]
  rfl

/-- The references of a document are resolved: what they stand for has fewer such
    characters than they have. -/
def Resolves (decode : Str → Str) (doc : Content) : Prop :=
  ∀ raw, .data raw ∈ marks doc → '&' ∈ raw → weight (decode raw) < weight raw

/-- A content without markup and references, as it is written. -/
def Plain (c : Content) : Prop := '<' ∉ render c ∧ '&' ∉ render c

instance (c : Content) : Decidable (Plain c) := inferInstanceAs (Decidable (_ ∧ _))

theorem weight_append (s t : Str) : weight (s ++ t) = weight s + weight t := by
  simp only [weight, List.count_append]
  omega

/-- What a mark adds to a text has no more markup than the mark, and less if it has any. -/
theorem weight_chars {m : Mark} (hd : DecodesReferences decode) (hm : m.WellFormed)
    (hr : ∀ raw, m = .data raw → '&' ∈ raw → weight (decode raw) < weight raw) :
    weight (m.chars decode) ≤ weight m.text ∧
      ('<' ∈ m.text ∨ '&' ∈ m.text → weight (m.chars decode) < weight m.text) := by
  by_cases hdata : ∃ raw, m = .data raw
  · obtain ⟨raw, rfl⟩ := hdata
    by_cases hamp : '&' ∈ raw
    · exact ⟨(hr raw rfl hamp).le, fun _ => hr raw rfl hamp⟩
    · have hraw : decode raw = raw := by simpa [hd.nil] using hd.append (u := raw) (s := []) hamp
      exact ⟨(congrArg weight hraw).le, fun h => absurd h (not_or.2 ⟨hm, hamp⟩)⟩
  · obtain ⟨s, hs⟩ := hm.text_cases.resolve_left hdata
    have hchars : m.chars decode = [] := by
      cases m with
      | data raw => exact absurd ⟨raw, rfl⟩ hdata
      | _ => rfl
    have hlt : 0 < weight m.text := by
      rw [hs]
      simp only [weight, List.count_cons_self]
      omega
    rw [hchars]
    exact ⟨hlt.le, fun _ => hlt⟩

/-- Decoding a content that is not plain takes some of its markup away. -/
theorem weight_getText (hd : DecodesReferences decode) (hwf : ∀ m ∈ ms, m.WellFormed)
    (hr : ∀ raw, .data raw ∈ ms → '&' ∈ raw → weight (decode raw) < weight raw) :
    weight (ms.flatMap (Mark.chars decode)) ≤ weight (written ms) ∧
      ('<' ∈ written ms ∨ '&' ∈ written ms →
        weight (ms.flatMap (Mark.chars decode)) < weight (written ms)) := by
  induction ms with
  | nil => simp [written]
  | cons m ms ih =>
    obtain ⟨hm, hms⟩ := List.forall_mem_cons.1 hwf
    obtain ⟨hle, hlt⟩ := ih hms fun raw h => hr raw (List.mem_cons_of_mem _ h)
    obtain ⟨hle', hlt'⟩ := weight_chars hd hm fun raw h => hr raw (h ▸ List.mem_cons_self)
    rw [written_cons, List.flatMap_cons, weight_append, weight_append, List.mem_append,
      List.mem_append]
    refine ⟨Nat.add_le_add hle' hle, ?_⟩
    rintro ((h | h) | (h | h))
    · exact Nat.add_lt_add_of_lt_of_le (hlt' (.inl h)) hle
    · exact Nat.add_lt_add_of_le_of_lt hle' (hlt (.inl h))
    · exact Nat.add_lt_add_of_lt_of_le (hlt' (.inr h)) hle
    · exact Nat.add_lt_add_of_le_of_lt hle' (hlt (.inr h))

theorem weight_of_blank (hs : Blank s) : weight s = 0 := by
  have hcount {x : Char} (hx : isSpace x = false) : s.count x = 0 :=
    List.count_eq_zero_of_not_mem (notMem_of_blank hx hs)
  rw [weight, hcount rfl, hcount rfl, hcount rfl]

theorem getText_data (raw : Str) (rest : Content) :
    getText decode (.data raw rest) = decode raw ++ getText decode rest := rfl

theorem getText_element (tag : Tag) (inner : Content) (space : Str) (rest : Content) :
    getText decode (.element tag inner space rest) =
      getText decode inner ++ getText decode rest := by
  simp [getText, marks, Mark.chars]

/-- The markup in a text does not depend on how white space is read. -/
theorem weight_of_readAs (h : ReadAs decode c c') :
    weight (getText decode c') = weight (getText decode c) := by
  induction h with
  | nil => rfl
  | data raw _ ih => rw [getText_data, getText_data, weight_append, weight_append, ih]
  | blank hraw hraw' _ ih =>
    rw [getText_data, getText_data, weight_append, weight_append, ih, weight_of_blank hraw,
      weight_of_blank hraw']
  | dropped hraw _ ih => rw [ih, getText_data, weight_append, weight_of_blank hraw, Nat.zero_add]
  | comment raw _ ih => exact ih
  | element tag space _ _ ihi ih =>
    rw [getText_element, getText_element, weight_append, weight_append, ihi, ih]
  | empty tag _ ih => exact ih

theorem splitDeps_of_blank (letters : Letters) (hs : Blank s) : splitDeps letters s = [] := by
  have hsub : sub andPattern ", ".toList s = s := by
    have h := sub_append ", ".toList (still_of_blank hs)
    rwa [List.append_nil, show sub andPattern ", ".toList [] = [] from rfl,
      List.append_nil] at h
  rw [splitDeps, hsub, List.splitOn_eq_singleton (notMem_of_blank rfl hs)]
  simp [strip_of_blank hs]

/-- The names in a content, as it is written and as it is read, are the same just if it is
    plain. -/
theorem splitDeps_getText_iff (letters : Letters) (hd : DecodesReferences decode)
    (hwf : c.WellFormed) (hj : c.Joined) (hr : Resolves decode c) (hread : ReadAs decode c c') :
    splitDeps letters (render c) = splitDeps letters (getText decode c') ↔ Plain c := by
  refine ⟨fun h => ?_, fun h => ?_⟩
  · have hweight : weight (render c) = weight (getText decode c) := by
      rw [← weight_of_readAs hread, ← weight_splitDeps, h, weight_splitDeps]
    obtain ⟨-, hlt⟩ := weight_getText hd hwf hr
    exact not_or.1 fun hmarkup => (hlt hmarkup).ne' hweight
  · by_cases hblank : Blank (render c)
    · rw [splitDeps_of_blank letters hblank,
        splitDeps_of_blank letters (hread.blank_getText hd hwf hblank)]
    · obtain ⟨z, hz, hnil⟩ := hread.getText_eq hd hwf hj (List.append_nil (render c)).symm h.1 h.2
        hblank
      rw [hz, hnil rfl, List.append_nil]

end

/-! ## The two readings of a document -/

/-- The names in a text, if there is one. -/
def listNames (letters : Letters) (text : Option Str) : List Str :=
  text.elim [] (splitDeps letters)

/-- When what the fallback comes to and the `seg` that BeautifulSoup comes to give the same
    names: where only one of them comes to a list, that names nothing; a `seg` that both
    come to is plain; and two lists that are not the same give the same names. -/
def SameNames (letters : Letters) (soup : Soup) : Found → (read : Option Element) → Prop
  | .nothing, none => True
  | .nothing, some seg' => splitDeps letters (soup.text seg') = []
  | .seg seg, none => splitDeps letters (render seg.inner) = []
  | .seg seg, some seg' =>
    ReadAs soup.decode seg.inner seg'.inner ∧ Plain seg.inner ∨
      ¬ReadAs soup.decode seg.inner seg'.inner ∧
        splitDeps letters (render seg.inner) = splitDeps letters (soup.text seg')
  | .text text, none => splitDeps letters text = []
  | .text text, some seg' => splitDeps letters text = splitDeps letters (soup.text seg')

/-- When the fallback and BeautifulSoup agree on a document, which is read as `read`. -/
def Agree (py : Python) (soup : Soup) (name : Str) (read doc : Content) : Prop :=
  ∃ f, found py name doc = .ok f ∧
    SameNames py.letters soup f (readSeg? py.letters soup name read)

section

variable {py : Python} {soup : Soup} {doc : Content} {name : Str} {e : Element} {ms : List Mark}
  {n : ℕ}

theorem resolveDependencies_soup (name text : Str) :
    resolveDependencies py (some soup) name (some text) =
      .ok (listNames py.letters
        ((readSeg? py.letters soup name (soup.parse text)).map soup.text)) := by
  rw [resolveDependencies, readSeg?, after]
  cases (elements (soup.parse text)).dropWhile fun b => !isBridge py.letters soup name b with
  | nil => rfl
  | cons b next =>
    dsimp only [List.tail_cons]
    cases next.find? (isDependsList soup) with
    | none => rfl
    | some seglist =>
      dsimp only [Option.bind_some]
      cases (elements seglist.inner).find? (soup.named "seg".toList) <;> rfl

theorem resolveDependencies_fallback (name text : Str) :
    resolveDependencies py none name (some text) =
      (searchSection py name text).map (listNames py.letters) := by
  rw [resolveDependencies]
  cases searchSection py name text with
  | error e => rfl
  | ok text => cases text <;> rfl

/-! ### The `seg` of the fallback -/

theorem start_of_writtenSeg? (h : writtenSeg? py name doc = some e) : .start e ∈ marks doc := by
  have hafter (p : Element → Bool) (es : List Element) : after p es ⊆ es := fun _ he =>
    (List.dropWhile_sublist _).subset (List.mem_of_mem_tail he)
  have hmem := hafter _ _ (hafter _ _ (List.mem_of_find?_eq_some h))
  obtain ⟨m, hm, hme⟩ := List.mem_filterMap.1 hmem
  cases m with
  | start e' => cases hme; exact hm
  | _ => cases hme

theorem start_of_segIn (h : segIn n ms = some e) : .start e ∈ ms := by
  induction ms with
  | nil => cases h
  | cons m ms ih =>
    rw [segIn] at h
    rcases Option.or_eq_some_iff.1 h with h | ⟨-, h⟩
    · obtain ⟨h, -⟩ := Option.filter_eq_some_iff.1 h
      cases m with
      | start e' => cases h; exact List.mem_cons_self
      | _ => cases h
    · exact List.mem_cons_of_mem m (ih h)

theorem start_of_found (h : found py name doc = .ok (.seg e)) : .start e ∈ marks doc := by
  rw [found] at h
  split at h
  · cases hseg : writtenSeg? py name doc with
    | none =>
      rw [hseg] at h
      cases h
    | some e' =>
      rw [hseg] at h
      cases h
      exact start_of_writtenSeg? hseg
  · obtain ⟨n, hn⟩ := segIn_of_foundByPattern h
    exact start_of_segIn hn

/-- The content of an element is a part of the document. -/
theorem infix_of_start (h : .start e ∈ marks doc) : marks e.inner <:+: marks doc := by
  obtain ⟨pre, ms, hms⟩ := List.append_of_mem h
  obtain ⟨rest, rfl⟩ := @marks_of_start e ms doc ⟨pre, hms.symm⟩
  exact ⟨pre ++ [.start e], .stop e :: rest, by simp [hms]⟩

/-- In a document in the format of the book, the fallback of `resolve_dependencies` and
    BeautifulSoup agree on a package just if the texts that they come to, as they are
    written and as they are read, name the same packages. -/
theorem resolveDependencies_agree_iff (h : BookFormat doc) (hjoined : doc.Joined)
    (hdecode : DecodesReferences soup.decode) (hresolves : Resolves soup.decode doc) (name : Str) :
    resolveDependencies py none name (some (render doc)) =
        resolveDependencies py (some soup) name (some (render doc)) ↔
      Agree py soup name (soup.parse (render doc)) doc := by
  rw [resolveDependencies_fallback, searchSection_found h, resolveDependencies_soup, Agree]
  cases hfound : found py name doc with
  | error e => exact iff_of_false (fun h => by cases h) fun ⟨f, hf, _⟩ => by cases hf
  | ok f =>
    have hagree : (∃ f', Except.ok f = (Except.ok f' : Except LookupError Found) ∧
        SameNames py.letters soup f' (readSeg? py.letters soup name (soup.parse (render doc)))) ↔
        SameNames py.letters soup f (readSeg? py.letters soup name (soup.parse (render doc))) :=
      ⟨fun ⟨f', hf', hsame⟩ => by cases hf'; exact hsame, fun hsame => ⟨f, rfl, hsame⟩⟩
    rw [hagree, Except.map, Except.map, Except.ok.injEq]
    cases hr : readSeg? py.letters soup name (soup.parse (render doc)) with
    | none =>
      cases f with
      | nothing => exact iff_of_true rfl trivial
      | seg seg => exact Iff.rfl
      | text text => exact Iff.rfl
    | some seg' =>
      cases f with
      | nothing => exact eq_comm
      | text text => exact Iff.rfl
      | seg seg =>
        by_cases hread : ReadAs soup.decode seg.inner seg'.inner
        · have hinner := infix_of_start (start_of_found hfound)
          have hplain := splitDeps_getText_iff py.letters hdecode
            (fun m hm => (h m (hinner.subset hm)).wellFormed) (hjoined.of_infix hinner)
            (fun raw hraw => hresolves raw (hinner.subset hraw)) hread
          refine hplain.trans ?_
          simp [SameNames, hread]
        · simp [SameNames, hread, Found.text?, listNames]

end

/-- A parser that reads every text as the document `doc`, as BeautifulSoup reads the text
    of `doc` as XML. -/
def xmlSoup (doc : Content) : Soup where
  parse _ := doc
  decode := decodeXml
  fold := id

/-! ## Sections -/

/-- A list of the book, with its title before its `seg`, and a gap behind it. -/
structure SegList where
  attrs : List Attr
  title : Content := .nil
  seg : Content
  gap : Content := .data ['\n'] .nil

/-- A section of the book: the name of a package, and its lists. -/
structure BookSection where
  attrs : List Attr := []
  name : Content
  gap : Content := .data ['\n'] .nil
  lists : List SegList

def SegList.content (l : SegList) (rest : Content) : Content :=
  .element { name := "segmentedlist".toList, attrs := l.attrs }
    (l.title.append <| .element { name := "seglistitem".toList }
      (.element { name := "seg".toList } l.seg [] .nil) [] .nil) [] (l.gap.append rest)

def BookSection.content (s : BookSection) (rest : Content) : Content :=
  .element { name := "bridgehead".toList, attrs := s.attrs } s.name [] <|
    s.gap.append (s.lists.foldr SegList.content rest)

/-- Sections one after the other. -/
def sections (ss : List BookSection) : Content := ss.foldr BookSection.content .nil

/-- A document of sections. -/
def appendix (ss : List BookSection) : Content :=
  .element { name := "appendix".toList } (sections ss) [] .nil

/-- The element for the `seg` of a list. -/
def SegList.element (l : SegList) : Element := ⟨{ name := "seg".toList }, l.seg, []⟩

/-- The parts of a list are in the format of the book, and the first end tag of a `seg` in
    it is that of its own. -/
structure SegList.WellFormed (l : SegList) : Prop where
  attrs : '<' ∉ l.attrs.flatMap Attr.text
  title : BookFormat l.title
  seg : BookFormat l.seg
  simple : Simple l.element
  gap : BookFormat l.gap

structure BookSection.WellFormed (s : BookSection) : Prop where
  attrs : '<' ∉ s.attrs.flatMap Attr.text
  name : BookFormat s.name
  gap : BookFormat s.gap
  lists : ∀ l ∈ s.lists, l.WellFormed

section

variable {raw space : Str} {tag : Tag} {inner c d rest : Content}

theorem exists_of_mem_beginnings {w : Str} (hw : w ∈ beginnings) :
    ∃ a w', w = '<' :: a :: w' ∧ ignoreCase a '/' = false := by
  simp only [beginnings, List.mem_cons, List.not_mem_nil, or_false] at hw
  rcases hw with rfl | rfl | rfl <;> exact ⟨_, _, rfl, by decide⟩

theorem quiet_of_notMem (h : '<' ∉ raw) : Quiet raw := by
  intro v hv w hw
  obtain ⟨a, w, rfl, -⟩ := exists_of_mem_beginnings hw
  cases v with
  | nil => rfl
  | cons x v =>
    rw [matchAt_lit_end, if_neg fun hx => h ?_]
    exact ((List.mem_tails _ _).1 hv).subset (ignoreCase_symbol rfl hx ▸ List.mem_cons_self)

theorem quiet_stop {e : Element} (h : '<' ∉ e.tag.name ++ e.space) : Quiet (Mark.stop e).text := by
  intro v hv w hw
  rcases List.suffix_cons_iff.1 ((List.mem_tails _ _).1 hv) with rfl | hv
  · obtain ⟨a, w, rfl, ha⟩ := exists_of_mem_beginnings hw
    rw [matchAt_lit_end, if_pos (ignoreCase_refl _)]
    exact Option.map_eq_none_iff.2 (matchAt_lit_end.trans (if_neg (by simp [ha])))
  · refine quiet_of_notMem ?_ v ((List.mem_tails _ _).2 hv) w hw
    simpa using h

theorem bookFormat_nil : BookFormat .nil := fun _ hm => absurd hm List.not_mem_nil

theorem bookFormat_data (hraw : '<' ∉ raw) (h : BookFormat rest) : BookFormat (.data raw rest) := by
  refine List.forall_mem_cons.2 ⟨⟨hraw, fun htake => ?_, .inr (quiet_of_notMem hraw), nofun⟩, h⟩
  have hmem : '<' ∈ raw.take 2 := by
    rw [show raw.take 2 = "</".toList from htake]
    decide
  exact absurd (List.mem_of_mem_take hmem) hraw

theorem BookFormat.append (hc : BookFormat c) (hd : BookFormat d) : BookFormat (c.append d) := by
  rw [BookFormat, marks_append]
  exact List.forall_mem_append.2 ⟨hc, hd⟩

theorem bookFormat_element (name : Str) (attrs : List Attr) (hname : '<' ∉ name)
    (hhead : ∃ a n, name = a :: n ∧ a ≠ '/') (hattrs : '<' ∉ attrs.flatMap Attr.text)
    (hseg : isWrittenSeg ⟨{ name, attrs }, inner, []⟩ → Simple ⟨{ name, attrs }, inner, []⟩)
    (hinner : BookFormat inner) (h : BookFormat rest) :
    BookFormat (.element { name, attrs } inner [] rest) := by
  have hstart : InBook (.start ⟨{ name, attrs }, inner, []⟩) := by
    refine ⟨?_, fun htake => ?_, .inl ⟨_, rfl⟩, fun e he => by cases he; exact hseg⟩
    · exact List.not_mem_append (List.not_mem_append hname hattrs) List.not_mem_nil
    · obtain ⟨a, n, rfl, ha⟩ := hhead
      cases htake
      exact absurd rfl ha
  have hstop : InBook (.stop ⟨{ name, attrs }, inner, []⟩) := by
    have hlt : '<' ∉ name ++ [] := List.not_mem_append hname List.not_mem_nil
    exact ⟨hlt, fun _ => ⟨_, rfl⟩, .inr (quiet_stop hlt), nofun⟩
  rw [BookFormat, marks, List.cons_append, List.forall_mem_cons]
  exact ⟨hstart, List.forall_mem_append.2 ⟨hinner, List.forall_mem_cons.2 ⟨hstop, h⟩⟩⟩

theorem SegList.WellFormed.bookFormat {l : SegList} (hl : l.WellFormed) (h : BookFormat rest) :
    BookFormat (l.content rest) := by
  have hseg := bookFormat_element "seg".toList [] (by decide)
    ⟨_, _, rfl, by decide⟩ List.not_mem_nil (fun _ => hl.simple) hl.seg bookFormat_nil
  have hitem := bookFormat_element "seglistitem".toList [] (by decide)
    ⟨_, _, rfl, by decide⟩ List.not_mem_nil nofun hseg bookFormat_nil
  exact bookFormat_element _ _ (by decide) ⟨_, _, rfl, by decide⟩ hl.attrs nofun
    (hl.title.append hitem) (hl.gap.append h)

theorem bookFormat_sections {ss : List BookSection} (h : ∀ s ∈ ss, s.WellFormed) :
    BookFormat (sections ss) := by
  induction ss with
  | nil => exact bookFormat_nil
  | cons s ss ih =>
    obtain ⟨hs, hss⟩ := List.forall_mem_cons.1 h
    have hlists : ∀ ls : List SegList, (∀ l ∈ ls, l.WellFormed) →
        BookFormat (ls.foldr SegList.content (sections ss)) := by
      intro ls hls
      induction ls with
      | nil => exact ih hss
      | cons l ls ih =>
        obtain ⟨hl, hls⟩ := List.forall_mem_cons.1 hls
        exact hl.bookFormat (ih hls)
    exact bookFormat_element _ _ (by decide) ⟨_, _, rfl, by decide⟩ hs.attrs nofun hs.name
      (hs.gap.append (hlists s.lists hs.lists))

/-- A document of sections, each with the name of a package and any number of lists, is in
    the format of the book. -/
theorem bookFormat_appendix {ss : List BookSection} (h : ∀ s ∈ ss, s.WellFormed) :
    BookFormat (appendix ss) :=
  bookFormat_element _ _ (by decide) ⟨_, _, rfl, by decide⟩ List.not_mem_nil nofun
    (bookFormat_sections h) bookFormat_nil

end

/-- A section with a plain name and a single list of packages. -/
def plainSection (name id deps : String) : BookSection where
  name := .data name.toList .nil
  lists :=
    [{ attrs := [⟨[' '], "id".toList, ['='], '"', id.toList⟩], seg := .data deps.toList .nil }]

/-- The sections of the book for Attr and for D-Bus, shortened. -/
def book : List BookSection :=
  [plainSection "Attr" "attr-depends" "Bash, Binutils, and Texinfo",
    plainSection "D-Bus" "dbus-depends" "Bash, Binutils, and Util-linux"]

theorem wellFormed_book : ∀ s ∈ book, s.WellFormed := by
  have hplain (name id deps : String) (hname : '<' ∉ name.toList)
      (hid : '<' ∉ (⟨[' '], "id".toList, ['='], '"', id.toList⟩ : Attr).text)
      (hdeps : '<' ∉ deps.toList)
      (hsimple : Simple ⟨{ name := "seg".toList }, .data deps.toList .nil, []⟩) :
      (plainSection name id deps).WellFormed := by
    have hgap : BookFormat (.data ['\n'] .nil) := bookFormat_data (by decide) bookFormat_nil
    refine ⟨List.not_mem_nil, bookFormat_data hname bookFormat_nil, hgap, ?_⟩
    refine List.forall_mem_singleton.2 ⟨?_, bookFormat_nil, bookFormat_data hdeps bookFormat_nil,
      hsimple, hgap⟩
    simpa using hid
  refine List.forall_mem_cons.2 ⟨?_, List.forall_mem_singleton.2 ?_⟩
  · exact hplain _ _ _ (by decide +kernel) (by decide +kernel) (by decide +kernel)
      ⟨by decide +kernel, by decide +kernel⟩
  · exact hplain _ _ _ (by decide +kernel) (by decide +kernel) (by decide +kernel)
      ⟨by decide +kernel, by decide +kernel⟩

theorem resolves_book : Resolves decodeXml (appendix book) := by
  have hno : ∀ m ∈ marks (appendix book), '&' ∉ m.text := by decide +kernel
  exact fun raw hraw hamp => absurd hamp (hno _ hraw)

/-- The `seg` for Attr. -/
def attrSeg : Element :=
  ⟨{ name := "seg".toList }, .data "Bash, Binutils, and Texinfo".toList .nil, []⟩

theorem resolveDependencies_agree_attr :
    resolveDependencies .ascii none "Attr".toList (some (render (appendix book))) =
      resolveDependencies .ascii (some (xmlSoup (appendix book))) "Attr".toList
        (some (render (appendix book))) := by
  have hwritten : writtenSeg? .ascii "Attr".toList (appendix book) = some attrSeg := by
    decide +kernel
  have hread : readSeg? Python.ascii.letters (xmlSoup (appendix book)) "Attr".toList
      (appendix book) = some attrSeg := by
    decide +kernel
  have hfound : found .ascii "Attr".toList (appendix book) = .ok (.seg attrSeg) := by
    rw [found, if_pos (by decide +kernel), hwritten]
    rfl
  have hsame : SameNames .ascii (xmlSoup (appendix book)) (.seg attrSeg) (some attrSeg) :=
    .inl ⟨.refl _, by decide +kernel⟩
  exact (resolveDependencies_agree_iff (bookFormat_appendix wellFormed_book) (by decide +kernel)
    decodesReferences_decodeXml resolves_book _).2 ⟨_, hfound, hread ▸ hsame⟩

theorem resolveDependencies_disagree :
    BookFormat (appendix book) ∧
    resolveDependencies .ascii (some (xmlSoup (appendix book))) "D-Bus".toList
      (some (render (appendix book))) =
        .ok ["Bash".toList, "Binutils".toList, "Util-linux".toList] ∧
    resolveDependencies .ascii none "D-Bus".toList (some (render (appendix book))) = .ok [] := by
  refine ⟨bookFormat_appendix wellFormed_book, by decide +kernel, ?_⟩
  rw [resolveDependencies_fallback, searchSection_of_plain (by decide)]
  decide +kernel

end LfsBuilder
