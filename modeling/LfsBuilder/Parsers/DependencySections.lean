import LfsBuilder.Parsers.DependencyReadings
import LfsBuilder.Parsers.DependencyResolver

/-!
# The section of a package

Whose list BeautifulSoup comes to from the heading of a package, in a document that is a
sequence of sections, each a heading with the lists that follow it (`IsSections`). The
search does not stop at the next heading.

* `resolveDependencies_own_iff`: when a package has the dependencies of its own section.
-/

namespace LfsBuilder

open Text Backtracking Markup

/-- A section: its `bridgehead`, and the `segmentedlist`s up to the next one. -/
structure ListSection where
  head : Element
  lists : List Element

/-- The elements that sections are made of. -/
def isHeadOrList (soup : Soup) (e : Element) : Bool :=
  soup.named "bridgehead".toList e || soup.named "segmentedlist".toList e

def ListSection.elements (s : ListSection) : List Element := s.head :: s.lists

/-- A document is a sequence of sections, whatever elements there are around their headings
    and lists, and in them. -/
structure IsSections (soup : Soup) (doc : Content) (ss : List ListSection) : Prop where
  filter_elements : (elements doc).filter (isHeadOrList soup) = ss.flatMap ListSection.elements
  head : ∀ s ∈ ss, soup.named "bridgehead".toList s.head = true
  lists : ∀ s ∈ ss, ∀ l ∈ s.lists, soup.named "segmentedlist".toList l = true

/-- The names in the `seg` of the first list with dependencies, if there is one. -/
def dependenciesIn (letters : Letters) (soup : Soup) (lists : List Element) : List Str :=
  listNames letters (((lists.find? (isDependsList soup)).bind fun l =>
    (elements l.inner).find? (soup.named "seg".toList)).map soup.text)

section

variable {py : Python} {letters : Letters} {soup : Soup} {doc : Content} {name text : Str}
  {ss post : List ListSection} {s : ListSection} {p q : Element → Bool} {es : List Element}

theorem filter_after (h : ∀ e, q e = true → p e = true) :
    (after q es).filter p = after q (es.filter p) := by
  rw [after, after]
  induction es with
  | nil => rfl
  | cons e es ih =>
    by_cases hq : q e = true
    · rw [List.filter_cons_of_pos (h e hq), List.dropWhile_cons_of_neg (by simp [hq]),
        List.dropWhile_cons_of_neg (by simp [hq])]
      rfl
    · rw [List.dropWhile_cons_of_pos (by simp [hq]), ih]
      by_cases hp : p e = true
      · rw [List.filter_cons_of_pos hp, List.dropWhile_cons_of_pos (by simp [hq])]
      · rw [List.filter_cons_of_neg hp]

theorem isHeadOrList_of_isBridge {e : Element} (h : isBridge letters soup name e = true) :
    isHeadOrList soup e = true := by
  rw [isBridge, Bool.and_eq_true] at h
  rw [isHeadOrList, h.1, Bool.true_or]

theorem isHeadOrList_of_isDependsList {e : Element} (h : isDependsList soup e = true) :
    isHeadOrList soup e = true := by
  rw [isDependsList, Bool.and_eq_true] at h
  rw [isHeadOrList, h.1, Bool.or_true]

theorem not_isBridge_of_list {e : Element} (h : soup.named "segmentedlist".toList e = true) :
    isBridge letters soup name e = false := by
  rw [isBridge, Bool.and_eq_false_iff]
  left
  rw [Soup.named, decide_eq_true_eq] at h
  rw [Soup.named, h]
  decide

/-- From the heading of a package on, there are the lists of its section, and then all later
    sections. -/
theorem after_sections
    (hlists : ∀ s ∈ ss, ∀ l ∈ s.lists, soup.named "segmentedlist".toList l = true)
    (h : ss.dropWhile (fun s => !isBridge letters soup name s.head) = s :: post) :
    after (isBridge letters soup name) (ss.flatMap ListSection.elements) =
      s.lists ++ post.flatMap ListSection.elements := by
  induction ss with
  | nil => cases h
  | cons t ss ih =>
    obtain ⟨ht, hss⟩ := List.forall_mem_cons.1 hlists
    rw [List.flatMap_cons, ListSection.elements, List.cons_append, after]
    by_cases hb : isBridge letters soup name t.head = true
    · rw [List.dropWhile_cons_of_neg (by simp [hb])] at h ⊢
      cases h
      rfl
    · rw [List.dropWhile_cons_of_pos (by simp [hb])] at h ⊢
      rw [List.dropWhile_append_of_pos fun l hl => by rw [not_isBridge_of_list (ht l hl)]; rfl]
      exact ih hss h

theorem find?_sections (hheads : ∀ s ∈ ss, soup.named "bridgehead".toList s.head = true) :
    (ss.flatMap ListSection.elements).find? (isDependsList soup) =
      (ss.flatMap ListSection.lists).find? (isDependsList soup) := by
  induction ss with
  | nil => rfl
  | cons t ss ih =>
    obtain ⟨ht, hss⟩ := List.forall_mem_cons.1 hheads
    have hhead : isDependsList soup t.head = false := by
      rw [Soup.named, decide_eq_true_eq] at ht
      rw [isDependsList, Soup.named, ht]
      rfl
    rw [List.flatMap_cons, List.flatMap_cons, List.find?_append, List.find?_append, ih hss,
      ListSection.elements, List.find?_cons_of_neg (by simp [hhead])]

/-- What BeautifulSoup returns for a package: the dependencies in the first list of its own
    section, or else of any later one. -/
theorem resolveDependencies_sections (hparse : soup.parse text = doc) (h : IsSections soup doc ss)
    (hs : ss.dropWhile (fun s => !isBridge py.letters soup name s.head) = s :: post) :
    resolveDependencies py (some soup) name (some text) =
      .ok (dependenciesIn py.letters soup (s.lists ++ post.flatMap ListSection.lists)) := by
  have hpost : ∀ t ∈ post, soup.named "bridgehead".toList t.head = true := fun t ht =>
    h.head t ((List.dropWhile_suffix _).subset (hs ▸ List.mem_cons_of_mem s ht))
  have hfind : (after (isBridge py.letters soup name) (elements doc)).find? (isDependsList soup) =
      (s.lists ++ post.flatMap ListSection.lists).find? (isDependsList soup) := by
    calc (after (isBridge py.letters soup name) (elements doc)).find? (isDependsList soup)
        = ((after (isBridge py.letters soup name) (elements doc)).filter (isHeadOrList soup)).find?
            (isDependsList soup) := by
          rw [List.find?_filter]
          refine List.find?_congr fun e _ => ?_
          by_cases he : isDependsList soup e = true
          · rw [he, isHeadOrList_of_isDependsList he]
            rfl
          · rw [Bool.not_eq_true] at he
            simp [he]
      _ = (s.lists ++ post.flatMap ListSection.elements).find? (isDependsList soup) := by
          rw [filter_after fun e => isHeadOrList_of_isBridge, h.filter_elements,
            after_sections h.lists hs]
      _ = (s.lists ++ post.flatMap ListSection.lists).find? (isDependsList soup) := by
          rw [List.find?_append, List.find?_append, find?_sections hpost]
  rw [resolveDependencies_soup, readSeg?, hparse, hfind, dependenciesIn]

theorem dependenciesIn_append_of_exists (letters : Letters) (ls' : List Element) {ls : List Element}
    (h : ∃ l ∈ ls, isDependsList soup l = true) :
    dependenciesIn letters soup (ls ++ ls') = dependenciesIn letters soup ls := by
  obtain ⟨l, hl⟩ := Option.isSome_iff_exists.1 (List.find?_isSome.2 h)
  rw [dependenciesIn, dependenciesIn, List.find?_append, hl, Option.some_or]

theorem dependenciesIn_append_of_forall (letters : Letters) (ls' : List Element) {ls : List Element}
    (h : ¬∃ l ∈ ls, isDependsList soup l = true) :
    dependenciesIn letters soup (ls ++ ls') = dependenciesIn letters soup ls' ∧
      dependenciesIn letters soup ls = [] := by
  have hnone : ls.find? (isDependsList soup) = none :=
    List.find?_eq_none.2 fun l hl hd => h ⟨l, hl, hd⟩
  rw [dependenciesIn, dependenciesIn, dependenciesIn, List.find?_append, hnone, Option.none_or]
  exact ⟨rfl, rfl⟩

/-- A package has the dependencies of its own section, by itself and in the graph, just if
    its section has a list of dependencies, or the first one of a later section has no
    names. -/
theorem resolveDependencies_own_iff (py : Python) (hparse : soup.parse text = doc)
    (h : IsSections soup doc ss)
    (hs : ss.dropWhile (fun s => !isBridge py.letters soup name s.head) = s :: post) :
    (resolveDependencies py (some soup) name (some text) =
        .ok (dependenciesIn py.letters soup s.lists) ∧
      ∀ packages graph, buildDependencyGraph py (some soup) packages (some text) = .ok graph →
        name ∈ packages → graph.get? name = some (dependenciesIn py.letters soup s.lists)) ↔
    (∃ l ∈ s.lists, isDependsList soup l = true) ∨
      dependenciesIn py.letters soup (post.flatMap ListSection.lists) = [] := by
  have hresolve := resolveDependencies_sections hparse h hs
  constructor
  · rintro ⟨hown, -⟩
    by_cases hl : ∃ l ∈ s.lists, isDependsList soup l = true
    · exact .inl hl
    · obtain ⟨hlater, hnone⟩ := dependenciesIn_append_of_forall py.letters
        (post.flatMap ListSection.lists) hl
      rw [hresolve, hlater, hnone] at hown
      exact .inr (Except.ok.inj hown)
  · intro hcond
    have hown : dependenciesIn py.letters soup (s.lists ++ post.flatMap ListSection.lists) =
        dependenciesIn py.letters soup s.lists := by
      by_cases hl : ∃ l ∈ s.lists, isDependsList soup l = true
      · exact dependenciesIn_append_of_exists _ _ hl
      · obtain ⟨hlater, hnone⟩ := dependenciesIn_append_of_forall _ _ hl
        rw [hlater, hnone]
        exact hcond.resolve_left hl
    rw [hown] at hresolve
    refine ⟨hresolve, fun packages graph hgraph hname => ?_⟩
    obtain ⟨hkeys, hlisted⟩ := buildDependencyGraph_ok hgraph
    have hentry := listed_eq_resolveDependencies py (some soup) (some text) name
    rw [hlisted name hname, hresolve] at hentry
    have hmem : name ∈ graph := by
      rw [Dict.mem_def, hkeys]
      exact Dict.mem_fromKeys.2 hname
    rw [Dict.get?_of_mem hmem [], Except.ok.inj hentry]

end

/-- The section of a document that a section of the book is. -/
def BookSection.listSection (s : BookSection) : ListSection where
  head := ⟨{ name := "bridgehead".toList, attrs := s.attrs }, s.name, []⟩
  lists := (elements (s.lists.foldr SegList.content .nil)).filter fun e =>
    e.tag.name = "segmentedlist".toList

theorem isSections_book :
    IsSections (xmlSoup (appendix book)) (appendix book) (book.map BookSection.listSection) :=
  ⟨by decide +kernel, by decide +kernel, by decide +kernel⟩

theorem resolveDependencies_own_attr :
    resolveDependencies .ascii (some (xmlSoup (appendix book))) "Attr".toList
      (some (render (appendix book))) =
        .ok ["Bash".toList, "Binutils".toList, "Texinfo".toList] := by
  have hparse : (xmlSoup (appendix book)).parse (render (appendix book)) = appendix book := rfl
  have hs : (book.map BookSection.listSection).dropWhile (fun s =>
      !isBridge Python.ascii.letters (xmlSoup (appendix book)) "Attr".toList s.head) =
        (plainSection "Attr" "attr-depends" "Bash, Binutils, and Texinfo").listSection ::
          [(plainSection "D-Bus" "dbus-depends"
            "Bash, Binutils, and Util-linux").listSection] := rfl
  have hown := (resolveDependencies_own_iff .ascii hparse isSections_book hs).2
    (.inl (by decide +kernel))
  rw [hown.1]
  decide +kernel

/-- A section without lists, before that of D-Bus. -/
def bareBook : List BookSection :=
  [{ name := .data "Attr".toList .nil, lists := [] },
    plainSection "D-Bus" "dbus-depends" "Bash, Binutils, and Util-linux"]

/-- A package without a list has the dependencies of D-Bus. -/
theorem resolveDependencies_foreign :
    IsSections (xmlSoup (appendix bareBook)) (appendix bareBook)
      (bareBook.map BookSection.listSection) ∧
    (bareBook.map BookSection.listSection).head?.map ListSection.lists = some [] ∧
    resolveDependencies .ascii (some (xmlSoup (appendix bareBook))) "Attr".toList
      (some (render (appendix bareBook))) =
        .ok ["Bash".toList, "Binutils".toList, "Util-linux".toList] :=
  ⟨⟨by decide +kernel, by decide +kernel, by decide +kernel⟩, rfl, by decide +kernel⟩

end LfsBuilder
