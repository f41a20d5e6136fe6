import LfsBuilder.Library.XmlTree

/-!
# Reading XML into a dictionary

`parse_xml` of `lfs_parser.py`, over the tree that lxml makes of a text (`Lxml`,
a parameter): a loop over all nodes inside the root stores what it finds in an
element under the local name of the element, and anything that goes wrong is
raised again as an `XMLParseError`.

* `parseXml_of_root`: what comes of a root; the first node that is no element
  ends the loop with an exception;
* `parseXml_total_iff`: a dictionary is returned for a root, and only then, if and
  only if there is no such node;
* `parseXml_keeps_iff`: what elements of one name have is kept if and only if they
  all have the same.
-/

namespace LfsBuilder.ParseXml

open Text Xml

/-- What `etree.fromstring` does with an encoded text, on a parser that recovers:
    it raises an `XMLSyntaxError` or another exception with a message, or it has
    the messages of its error log, and a root unless nothing could be recovered. -/
inductive Parsed
  | syntaxError (message : Str)
  | exception (message : Str)
  | document (root : Option Element) (errorLog : List Str)

/-- The library lxml: its parser, and what Python says about a membership test on the
    tag of a node that is no element. -/
structure Lxml where
  fromstring : Str → Parsed
  typeError : Kind → Str

/-- The levels of the messages that are logged. -/
inductive Severity
  | warning
  | error
  deriving DecidableEq

/-- What is stored for an element: its `attributes` and its `text`. -/
structure Stored where
  attributes : Dict Str Str
  text : Str

/-- What comes of a call: a dictionary, or the message of an `XMLParseError`, and what
    has been logged. -/
structure Outcome where
  result : Except Str (Dict Str Stored)
  log : List (Severity × Str)

/-- The tag without its namespace: `tag.split('}')[-1] if '}' in tag else tag` -/
def localName (tag : Str) : Str :=
  if '}' ∈ tag then ((tag.splitOn '}').getLast?).getD [] else tag

/-- `element.text.strip() if element.text else ""` -/
def strippedText (e : Element) : Str := (e.text.map strip).getD []

/-- `element.attrib or text` -/
def isStored (e : Element) : Bool := e.attrib.entries ≠ [] || strippedText e ≠ []

/-- What is stored for an element. -/
def entry (e : Element) : Stored := { attributes := e.attrib, text := strippedText e }

/-- The step of the loop for an element. -/
def store (result : Dict Str Stored) (e : Element) : Dict Str Stored :=
  if isStored e then result.set (localName e.tag) (entry e) else result

/-- The step of the loop. The tag of a node that is no element is no string. -/
def visit (lxml : Lxml) (result : Dict Str Stored) : Node → Except Str (Dict Str Stored)
  | .element e => .ok (store result e)
  | .other kind _ => .error (lxml.typeError kind)

/-- The clause for an exception that is not a syntax error. -/
def unexpected (message : Str) (log : List (Severity × Str)) : Outcome :=
  let errorMsg := "Unexpected error parsing XML: ".toList ++ message
  { result := .error errorMsg, log := log ++ [(.error, errorMsg)] }

/-- `parse_xml` -/
def parseXml (lxml : Lxml) (content : Str) : Outcome :=
  match lxml.fromstring content with
  | .syntaxError message =>
    let errorMsg := "Failed to parse XML: ".toList ++ message
    { result := .error errorMsg, log := [(.error, errorMsg)] }
  | .exception message => unexpected message []
  | .document root errorLog =>
    let warnings := errorLog.map fun message => (.warning, "XML parse warning: ".toList ++ message)
    match root with
    | none => unexpected "'NoneType' object has no attribute 'iter'".toList warnings
    | some root =>
      match root.iter.foldlM (visit lxml) .empty with
      | .ok result => { result := .ok result, log := warnings }
      | .error message => unexpected message warnings

/-! ## The loop -/

variable {lxml : Lxml} {content : Str} {root : Element}

/-- The first node that is no element ends the loop. -/
theorem foldlM_visit (nodes : List Node) (result : Dict Str Stored) :
    nodes.foldlM (visit lxml) result = match nodes.filterMap Node.kind? with
      | [] => .ok ((nodes.filterMap Node.element?).foldl store result)
      | kind :: _ => .error (lxml.typeError kind) := by
  induction nodes generalizing result with
  | nil => rfl
  | cons node nodes ih =>
    cases node with
    | element e => exact ih (store result e)
    | other kind _ => rfl

/-- The assignments that the loop makes for elements. -/
def assignments (es : List Element) : List (Str × Stored) :=
  (es.filter isStored).map fun e => (localName e.tag, entry e)

theorem foldl_store (es : List Element) (result : Dict Str Stored) :
    es.foldl store result = result.setAll (assignments es) := by
  induction es generalizing result with
  | nil => rfl
  | cons e es ih =>
    rw [List.foldl_cons, ih, assignments, assignments, store]
    by_cases he : isStored e
    · rw [if_pos he, List.filter_cons_of_pos he]
      rfl
    · rw [if_neg he, List.filter_cons_of_neg he]

/-- The parser yields the root `root`. -/
def Yields (lxml : Lxml) (content : Str) (root : Element) : Prop :=
  ∃ errorLog, lxml.fromstring content = .document (some root) errorLog

/-- What comes of a root. -/
theorem parseXml_of_root (h : Yields lxml content root) :
    (parseXml lxml content).result = match root.content.kinds with
      | [] => .ok (Dict.empty.setAll (assignments root.elements))
      | kind :: _ =>
        .error ("Unexpected error parsing XML: ".toList ++ lxml.typeError kind) := by
  obtain ⟨errorLog, h⟩ := h
  have hloop : root.iter.foldlM (visit lxml) .empty = _ := foldlM_visit root.iter .empty
  rw [Element.kinds_iter, foldl_store] at hloop
  rw [parseXml, h]
  dsimp only
  rw [hloop]
  cases root.content.kinds <;> rfl

/-- Without a root, an exception is raised. -/
theorem parseXml_of_no_root (h : ¬∃ root, Yields lxml content root) :
    ∃ message, (parseXml lxml content).result = .error message := by
  rw [parseXml]
  match hp : lxml.fromstring content with
  | .syntaxError _ => exact ⟨_, rfl⟩
  | .exception _ => exact ⟨_, rfl⟩
  | .document none _ => exact ⟨_, rfl⟩
  | .document (some root) errorLog => exact absurd ⟨root, errorLog, hp⟩ h

/-- The message of an exception is the last one logged. -/
theorem parseXml_logs_error {message : Str} (h : (parseXml lxml content).result = .error message) :
    (parseXml lxml content).log.getLast? = some (.error, message) := by
  rw [parseXml] at h ⊢
  cases hp : lxml.fromstring content with
  | syntaxError _ =>
    rw [hp] at h
    cases h
    rfl
  | exception _ =>
    rw [hp] at h
    cases h
    rfl
  | document root errorLog =>
    rw [hp] at h
    cases root with
    | none =>
      cases h
      exact List.getLast?_concat
    | some root =>
      dsimp only at h ⊢
      cases hl : root.iter.foldlM (visit lxml) .empty with
      | ok _ =>
        rw [hl] at h
        cases h
      | error _ =>
        rw [hl] at h
        cases h
        exact List.getLast?_concat

/-! ## When a dictionary is returned -/

/-- A dictionary is returned for a root, and an exception raised just when there is none. -/
def Total (lxml : Lxml) (content : Str) : Prop :=
  (∀ root, Yields lxml content root → ∃ d, (parseXml lxml content).result = .ok d) ∧
  ((∃ message, (parseXml lxml content).result = .error message) ↔
    ¬∃ root, Yields lxml content root)

/-- A root is a dictionary if and only if all nodes inside it are elements. -/
theorem result_ok_iff (h : Yields lxml content root) :
    (∃ d, (parseXml lxml content).result = .ok d) ↔ root.content.kinds = [] := by
  rw [parseXml_of_root h]
  cases root.content.kinds with
  | nil => exact iff_of_true ⟨_, rfl⟩ rfl
  | cons _ _ => exact iff_of_false (fun he => by cases he; contradiction) (List.cons_ne_nil _ _)

/-- A comment, a processing instruction or an entity reference inside the root raises
    an exception, and nothing else does where there is a root. -/
theorem parseXml_total_iff :
    Total lxml content ↔ ∀ root, Yields lxml content root → root.content.kinds = [] := by
  refine ⟨fun h root hy => (result_ok_iff hy).1 (h.1 root hy), fun h => ⟨fun root hy =>
    (result_ok_iff hy).2 (h root hy), fun he hy => ?_, parseXml_of_no_root⟩⟩
  obtain ⟨root, hy⟩ := hy
  obtain ⟨d, hd⟩ := (result_ok_iff hy).2 (h root hy)
  obtain ⟨message, he⟩ := he
  rw [hd] at he
  cases he

/-- An lxml that knows the tree of one text. -/
def reading (text : Str) (root : Element) : Lxml where
  fromstring content := .document (if content = text then some root else none) []
  typeError _ := "argument of type 'builtin_function_or_method' is not iterable".toList

theorem yields_reading (text : Str) (root : Element) : Yields (reading text root) text root :=
  ⟨[], congrArg (Parsed.document · []) (if_pos rfl)⟩

/-- `<book><!--note--><para>text</para></book>` -/
def commented : Element where
  tag := "book".toList
  attrib := .empty
  content := .other .comment "note".toList <|
    .element "para".toList .empty (.text "text".toList .nil) .nil

theorem commented_not_total :
    ¬Total (reading "<book><!--note--><para>text</para></book>".toList commented)
      "<book><!--note--><para>text</para></book>".toList := by
  intro h
  obtain ⟨d, hd⟩ := h.1 commented (yields_reading _ commented)
  rw [parseXml_of_root (yields_reading _ commented)] at hd
  cases hd

/-! ## What is kept of the elements -/

/-- The same attributes with the same values, and the same text. -/
structure Stored.Same (x y : Stored) : Prop where
  attributes : ∀ name, x.attributes.get? name = y.attributes.get? name
  text : x.text = y.text

theorem Stored.Same.symm {x y : Stored} (h : x.Same y) : y.Same x :=
  ⟨fun name => (h.attributes name).symm, h.text.symm⟩

theorem Stored.Same.trans {x y z : Stored} (h : x.Same y) (h' : y.Same z) : x.Same z :=
  ⟨fun name => (h.attributes name).trans (h'.attributes name), h.text.trans h'.text⟩

/-- The dictionary has the attributes and the stripped text of an element under its
    local name. -/
def Contains (d : Dict Str Stored) (e : Element) : Prop :=
  ∃ x, d.get? (localName e.tag) = some x ∧ x.Same (entry e)

/-- Under a name is what the last element of that name has. -/
theorem get?_assignments (es : List Element) (name : Str) :
    (Dict.empty.setAll (assignments es)).get? name =
      ((es.filter isStored).filter (localName ·.tag = name)).getLast?.map entry := by
  rw [Dict.get?_setAll, assignments, List.filter_map, List.getLast?_map, Option.map_map,
    Dict.get?_empty, Option.or_none]
  rfl

/-- What elements of one name have is kept when it is the same: the last one stands
    for all of them. -/
theorem contains_assignments_iff (es : List Element) :
    (∀ e ∈ es, isStored e → Contains (Dict.empty.setAll (assignments es)) e) ↔
      ∀ e ∈ es, isStored e → ∀ e' ∈ es, isStored e' → localName e'.tag = localName e.tag →
        (entry e').Same (entry e) := by
  constructor
  · intro h e he hs e' he' hs' hname
    obtain ⟨x, hx, hsame⟩ := h e he hs
    obtain ⟨x', hx', hsame'⟩ := h e' he' hs'
    rw [hname, hx, Option.some.injEq] at hx'
    exact (hx' ▸ hsame').symm.trans hsame
  · intro h e he hs
    have hmem : e ∈ (es.filter isStored).filter (localName ·.tag = localName e.tag) := by
      simp [he, hs]
    obtain ⟨l, hl⟩ := Option.ne_none_iff_exists'.1
      (mt List.getLast?_eq_none_iff.1 (List.ne_nil_of_mem hmem))
    have hlast := List.mem_of_getLast? hl
    simp only [List.mem_filter, decide_eq_true_eq] at hlast
    refine ⟨entry l, ?_, h e he hs l hlast.1.1 hlast.1.2 hlast.2⟩
    rw [get?_assignments, hl, Option.map_some]

/-- Where there is no comment inside the root, the dictionary that is returned has what
    every element with attributes or text has. -/
def Keeps (lxml : Lxml) (content : Str) : Prop :=
  ∀ root, Yields lxml content root → .comment ∉ root.content.kinds →
    ∀ e ∈ root.elements, isStored e →
      ∃ d, (parseXml lxml content).result = .ok d ∧ Contains d e

/-- Where nothing is lost, elements of one local name have the same. -/
theorem Keeps.same (h : Keeps lxml content) (hy : Yields lxml content root)
    (hc : .comment ∉ root.content.kinds) {e : Element} (he : e ∈ root.elements)
    (hs : isStored e) : root.content.kinds = [] ∧
      ∀ e' ∈ root.elements, isStored e' → localName e'.tag = localName e.tag →
        (entry e').Same (entry e) := by
  have hkinds : root.content.kinds = [] := by
    obtain ⟨d, hd, _⟩ := h root hy hc e he hs
    exact (result_ok_iff hy).1 ⟨d, hd⟩
  have hresult := parseXml_of_root hy
  rw [hkinds] at hresult
  refine ⟨hkinds, (contains_assignments_iff root.elements).1 (fun e he hs => ?_) e he hs⟩
  obtain ⟨d, hd, hcontains⟩ := h root hy hc e he hs
  rw [hresult] at hd
  exact Except.ok.inj hd ▸ hcontains

/-- Nothing is lost if and only if, as soon as anything is to be stored, all nodes are
    elements and those of one local name have the same attributes and the same text. -/
theorem parseXml_keeps_iff : Keeps lxml content ↔
    ∀ root, Yields lxml content root → .comment ∉ root.content.kinds →
      ∀ e ∈ root.elements, isStored e → root.content.kinds = [] ∧
        ∀ e' ∈ root.elements, isStored e' → localName e'.tag = localName e.tag →
          (entry e').Same (entry e) := by
  refine ⟨fun h root hy hc e he hs => h.same hy hc he hs, fun h root hy hc e he hs => ?_⟩
  have hresult := parseXml_of_root hy
  rw [(h root hy hc e he hs).1] at hresult
  exact ⟨_, hresult, (contains_assignments_iff root.elements).2
    (fun e he hs => (h root hy hc e he hs).2) e he hs⟩

/-- A paragraph with the text `text`. -/
def paragraph (text : Str) : Element := ⟨"para".toList, .empty, .text text .nil⟩

/-- `<book><para>one</para><para>two</para></book>` -/
def paragraphs : Element where
  tag := "book".toList
  attrib := .empty
  content := .element "para".toList .empty (.text "one".toList .nil) <|
    .element "para".toList .empty (.text "two".toList .nil) .nil

theorem paragraphs_not_kept :
    ¬Keeps (reading "<book><para>one</para><para>two</para></book>".toList paragraphs)
      "<book><para>one</para><para>two</para></book>".toList := by
  intro h
  have hone : paragraph "one".toList ∈ paragraphs.elements := .tail _ (.head _)
  have htwo : paragraph "two".toList ∈ paragraphs.elements := .tail _ (.tail _ (.head _))
  have hsame := (h.same (yields_reading _ paragraphs) (by decide) hone (by decide)).2
    (paragraph "two".toList) htwo (by decide) rfl
  exact absurd hsame.text (by decide)

end LfsBuilder.ParseXml
