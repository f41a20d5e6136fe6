import LfsBuilder.Library.Text

/-!
# Markup documents

Documents in XML syntax, with all that their text says (`Content`), and the
queries on them: the elements in document order, and the decoded text of an
element. Both the text of a document and the queries go over the same sequence
of *marks*, the tags and the pieces of text in the order in which they are
written (`marks`).

* `render`: the document as it is written;
* `elements`, `getText`: its elements, and its decoded text;
* `Soup`: the parser, a parameter;
* `ReadAs`: how a parser may read a document, up to white space that stands alone;
* `placed`: the elements, each with the place where it stands.
-/

namespace Markup

open Text

/-- An attribute, with the white space before it, and around its `=`. -/
structure Attr where
  space : Str
  name : Str
  eq : Str
  quote : Char
  value : Str
  deriving DecidableEq

def Attr.text (a : Attr) : Str := a.space ++ a.name ++ a.eq ++ a.quote :: a.value ++ [a.quote]

/-- What stands between the angle brackets of a start tag. -/
structure Tag where
  name : Str
  attrs : List Attr := []
  space : Str := []
  deriving DecidableEq

def Tag.text (t : Tag) : Str := t.name ++ t.attrs.flatMap Attr.text ++ t.space

/-- The content of an element or a document: character data, comments (and
    declarations and processing instructions, all with their delimiters) and
    elements. The white space of an element is that in its end tag. -/
inductive Content
  | nil
  | data (raw : Str) (rest : Content)
  | comment (raw : Str) (rest : Content)
  | element (tag : Tag) (inner : Content) (space : Str) (rest : Content)
  | empty (tag : Tag) (rest : Content)
  deriving DecidableEq

/-- An element of a document. -/
structure Element where
  tag : Tag
  inner : Content
  space : Str := []
  deriving DecidableEq

/-- What a document is made of as a sequence: character data, comments, and the
    start tags and end tags of its elements. -/
inductive Mark
  | data (raw : Str)
  | comment (raw : Str)
  | start (e : Element)
  | stop (e : Element)
  | empty (tag : Tag)

/-- A mark, as it is written. -/
def Mark.text : Mark → Str
  | .data raw => raw
  | .comment raw => raw
  | .start e => '<' :: e.tag.text ++ ['>']
  | .stop e => '<' :: '/' :: e.tag.name ++ e.space ++ ['>']
  | .empty tag => '<' :: tag.text ++ ['/', '>']

/-- The element that a mark begins. -/
def Mark.element? : Mark → Option Element
  | .start e => some e
  | .empty tag => some { tag, inner := .nil }
  | _ => none

/-- What a mark adds to the text of the elements that it is in. -/
def Mark.chars (decode : Str → Str) : Mark → Str
  | .data raw => decode raw
  | _ => []

/-- The marks of a document, in the order in which they are written. -/
def marks : Content → List Mark
  | .nil => []
  | .data raw rest => .data raw :: marks rest
  | .comment raw rest => .comment raw :: marks rest
  | .element tag inner space rest =>
    .start ⟨tag, inner, space⟩ :: marks inner ++ .stop ⟨tag, inner, space⟩ :: marks rest
  | .empty tag rest => .empty tag :: marks rest

/-- The text of a list of marks. -/
def written (ms : List Mark) : Str := ms.flatMap Mark.text

/-- A document, as it is written. -/
def render (c : Content) : Str := written (marks c)

/-- The elements of a document in document order, an element before those in it. -/
def elements (c : Content) : List Element := (marks c).filterMap Mark.element?

/-- `get_text` -/
def getText (decode : Str → Str) (c : Content) : Str := (marks c).flatMap (Mark.chars decode)

/-- A parser for documents: the document that a text is, how character references
    are decoded, and how the names of tags and attributes are written. -/
structure Soup where
  parse : Str → Content
  decode : Str → Str
  fold : Str → Str

namespace Soup

variable (soup : Soup)

/-- Whether an element has the name `name`. -/
def named (name : Str) (e : Element) : Bool := soup.fold e.tag.name = name

/-- The value of an attribute; of two with one name, the last counts. -/
def attr? (name : Str) (e : Element) : Option Str :=
  (e.tag.attrs.filter fun a => soup.fold a.name = name).getLast?.map fun a => soup.decode a.value

/-- Whether an element is of the class `name`. -/
def hasClass (name : Str) (e : Element) : Bool :=
  match soup.attr? "class".toList e with
  | some value => name ∈ words value
  | none => false

/-- The text of an element. -/
def text (e : Element) : Str := getText soup.decode e.inner

end Soup

/-- The syntax of a mark: only a tag or a comment begins with an angle bracket, and it
    ends with one. Whether a comment ends where it should is left to the parser. -/
def Mark.WellFormed : Mark → Prop
  | .data raw => '<' ∉ raw
  | .comment raw => ∃ s, raw = '<' :: s ++ ['>']
  | .start e => '<' ∉ e.tag.text
  | .stop e => '<' ∉ e.tag.name ++ e.space
  | .empty tag => '<' ∉ tag.text

/-- The syntax of a document. -/
def Content.WellFormed (c : Content) : Prop := ∀ m ∈ marks c, m.WellFormed

section

variable {raw space : Str} {tag : Tag} {inner rest : Content}

theorem render_data : render (.data raw rest) = raw ++ render rest := rfl

theorem render_comment : render (.comment raw rest) = raw ++ render rest := rfl

theorem render_element : render (.element tag inner space rest) =
    (Mark.start ⟨tag, inner, space⟩).text ++
      (render inner ++ ((Mark.stop ⟨tag, inner, space⟩).text ++ render rest)) := by
  simp only [render, written, marks, List.flatMap_cons, List.flatMap_append, List.cons_append]

theorem render_empty : render (.empty tag rest) = (Mark.empty tag).text ++ render rest := rfl

theorem elements_element : elements (.element tag inner space rest) =
    ⟨tag, inner, space⟩ :: (elements inner ++ elements rest) := by
  simp [elements, marks, Mark.element?, List.filterMap_cons]

end

/-- The decoding of character references: each begins with an ampersand. -/
structure DecodesReferences (decode : Str → Str) : Prop where
  nil : decode [] = []
  cons : ∀ c s, c ≠ '&' → decode (c :: s) = c :: decode s

/-- The decoding of the references that XML knows by itself. -/
def decodeXml : Str → Str
  | '&' :: 'a' :: 'm' :: 'p' :: ';' :: s => '&' :: decodeXml s
  | '&' :: 'l' :: 't' :: ';' :: s => '<' :: decodeXml s
  | '&' :: 'g' :: 't' :: ';' :: s => '>' :: decodeXml s
  | '&' :: 'q' :: 'u' :: 'o' :: 't' :: ';' :: s => '"' :: decodeXml s
  | '&' :: 'a' :: 'p' :: 'o' :: 's' :: ';' :: s => '\'' :: decodeXml s
  | c :: s => c :: decodeXml s
  | [] => []

theorem decodesReferences_decodeXml : DecodesReferences decodeXml where
  nil := rfl
  cons c s h := by
    rw [decodeXml.eq_def]
    split <;> simp_all

section

variable {decode : Str → Str} {s u : Str}

theorem DecodesReferences.append (h : DecodesReferences decode) (hu : '&' ∉ u) :
    decode (u ++ s) = u ++ decode s := by
  induction u with
  | nil => rfl
  | cons c u ih =>
    rw [List.mem_cons, not_or] at hu
    rw [List.cons_append, h.cons c _ (Ne.symm hu.1), ih hu.2, List.cons_append]

theorem Mark.WellFormed.text_cases {m : Mark} (h : m.WellFormed) :
    (∃ raw, m = .data raw) ∨ ∃ s, m.text = '<' :: s := by
  cases m with
  | data raw => exact .inl ⟨raw, rfl⟩
  | comment raw =>
    obtain ⟨s, rfl⟩ := h
    exact .inr ⟨_, rfl⟩
  | start e => exact .inr ⟨_, rfl⟩
  | stop e => exact .inr ⟨_, rfl⟩
  | empty tag => exact .inr ⟨_, rfl⟩

theorem Mark.WellFormed.text_end {m : Mark} (h : m.WellFormed) :
    (∃ raw, m = .data raw) ∨ ∃ s, m.text = s ++ ['>'] := by
  cases m with
  | data raw => exact .inl ⟨raw, rfl⟩
  | comment raw =>
    obtain ⟨s, rfl⟩ := h
    exact .inr ⟨_, rfl⟩
  | start e => exact .inr ⟨_, rfl⟩
  | stop e => exact .inr ⟨_, rfl⟩
  | empty tag => exact .inr ⟨'<' :: tag.text ++ ['/'], by simp [Mark.text]⟩

end

/-! ## Documents as they are read -/

/-- Character data. -/
def Mark.isData : Mark → Bool
  | .data _ => true
  | _ => false

/-- Pieces of character data that stand side by side are one piece. -/
def Content.Joined (c : Content) : Prop :=
  (marks c).IsChain fun m m' => ¬(m.isData = true ∧ m'.isData = true)

instance (c : Content) : Decidable c.Joined := inferInstanceAs (Decidable (List.IsChain _ _))

theorem Content.Joined.of_infix {c c' : Content} (h : c.Joined) (hc : marks c' <:+: marks c) :
    c'.Joined :=
  List.IsChain.infix h hc

/-- How a parser may read a document: white space that stands alone may be changed, or left
    out. -/
inductive ReadAs (decode : Str → Str) : Content → Content → Prop
  | nil : ReadAs decode .nil .nil
  | data (raw : Str) {rest read : Content} :
      ReadAs decode rest read → ReadAs decode (.data raw rest) (.data raw read)
  | blank {raw raw' : Str} {rest read : Content} : Blank (decode raw) → Blank (decode raw') →
      ReadAs decode rest read → ReadAs decode (.data raw rest) (.data raw' read)
  | dropped {raw : Str} {rest read : Content} : Blank (decode raw) →
      ReadAs decode rest read → ReadAs decode (.data raw rest) read
  | comment (raw : Str) {rest read : Content} :
      ReadAs decode rest read → ReadAs decode (.comment raw rest) (.comment raw read)
  | element (tag : Tag) (space : Str) {inner inner' rest read : Content} :
      ReadAs decode inner inner' → ReadAs decode rest read →
      ReadAs decode (.element tag inner space rest) (.element tag inner' space read)
  | empty (tag : Tag) {rest read : Content} :
      ReadAs decode rest read → ReadAs decode (.empty tag rest) (.empty tag read)

section

variable {decode : Str → Str} {c c' : Content} {p z : Str}

theorem ReadAs.refl (c : Content) : ReadAs decode c c := by
  induction c with
  | nil => exact .nil
  | data raw rest ih => exact .data raw ih
  | comment raw rest ih => exact .comment raw ih
  | element tag inner space rest ihi ih => exact .element tag space ihi ih
  | empty tag rest ih => exact .empty tag ih

/-- An element is read as one with the same tag. -/
theorem ReadAs.elements (h : ReadAs decode c c') :
    List.Forall₂ (fun e e' : Element => e'.tag = e.tag ∧ ReadAs decode e.inner e'.inner)
      (elements c) (elements c') := by
  induction h with
  | nil => exact .nil
  | data raw _ ih => exact ih
  | blank _ _ _ ih => exact ih
  | dropped _ _ ih => exact ih
  | comment raw _ ih => exact ih
  | element tag space hi _ ihi ih =>
    rw [elements_element, elements_element]
    exact .cons ⟨rfl, hi⟩ (List.rel_append ihi ih)
  | empty tag _ ih => exact .cons ⟨rfl, .nil⟩ ih

/-- A document that does not begin with character data is empty, or begins with markup. -/
theorem render_cases_of_joined {raw : Str} {rest : Content} (hwf : rest.WellFormed)
    (hj : (Content.data raw rest).Joined) : rest = .nil ∨ ∃ s, render rest = '<' :: s := by
  cases rest with
  | nil => exact .inl rfl
  | data raw' rest => exact absurd ⟨rfl, rfl⟩ (List.isChain_cons_cons.1 hj).1
  | comment raw' rest =>
    obtain ⟨s, rfl⟩ := (List.forall_mem_cons.1 hwf).1
    exact .inr ⟨_, rfl⟩
  | element tag inner space rest => exact .inr ⟨_, render_element⟩
  | empty tag rest => exact .inr ⟨_, rfl⟩

/-- Text without markup and references that is not blank, at the beginning of a document, is
    read as it is. -/
theorem ReadAs.getText_eq (h : ReadAs decode c c') (hd : DecodesReferences decode)
    (hwf : c.WellFormed) (hj : c.Joined) (hc : render c = p ++ z) (hlt : '<' ∉ p)
    (hamp : '&' ∉ p) (hp : ¬Blank p) :
    ∃ z', getText decode c' = p ++ z' ∧ (z = [] → z' = []) := by
  have hmarkup {s : Str} (hs : '<' :: s = p ++ z) : False := by
    cases p with
    | nil => exact hp fun c hc => absurd hc List.not_mem_nil
    | cons x p => exact hlt ((List.cons.inj hs).1 ▸ List.mem_cons_self)
  -- The text is the beginning of a piece of character data.
  have hdata {raw : Str} {rest : Content} (hwf : rest.WellFormed)
      (hj : (Content.data raw rest).Joined) (hraw : raw ++ render rest = p ++ z) :
      ∃ b, raw = p ++ b ∧ z = b ++ render rest := by
    rcases List.append_eq_append_iff.1 hraw with ⟨a, rfl, ha⟩ | h
    · rcases render_cases_of_joined hwf hj with rfl | ⟨s, hs⟩
      · obtain ⟨rfl, rfl⟩ := List.append_eq_nil_iff.1 ha.symm
        exact ⟨[], by simp, rfl⟩
      · cases a with
        | nil => exact ⟨[], by simp, by simpa using ha.symm⟩
        | cons x a =>
          rw [hs] at ha
          exact absurd (List.mem_append_right _ ((List.cons.inj ha).1 ▸ List.mem_cons_self)) hlt
    · exact h
  have hblank {b : Str} (hb : Blank (decode (p ++ b))) : False := by
    rw [hd.append hamp] at hb
    exact hp fun c hc => hb c (List.mem_append_left _ hc)
  cases h with
  | nil =>
    obtain ⟨rfl, -⟩ := List.append_eq_nil_iff.1 hc.symm
    exact absurd (fun c hc => absurd hc List.not_mem_nil) hp
  | @data raw rest read hr =>
    have hwf' : rest.WellFormed := (List.forall_mem_cons.1 hwf).2
    obtain ⟨b, rfl, rfl⟩ := hdata hwf' hj hc
    refine ⟨decode b ++ getText decode read, ?_, fun hz => ?_⟩
    · rw [← List.append_assoc, ← hd.append hamp]
      rfl
    · obtain ⟨rfl, hrest⟩ := List.append_eq_nil_iff.1 hz
      rcases render_cases_of_joined hwf' hj with rfl | ⟨s, hs⟩
      · cases hr
        rw [hd.nil]
        rfl
      · rw [hs] at hrest
        cases hrest
  | @blank raw _ rest _ hb =>
    obtain ⟨b, rfl, -⟩ := hdata (List.forall_mem_cons.1 hwf).2 hj hc
    exact (hblank hb).elim
  | @dropped raw rest _ hb =>
    obtain ⟨b, rfl, -⟩ := hdata (List.forall_mem_cons.1 hwf).2 hj hc
    exact (hblank hb).elim
  | comment raw _ =>
    obtain ⟨s, rfl⟩ := (List.forall_mem_cons.1 hwf).1
    exact (hmarkup hc).elim
  | element tag space _ _ => exact (hmarkup (render_element.symm.trans hc)).elim
  | empty tag _ => exact (hmarkup hc).elim

/-- A blank document is read as a blank one. -/
theorem ReadAs.blank_getText (h : ReadAs decode c c') (hd : DecodesReferences decode)
    (hwf : c.WellFormed) (hc : Blank (render c)) : Blank (getText decode c') := by
  have hmarkup {s : Str} (hs : Blank ('<' :: s)) : False := by
    have hlt := hs '<' List.mem_cons_self
    cases hlt
  induction h with
  | nil => exact hc
  | data raw _ ih =>
    have hraw : Blank raw := fun c hr => hc c (List.mem_append_left _ hr)
    have hamp : '&' ∉ raw := fun h => by cases hraw _ h
    have hdecode : Blank (decode raw) := by
      rwa [show decode raw = raw by simpa [hd.nil] using hd.append (u := raw) (s := []) hamp]
    refine Blank.append hdecode (ih (List.forall_mem_cons.1 hwf).2 fun c hr => ?_)
    exact hc c (List.mem_append_right _ hr)
  | blank _ hb _ ih =>
    refine Blank.append hb (ih (List.forall_mem_cons.1 hwf).2 fun c hr => ?_)
    exact hc c (List.mem_append_right _ hr)
  | dropped _ _ ih =>
    exact ih (List.forall_mem_cons.1 hwf).2 fun c hr => hc c (List.mem_append_right _ hr)
  | comment raw _ _ =>
    obtain ⟨s, rfl⟩ := (List.forall_mem_cons.1 hwf).1
    exact (hmarkup hc).elim
  | element tag space _ _ _ _ => exact (hmarkup (render_element ▸ hc)).elim
  | empty tag _ _ => exact (hmarkup hc).elim

end

/-- One content after another. -/
def Content.append : Content → Content → Content
  | .nil, d => d
  | .data raw rest, d => .data raw (rest.append d)
  | .comment raw rest, d => .comment raw (rest.append d)
  | .element tag inner space rest, d => .element tag inner space (rest.append d)
  | .empty tag rest, d => .empty tag (rest.append d)

theorem marks_append (c d : Content) : marks (c.append d) = marks c ++ marks d := by
  induction c with
  | nil => rfl
  | data raw rest ih => rw [Content.append, marks, marks, ih]; rfl
  | comment raw rest ih => rw [Content.append, marks, marks, ih]; rfl
  | element tag inner space rest _ ih =>
    rw [Content.append, marks, marks, ih, List.append_assoc]
    rfl
  | empty tag rest ih => rw [Content.append, marks, marks, ih]; rfl

/-- What follows a start tag in a document: the content of its element, and the end tag. -/
theorem marks_of_start {e : Element} {ms : List Mark} {doc : Content}
    (h : .start e :: ms <:+ marks doc) :
    ∃ rest, ms = marks e.inner ++ .stop e :: rest := by
  induction doc generalizing ms with
  | nil => cases List.suffix_nil.1 h
  | data raw rest ih =>
    rcases List.suffix_cons_iff.1 h with h | h
    · cases h
    · exact ih h
  | comment raw rest ih =>
    rcases List.suffix_cons_iff.1 h with h | h
    · cases h
    · exact ih h
  | element tag inner space rest ihi ih =>
    rw [marks, List.cons_append] at h
    rcases List.suffix_cons_iff.1 h with h | ⟨pre, h⟩
    · obtain ⟨h, rfl⟩ := List.cons.inj h
      cases h
      exact ⟨_, rfl⟩
    · rcases List.append_eq_append_iff.1 h with ⟨as, has, hms⟩ | ⟨as, _, hms⟩
      · cases as with
        | nil => cases hms
        | cons a as =>
          -- The start tag is in the content of this element.
          obtain ⟨rfl, rfl⟩ := List.cons.inj hms
          obtain ⟨rest', rfl⟩ := ihi ⟨pre, has.symm⟩
          exact ⟨rest' ++ .stop ⟨tag, inner, space⟩ :: marks rest, by simp⟩
      · have hsuffix : Mark.start e :: ms <:+ .stop ⟨tag, inner, space⟩ :: marks rest :=
          ⟨as, hms.symm⟩
        rcases List.suffix_cons_iff.1 hsuffix with h | h
        · cases h
        · exact ih h
  | empty tag rest ih =>
    rcases List.suffix_cons_iff.1 h with h | h
    · cases h
    · exact ih h

/-! ## Places -/

/-- The elements that a list of marks begins, each with the text from its start tag on. -/
def placedIn : List Mark → List (Str × Element)
  | [] => []
  | m :: ms =>
    match m.element? with
    | some e => (written (m :: ms), e) :: placedIn ms
    | none => placedIn ms

/-- The elements of a document, each with the text from its start tag on. -/
def placed (c : Content) : List (Str × Element) := placedIn (marks c)

section

variable {ms ms' : List Mark} {p : Str} {e : Element} {doc : Content}

theorem map_placedIn (ms : List Mark) :
    (placedIn ms).map Prod.snd = ms.filterMap Mark.element? := by
  induction ms with
  | nil => rfl
  | cons m ms ih =>
    rw [placedIn, List.filterMap_cons]
    cases m.element? with
    | none => exact ih
    | some e => exact congrArg (e :: ·) ih

theorem mem_placedIn (h : (p, e) ∈ placedIn ms) :
    ∃ m ms', m :: ms' <:+ ms ∧ m.element? = some e ∧ p = written (m :: ms') := by
  induction ms with
  | nil => cases h
  | cons m ms ih =>
    have hrest (h : (p, e) ∈ placedIn ms) : ∃ m' ms', m' :: ms' <:+ m :: ms ∧
        m'.element? = some e ∧ p = written (m' :: ms') := by
      obtain ⟨m', ms', hs, hm⟩ := ih h
      exact ⟨m', ms', hs.trans (List.suffix_cons m ms), hm⟩
    rw [placedIn] at h
    cases he : m.element? with
    | none =>
      rw [he] at h
      exact hrest h
    | some e' =>
      rw [he] at h
      rcases List.mem_cons.1 h with h | h
      · cases h
        exact ⟨m, ms, List.suffix_rfl, he, rfl⟩
      · exact hrest h

theorem written_suffix (h : ms' <:+ ms) : written ms' <:+ written ms := by
  obtain ⟨pre, rfl⟩ := h
  rw [written, written, List.flatMap_append]
  exact List.suffix_append _ _

theorem placed_suffix (h : (p, e) ∈ placed doc) : p <:+ render doc := by
  obtain ⟨m, ms, hs, -, rfl⟩ := mem_placedIn h
  exact written_suffix hs

theorem length_pos_of_element? {m : Mark} (h : m.element? = some e) : 0 < m.text.length := by
  cases m with
  | start e' => simp [Mark.text]
  | empty tag => simp [Mark.text]
  | data raw => cases h
  | comment raw => cases h
  | stop e' => cases h

/-- Each element starts behind the one before. -/
theorem pairwise_placedIn (ms : List Mark) :
    (placedIn ms).Pairwise fun x y => y.1.length < x.1.length := by
  induction ms with
  | nil => exact .nil
  | cons m ms ih =>
    rw [placedIn]
    cases he : m.element? with
    | none => exact ih
    | some e =>
      have htext := length_pos_of_element? he
      refine .cons (fun y hy => ?_) ih
      obtain ⟨m', ms', hs, -, hp⟩ := mem_placedIn (p := y.1) (e := y.2) hy
      have hle := (written_suffix hs).length_le
      rw [hp, show written (m :: ms) = m.text ++ written ms from rfl, List.length_append]
      omega

/-- What stands at the place of an element: all of the element, unless it has no content. -/
theorem place_of_placed (h : (p, e) ∈ placed doc) : e.inner = .nil ∨ ∃ rest,
    p = (Mark.start e).text ++ (render e.inner ++ ((Mark.stop e).text ++ rest)) := by
  obtain ⟨m, ms, hs, he, rfl⟩ := mem_placedIn h
  cases m with
  | start e' =>
    obtain rfl := Option.some.inj he
    obtain ⟨rest, rfl⟩ := marks_of_start hs
    refine .inr ⟨written rest, ?_⟩
    simp only [written, render, List.flatMap_cons, List.flatMap_append]
  | empty tag =>
    obtain rfl := Option.some.inj he
    exact .inl rfl
  | data raw => cases he
  | comment raw => cases he
  | stop e' => cases he

theorem marks_inner_infix (h : (p, e) ∈ placed doc) : marks e.inner <:+: marks doc := by
  obtain ⟨m, ms, hs, he, rfl⟩ := mem_placedIn h
  cases m with
  | start e' =>
    obtain rfl := Option.some.inj he
    obtain ⟨rest, rfl⟩ := marks_of_start hs
    obtain ⟨pre, hpre⟩ := hs
    exact ⟨pre ++ [.start e'], .stop e' :: rest, by rw [← hpre]; simp⟩
  | empty tag =>
    obtain rfl := Option.some.inj he
    exact List.nil_infix
  | data raw => cases he
  | comment raw => cases he
  | stop e' => cases he

end

end Markup
