import LfsBuilder.Library.Dict
import LfsBuilder.Library.Text

/-!
# Trees of XML nodes

What a parser makes of an XML document: elements with the attributes they have,
and between their tags character data, further elements, and nodes of other
kinds, which are no elements but stand among them.

* `Element.iter`: an element and all the nodes inside it, in document order;
* `Content.kinds`: the nodes inside that are no elements (`Element.kinds_iter`).
-/

namespace Xml

open Text

/-- The kinds of nodes that are neither elements nor character data. -/
inductive Kind
  | comment
  | instruction
  | entity
  deriving DecidableEq

/-- What stands between the tags of an element. -/
inductive Content
  | nil
  | text (data : Str) (rest : Content)
  | element (tag : Str) (attrib : Dict Str Str) (inner rest : Content)
  | other (kind : Kind) (data : Str) (rest : Content)

/-- An element. Its tag begins with its namespace in braces, if it has one. -/
structure Element where
  tag : Str
  attrib : Dict Str Str
  content : Content

/-- A node that an iteration over the nodes of a tree comes to. -/
inductive Node
  | element (e : Element)
  | other (kind : Kind) (data : Str)

/-- The element that a node is. -/
def Node.element? : Node → Option Element
  | .element e => some e
  | .other _ _ => none

/-- The kind of a node that is no element. -/
def Node.kind? : Node → Option Kind
  | .element _ => none
  | .other kind _ => some kind

/-- The character data before the first node. -/
def Content.leading : Content → Option Str
  | .text data rest => some (data ++ rest.leading.getD [])
  | _ => none

/-- The nodes of a content in document order, an element before those in it. -/
def Content.nodes : Content → List Node
  | .nil => []
  | .text _ rest => rest.nodes
  | .element tag attrib inner rest => .element ⟨tag, attrib, inner⟩ :: (inner.nodes ++ rest.nodes)
  | .other kind data rest => .other kind data :: rest.nodes

/-- The nodes in a content that are no elements, by their kinds. -/
def Content.kinds : Content → List Kind
  | .nil => []
  | .text _ rest => rest.kinds
  | .element _ _ inner rest => inner.kinds ++ rest.kinds
  | .other kind _ rest => kind :: rest.kinds

namespace Element

/-- `element.text` -/
def text (e : Element) : Option Str := e.content.leading

/-- `element.iter()` -/
def iter (e : Element) : List Node := .element e :: e.content.nodes

/-- The elements of the tree with the root `e`. -/
def elements (e : Element) : List Element := e.iter.filterMap Node.element?

end Element

theorem Content.kinds_eq (c : Content) : c.kinds = c.nodes.filterMap Node.kind? := by
  induction c with
  | nil => rfl
  | text _ _ ih => exact ih
  | element _ _ _ _ ih₁ ih₂ =>
    rw [kinds, nodes, ih₁, ih₂, List.filterMap_cons_none rfl, List.filterMap_append]
  | other kind _ _ ih => exact congrArg (kind :: ·) ih

theorem Element.kinds_iter (e : Element) : e.iter.filterMap Node.kind? = e.content.kinds := by
  rw [iter, List.filterMap_cons_none rfl, Content.kinds_eq]

end Xml
