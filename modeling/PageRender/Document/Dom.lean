import PageRender.Style.Cascade

/-!
# The document of a page

Nodes have numbers and are never removed: a node that is replaced is only left out of the list of
children it was in, and still knows its former parent. A node has a greater number than its parent.
-/

namespace PageRender

abbrev NodeId := Nat

/-- What a node is, apart from its place. -/
inductive NodeContent where
  | text (content : String)
  | element (tag : String) (attributes : Attributes)

/-- A node with its place in the document. -/
structure DomNode where
  content : NodeContent
  parent : Option NodeId
  children : List NodeId := []
  focused : Bool := false

/-- All nodes that have been made, by number. -/
structure Dom where
  nodes : Array DomNode := #[]

namespace Dom

def size (d : Dom) : Nat :=
  d.nodes.size

def node? (d : Dom) (id : NodeId) : Option DomNode :=
  d.nodes[id]?

/-- The parent of a node, which it may have been cut off from. -/
def parent? (d : Dom) (id : NodeId) : Option NodeId :=
  (d.node? id).bind DomNode.parent

def tag? (d : Dom) (id : NodeId) : Option String :=
  match (d.node? id).map DomNode.content with
  | some (.element t _) => some t
  | _ => none

def attributes (d : Dom) (id : NodeId) : Attributes :=
  match (d.node? id).map DomNode.content with
  | some (.element _ a) => a
  | _ => .empty

def attribute? (d : Dom) (id : NodeId) (name : String) : Option String :=
  (d.attributes id).get? name

def modify (d : Dom) (id : NodeId) (f : DomNode → DomNode) : Dom :=
  ⟨d.nodes.modify id f⟩

def setAttribute (d : Dom) (id : NodeId) (name value : String) : Dom :=
  d.modify id fun n =>
    match n.content with
    | .element t a => { n with content := .element t (a.insert name value) }
    | .text _ => n

def setFocus (d : Dom) (id : NodeId) (focused : Bool) : Dom :=
  d.modify id fun n => { n with focused }

def push (d : Dom) (n : DomNode) : Dom :=
  ⟨d.nodes.push n⟩

def setChildren (d : Dom) (id : NodeId) (children : List NodeId) : Dom :=
  d.modify id fun n => { n with children }

mutual

/-- Adds the nodes of a tree in document order; the number of its root is the size before. -/
def addTree (d : Dom) (parent : Option NodeId) : Node Unit → Dom
  | .text _ s => d.push { content := .text s, parent }
  | .element _ t a cs =>
    let id := d.size
    let (d, ids) := addForest (d.push { content := .element t a, parent }) id cs
    d.setChildren id ids

/-- Adds the nodes of several trees below a node, and tells the numbers of their roots. -/
def addForest (d : Dom) (parent : NodeId) : List (Node Unit) → Dom × List NodeId
  | [] => (d, [])
  | n :: ns =>
    let id := d.size
    let (d, ids) := addForest (addTree d (some parent) n) parent ns
    (d, id :: ids)

end

/-- The document of a tree; the number of its root is zero. -/
def ofTree (n : Node Unit) : Dom :=
  addTree {} none n

/-- The document in which new nodes take the place of the children of a node. -/
def replaceChildren (d : Dom) (id : NodeId) (nodes : List (Node Unit)) : Dom :=
  let (d, ids) := d.addForest id nodes
  d.setChildren id ids

/-- The tree below a node, down to a number of levels. -/
def treeTo (d : Dom) : (levels : Nat) → NodeId → PageTree
  | 0, id => .text { id } ""
  | levels + 1, id =>
    match d.node? id with
    | none => .text { id } ""
    | some n =>
      match n.content with
      | .text s => .text { id, focused := n.focused } s
      | .element t a => .element { id, focused := n.focused } t a (n.children.map (d.treeTo levels))

/-- The tree below a node. No tree has more levels than there are nodes. -/
def tree (d : Dom) (id : NodeId) : PageTree :=
  d.treeTo d.size id

/-- A node and its ancestors from the inside out, up to a number of them. -/
def chainTo (d : Dom) : (count : Nat) → NodeId → List NodeId
  | 0, _ => []
  | count + 1, id => id :: ((d.parent? id).map (d.chainTo count)).getD []

def chain (d : Dom) (id : NodeId) : List NodeId :=
  d.chainTo d.size id

/-- The elements below a node that carry an id, the first in document order for each id. -/
def idMap (d : Dom) (root : NodeId) : OrderedMap String NodeId :=
  ⟨(d.tree root).idMap.entries.map fun (k, n) => (k, n.info.id)⟩

end Dom

end PageRender
