import PageRender.Markup.Node
import PageRender.Sheet.Default
import PageRender.Style.FontSize
import PageRender.Style.StyleMap

/-!
# The cascade

The default sheet, the sheets inside the document, that of the author and that of the user are read
as one text. A style is computed from that of the parent: defaults, then rules by priority, then the
style attribute; `inherit` is replaced last, and font sizes are made absolute. The nodes are styled
where they stand, whatever styles they have had, a parent before its children.
-/

namespace PageRender

/-- What a node of a page carries: its identity, the focus and its style. -/
structure NodeInfo where
  id : Nat
  focused : Bool := false
  style : StyleMap := .empty

abbrev PageTree := Node NodeInfo

namespace Style

/-- Properties that a node takes from its parent, with the values at the root. -/
def inheritedDefaults : List (String × String) := [
  ("font-size", "16px"), ("font-style", "normal"), ("font-weight", "normal"), ("color", "black")]

def ownDefaults : List (String × String) := [
  ("background-color", "transparent"), ("margin", "0px"), ("padding", "0px"), ("border", "none"),
  ("display", "inline"), ("text-decoration", "none")]

def fromParent? (parent : Option StyleMap) (name : String) : Option String :=
  parent.bind (·.get? name)

def inherited (parent : Option StyleMap) : StyleMap :=
  StyleMap.empty.setAll
    (inheritedDefaults.map fun (name, default) => (name, (fromParent? parent name).getD default))

/-- The default of a property; the empty text where it has none. -/
def defaultOf (name : String) : String :=
  ((inheritedDefaults ++ ownDefaults).lookup name).getD ""

/-- The style with every `inherit` replaced by the value at the parent. -/
def resolveInherit (parent : Option StyleMap) (style : StyleMap) : StyleMap :=
  style.items.foldl (fun s (name, value) =>
    if value == "inherit" then s.set name ((fromParent? parent name).getD (defaultOf name)) else s)
    style

def resolveSize (parent : Option StyleMap) (style : StyleMap) : StyleMap :=
  style.set "font-size"
    (resolveFontSize (style.getD "font-size" "16px")
      ((fromParent? parent "font-size").getD "16px"))

def ofText (parent : Option StyleMap) : StyleMap :=
  resolveSize parent (inherited parent)

def inlineDeclarations (attributes : Attributes) : List (String × String) :=
  match attributes.get? "style" with
  | some s => (Sheet.block s.toList).declarations.entries
  | none => []

/-- What is declared for an element, in order of rising weight. -/
def declared (rules : List Rule) (above : List String) (tag : String) (attributes : Attributes) :
    List (String × String) :=
  (rules.filter (·.selector.selects tag above)).flatMap (·.declarations.entries) ++
    inlineDeclarations attributes

/-- The style of an element, the tags of its ancestors being listed from its parent up. -/
def ofElement (rules : List Rule) (parent : Option StyleMap) (above : List String) (tag : String)
    (attributes : Attributes) : StyleMap :=
  let style := (inherited parent).setAll ownDefaults
  let style := style.setAll (declared rules above tag attributes)
  resolveSize parent (resolveInherit parent style)

def ofNode (rules : List Rule) (parent : Option StyleMap) (above : List String) : PageTree → StyleMap
  | .text _ _ => ofText parent
  | .element _ t a _ => ofElement rules parent above t a

/-- A node that waits for its style: where it is, where its parent is, and the tags of its ancestors
from its parent up. -/
structure Visit where
  path : Node.Path
  parent : Option Node.Path
  above : List String
  node : PageTree

namespace Visit

def start (root : PageTree) : Visit := ⟨[], none, [], root⟩

/-- The visits of the children of a node. -/
def below (v : Visit) : List Visit :=
  v.node.children.zipIdx.map fun (n, k) =>
    ⟨v.path ++ [k], some v.path, v.node.tag?.toList ++ v.above, n⟩

theorem map_node_below (v : Visit) : v.below.map Visit.node = v.node.children := by
  rw [below, List.map_map]
  exact List.zipIdx_map_fst 0 _

end Visit

/-- The tree in which one node has a new style, the style of its parent being what it is by then. -/
def styleVisited (rules : List Rule) (root : PageTree) (v : Visit) : PageTree :=
  let parent := (v.parent.bind root.at?).map (·.info.style)
  root.changeAt (Node.mapInfo ({ · with style := ofNode rules parent v.above v.node })) v.path

/-- Styles the nodes that wait, and those below them, in document order. -/
def styleAll (rules : List Rule) (root : PageTree) : List Visit → PageTree
  | [] => root
  | v :: pending => styleAll rules (styleVisited rules root v) (v.below ++ pending)
termination_by pending => Node.forestSize (pending.map Visit.node)
decreasing_by
  simp only [List.map_append, List.map_cons, Node.forestSize, Node.forestSize_append, Visit.map_node_below,
    Node.size_eq_forestSize_children v.node]
  omega

def embeddedSheet (root : PageTree) : String :=
  let sheets := root.descendants.filter (Node.hasTag "style")
  "\n".intercalate (sheets.flatMap fun n => n.children.filterMap Node.text?)

def combinedSheet (root : PageTree) (author user : String) : String :=
  "\n".intercalate [defaultSheet, embeddedSheet root, author, user]

def apply (root : PageTree) (author user : String) : PageTree × List Diagnostic :=
  let (rules, diagnostics) := Stylesheet.parse (combinedSheet root author user)
  (styleAll (Stylesheet.byPriority rules) root [.start root], diagnostics)

end Style

namespace Node

mutual

/-- A tree whose nodes are numbered in document order from `next`, and the next number. -/
def numberFrom (next : Nat) : Node Unit → PageTree × Nat
  | .text _ s => (.text { id := next } s, next + 1)
  | .element _ t a cs =>
    let (children, after) := numberForest (next + 1) cs
    (.element { id := next } t a children, after)

def numberForest (next : Nat) : List (Node Unit) → List PageTree × Nat
  | [] => ([], next)
  | n :: ns =>
    let (first, after) := numberFrom next n
    let (others, after) := numberForest after ns
    (first :: others, after)

end

def numbered (n : Node Unit) : PageTree :=
  (numberFrom 0 n).1

end Node

end PageRender
