import PageRender.OrderedMap
import PageRender.Text.Quoted

/-!
# Document trees

A node is a text or an element. Every node carries an annotation, which is trivial in a tree that
was just read and holds identity, focus or style later.
-/

namespace PageRender

/-- Attribute values by name, in the order of the source. -/
abbrev Attributes := OrderedMap String String

/-- A document tree whose nodes are annotated with `α`. -/
inductive Node (α : Type) where
  | text (info : α) (content : String)
  | element (info : α) (tag : String) (attributes : Attributes) (children : List (Node α))

namespace Node

variable {α : Type}

def info : Node α → α
  | text i _ => i
  | element i _ _ _ => i

def children : Node α → List (Node α)
  | text _ _ => []
  | element _ _ _ cs => cs

def tag? : Node α → Option String
  | text _ _ => none
  | element _ t _ _ => some t

/-- The attributes of an element; a text has none. -/
def attributes : Node α → Attributes
  | text _ _ => .empty
  | element _ _ a _ => a

def text? : Node α → Option String
  | text _ s => some s
  | element _ _ _ _ => none

def hasTag (t : String) (n : Node α) : Bool :=
  n.tag? == some t

def attribute? (n : Node α) (name : String) : Option String :=
  n.attributes.get? name

section

variable [DecidableEq α]

mutual

def decideEq : (n m : Node α) → Decidable (n = m)
  | text i s, text j t => decidable_of_iff (i = j ∧ s = t) (by simp)
  | text .., element .. => .isFalse (by simp)
  | element .., text .. => .isFalse (by simp)
  | element i t a cs, element j u b ds =>
    have := decideForestEq cs ds
    decidable_of_iff (i = j ∧ t = u ∧ a = b ∧ cs = ds) (by simp)

def decideForestEq : (ns ms : List (Node α)) → Decidable (ns = ms)
  | [], [] => .isTrue rfl
  | [], _ :: _ => .isFalse (by simp)
  | _ :: _, [] => .isFalse (by simp)
  | n :: ns, m :: ms =>
    have := decideEq n m
    have := decideForestEq ns ms
    decidable_of_iff (n = m ∧ ns = ms) (by simp)

end

instance : DecidableEq (Node α) := decideEq

end

mutual

def size : Node α → Nat
  | text _ _ => 1
  | element _ _ _ cs => 1 + forestSize cs

def forestSize : List (Node α) → Nat
  | [] => 0
  | n :: ns => n.size + forestSize ns

end

theorem forestSize_append (xs ys : List (Node α)) :
    forestSize (xs ++ ys) = forestSize xs + forestSize ys := by
  induction xs with
  | nil => simp [forestSize]
  | cons n ns ih => simp [forestSize, ih, Nat.add_assoc]

theorem size_eq_forestSize_children (n : Node α) : n.size = 1 + forestSize n.children := by
  cases n <;> simp [size, children, forestSize]

/-- The nodes of pending trees in document order: a node comes before what is below it, and that
before what is pending after it. -/
def walk : List (Node α) → List (Node α)
  | [] => []
  | n :: pending => n :: walk (n.children ++ pending)
termination_by ns => forestSize ns
decreasing_by
  simp only [forestSize, forestSize_append, size_eq_forestSize_children n]
  omega

def descendants (n : Node α) : List (Node α) :=
  walk [n]

/-- The way from a root to a node below it: which child to take at each step. -/
abbrev Path := List Nat

/-- The node at the end of a way. -/
def at? (n : Node α) : Path → Option (Node α)
  | [] => some n
  | k :: path => n.children[k]?.bind (·.at? path)

/-- The tree in which the node at the end of a way is changed. -/
def changeAt (f : Node α → Node α) : Path → Node α → Node α
  | [], n => f n
  | _ :: _, text i s => text i s
  | k :: path, element i t a cs => element i t a (cs.modify k (changeAt f path))

def mapInfo (f : α → α) : Node α → Node α
  | text i s => text (f i) s
  | element i t a cs => element (f i) t a cs

def textContent (n : Node α) : String :=
  String.join (n.descendants.filterMap text?)

/-- One attribute as it is written in a tag; an empty value is left out. -/
def attributeMarkup (a : String × String) : String :=
  if a.2.isEmpty then " " ++ a.1 else " " ++ a.1 ++ "=\"" ++ a.2 ++ "\""

mutual

def markup : Node α → String
  | text _ s => s
  | element _ t attributes cs =>
    "<" ++ t ++ String.join (attributes.entries.map attributeMarkup) ++ ">" ++ forestMarkup cs ++
      "</" ++ t ++ ">"

def forestMarkup : List (Node α) → String
  | [] => ""
  | n :: ns => n.markup ++ forestMarkup ns

end

def innerMarkup (n : Node α) : String :=
  forestMarkup n.children

/-- One line for the root of a tree: its tag between angle brackets, or its quoted text. -/
def label : Node α → String
  | text _ s => Text.quoted s
  | element _ t _ _ => "<" ++ t ++ ">"

mutual

def outline (depth : Nat) : Node α → List (Nat × Node α)
  | text i s => [(depth, text i s)]
  | element i t a cs => (depth, element i t a cs) :: forestOutline (depth + 1) cs

def forestOutline (depth : Nat) : List (Node α) → List (Nat × Node α)
  | [] => []
  | n :: ns => outline depth n ++ forestOutline depth ns

end

def listing (indent : Int) (n : Node α) : List String :=
  (n.outline 0).map fun (depth, node) =>
    String.ofList (List.replicate (indent + 2 * depth).toNat ' ') ++ " " ++ node.label

/-- The elements that carry an id, the first in document order for each id. -/
def idMap (n : Node α) : OrderedMap String (Node α) :=
  n.descendants.foldl (fun m node =>
    match node.attribute? "id" with
    | some id => if m.contains id then m else m.insert id node
    | none => m) .empty

end Node

end PageRender
