import PageRender.OrderedMap
import PageRender.Text.Quoted

/-!
# Selectors

A selector names the tag of an element, and the tags of some of its ancestors in order.
-/

namespace PageRender

/-- The tag of an element, or that tag inside what another selector selects. -/
inductive Selector where
  | tag (name : String)
  | within (ancestor : Selector) (name : String)
deriving DecidableEq

namespace Selector

/-- The selector of a row of tags, the outermost first. -/
def ofWords (first : String) (others : List String) : Selector :=
  others.foldl within (tag first)

def words : Selector → List String
  | tag name => [name]
  | within ancestor name => ancestor.words ++ [name]

def priority : Selector → Nat
  | tag _ => 1
  | within ancestor _ => ancestor.priority + 1

/-- Whether some tag in a list passes a test that also sees the tags after it. -/
def anyAbove (test : String → List String → Bool) : List String → Bool
  | [] => false
  | t :: above => test t above || anyAbove test above

/-- Whether an element with the given tag is selected, the tags of its ancestors being listed from
its parent up. -/
def selects : Selector → String → List String → Bool
  | tag name, t, _ => name == t
  | within ancestor name, t, above =>
    name == t && anyAbove ancestor.selects above

def describeTag (name : String) : String :=
  "TagSelector(tag=" ++ Text.quoted name ++ ", priority=1)"

def describe : Selector → String
  | tag name => describeTag name
  | within ancestor name =>
    "DescendantSelector(ancestor=" ++ ancestor.describe ++ ", descendant=" ++
      describeTag name ++ ", priority=" ++ toString (ancestor.priority + 1) ++ ")"

end Selector

abbrev Declarations := OrderedMap String String

structure Rule where
  selector : Selector
  declarations : Declarations

end PageRender
