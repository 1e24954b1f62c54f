import Mathlib.Data.List.Infix
import PageRender.Proofs.Markup.Joining
import PageRender.Proofs.Markup.Lawful
import PageRender.Proofs.Markup.TagText

/-! # Markup that is written

The markup of a tree, with or without closing tags for its void elements, and what a tree must be for
its markup to be read back. A closing tag of a void element closes the element around it, so that
element ends there.
-/

namespace PageRender

namespace Node

variable {α : Type}

mutual

/-- The markup of a tree. A void element has a closing tag only if `closeVoid` says so. -/
def written (closeVoid : Bool) : Node α → String
  | text _ s => s
  | element _ t a cs =>
    "<" ++ t ++ String.join (a.entries.map attributeMarkup) ++ ">" ++ writtenForest closeVoid cs ++
      if Tag.voidTags.contains t && !closeVoid then "" else "</" ++ t ++ ">"

def writtenForest (closeVoid : Bool) : List (Node α) → String
  | [] => ""
  | n :: ns => n.written closeVoid ++ writtenForest closeVoid ns

end

/-- What is written after the content of an element. -/
def closingChars (closeVoid : Bool) (t : String) : List Char :=
  if Tag.voidTags.contains t && !closeVoid then [] else '<' :: (Tag.closingText t ++ ['>'])

mutual

def chars (closeVoid : Bool) : Node α → List Char
  | text _ s => s.toList
  | element _ t a cs =>
    '<' :: (Tag.openingText t a ++ '>' :: (forestChars closeVoid cs ++ closingChars closeVoid t))

def forestChars (closeVoid : Bool) : List (Node α) → List Char
  | [] => []
  | n :: ns => n.chars closeVoid ++ forestChars closeVoid ns

end

theorem toList_join_attributeMarkup (a : Attributes) :
    (String.join (a.entries.map attributeMarkup)).toList = a.entries.flatMap Tag.attributeText := by
  rw [String.toList_join, List.flatMap_map]
  congr 1
  funext e
  exact Tag.toList_attributeMarkup e

mutual

theorem toList_written (closeVoid : Bool) (n : Node α) :
    (n.written closeVoid).toList = n.chars closeVoid := by
  cases n with
  | text => rfl
  | element i t a cs =>
    have hClosing : (if Tag.voidTags.contains t && !closeVoid then "" else "</" ++ t ++ ">").toList =
        closingChars closeVoid t := by
      rw [closingChars]
      split
      · rfl
      · simp [Tag.closingText]
    rw [written, chars]
    simp only [String.toList_append, toList_join_attributeMarkup, toList_writtenForest closeVoid cs,
      hClosing, Tag.openingText, List.append_assoc]
    rfl

theorem toList_writtenForest (closeVoid : Bool) (ns : List (Node α)) :
    (writtenForest closeVoid ns).toList = forestChars closeVoid ns := by
  cases ns with
  | nil => rfl
  | cons n ns =>
    rw [writtenForest, forestChars, String.toList_append, toList_written, toList_writtenForest]

end

mutual

theorem written_true (n : Node α) : n.written true = n.markup := by
  cases n with
  | text => rfl
  | element i t a cs =>
    rw [written, markup, writtenForest_true, if_neg (by simp)]
    simp only [String.append_assoc]

theorem writtenForest_true (ns : List (Node α)) : writtenForest true ns = forestMarkup ns := by
  cases ns with
  | nil => rfl
  | cons n ns => rw [writtenForest, forestMarkup, written_true, writtenForest_true]

end

mutual

/-- Whether the markup of a node closes the element around it. -/
def closesParent (closeVoid : Bool) : Node α → Bool
  | text _ _ => false
  | element _ t _ cs => (closeVoid && Tag.voidTags.contains t) || closedAfter closeVoid false cs

/-- Whether an element is closed after the markup of nodes inside it, given whether it was before. -/
def closedAfter (closeVoid closed : Bool) : List (Node α) → Bool
  | [] => closed
  | n :: ns => closedAfter closeVoid (n.closesParent closeVoid) ns

end

/-- A node stands after one whose markup closes the element around both only if its tag, or a text,
opens that element again. -/
def Follows (reopens : Option String → Prop) (closeVoid closed : Bool) : List (Node α) → Prop
  | [] => True
  | n :: ns => (closed = true → reopens n.tag?) ∧
      Follows reopens closeVoid (n.closesParent closeVoid) ns

instance decidableFollows (reopens : Option String → Prop) [DecidablePred reopens] (closeVoid : Bool) :
    (closed : Bool) → (ns : List (Node α)) → Decidable (Follows reopens closeVoid closed ns)
  | _, [] => inferInstanceAs (Decidable True)
  | _, n :: ns =>
    have := decidableFollows reopens closeVoid (n.closesParent closeVoid) ns
    inferInstanceAs (Decidable ((_ → _) ∧ _))

mutual

theorem closesParent_false (n : Node α) : n.closesParent false = false := by
  cases n with
  | text => rfl
  | element i t a cs => rw [closesParent, closedAfter_false]; rfl

theorem closedAfter_false (closed : Bool) (ns : List (Node α)) :
    closedAfter false closed ns = (closed && ns.isEmpty) := by
  cases ns with
  | nil => simp [closedAfter]
  | cons n ns => rw [closedAfter, closesParent_false, closedAfter_false]; simp

end

theorem follows_false (reopens : Option String → Prop) (ns : List (Node α)) :
    Follows reopens false false ns := by
  induction ns with
  | nil => trivial
  | cons n ns ih => exact ⟨by simp, by rw [closesParent_false]; exact ih⟩

theorem Follows.mono {reopens reopens' : Option String → Prop} {closeVoid closed : Bool}
    {ns : List (Node α)} (h : Follows reopens closeVoid closed ns)
    (hImp : ∀ tag, reopens tag → reopens' tag) : Follows reopens' closeVoid closed ns := by
  induction ns generalizing closed with
  | nil => trivial
  | cons n ns ih => exact ⟨fun hClosed => hImp _ (h.1 hClosed), ih h.2⟩

def section? : Node α → Option (String × Attributes)
  | text _ _ => none
  | element _ t a _ => if t = "head" ∨ t = "body" then some (t, a) else none

def sections (ns : List (Node α)) : List (String × Attributes) :=
  ns.filterMap section?

/-- The sections that an `html` element can have when it is read. The head that comes with a body has
no attributes, and a head that is read later takes its place. -/
inductive SectionsFit : List (String × Attributes) → Prop
  | none : SectionsFit []
  | head (a : Attributes) : SectionsFit [("head", a)]
  | both (a b : Attributes) : SectionsFit [("head", a), ("body", b)]
  | bodyFirst (b : Attributes) : SectionsFit [("body", b), ("head", .empty)]

/-- No closing tag of an element starts in a text. -/
def NoClosing (tag : String) (cs : List Char) : Prop :=
  ∀ ds, ds <:+ cs → Markup.startsWith ('<' :: '/' :: tag.toList) ds = false

theorem noClosing_iff {tag : String} {cs : List Char} : NoClosing tag cs ↔
    ∀ ds ∈ cs.tails, Markup.startsWith ('<' :: '/' :: tag.toList) ds = false := by
  simp only [NoClosing, List.mem_tails]

instance (tag : String) (cs : List Char) : Decidable (NoClosing tag cs) :=
  decidable_of_iff _ noClosing_iff.symm

/-- What an element must be for its markup to be read back. -/
structure ElementReadsBack (closeVoid : Bool) (t : String) (a : Attributes) (cs : List (Node Unit)) :
    Prop where
  values : ∀ e ∈ a.entries, '"' ∉ e.2.toList
  slash : (Tag.openingText t a).getLast? ≠ some '/'
  name : closeVoid = false → t.toList.getLast? ≠ some '/'
  raw : t ∈ Tag.rawTags → (∀ c ∈ cs, c.tag? = none) ∧ NoClosing t (forestChars closeVoid cs)
  last : t ∉ Tag.rawTags → Follows (fun _ => False) closeVoid false cs
  html : t = "html" → SectionsFit (sections cs)

/-- What a node must be for its markup to be read back. -/
def ReadsBack (closeVoid : Bool) : Node Unit → Prop
  | text _ _ => True
  | element _ t a cs => ElementReadsBack closeVoid t a cs

end Node

end PageRender
