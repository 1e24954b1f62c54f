import PageRender.Diagnostic
import PageRender.Markup.Tag

/-!
# Open elements

A document is built on a stack of open elements, innermost first; the outermost one is the `html`
element. An element joins its parent when it is closed. The head and the body are opened by
whatever belongs into them, and an already closed one is taken out of `html` and opened again.
-/

namespace PageRender

/-- An element whose closing tag has not been met, with the nodes inside it that are complete. -/
structure OpenElement where
  tag : String
  attributes : Attributes
  children : List (Node Unit)

namespace OpenElement

def add (e : OpenElement) (n : Node Unit) : OpenElement :=
  { e with children := e.children ++ [n] }

def close (e : OpenElement) : Node Unit :=
  .element () e.tag e.attributes e.children

def child? (e : OpenElement) (tag : String) : Option (Node Unit) :=
  e.children.find? (Node.hasTag tag)

end OpenElement

def Node.bare (tag : String) : Node Unit :=
  .element () tag .empty []

/-- A document under construction. Findings carry the number of characters left to read. -/
structure Builder where
  stack : List OpenElement := []
  findings : List (Nat × Finding) := []

namespace Builder

def openTags (b : Builder) : List String :=
  b.stack.map OpenElement.tag

def report (b : Builder) (left : Nat) (finding : Finding) : Builder :=
  { b with findings := b.findings ++ [(left, finding)] }

def push (b : Builder) (e : OpenElement) : Builder :=
  { b with stack := e :: b.stack }

def addNode (b : Builder) (n : Node Unit) : Builder :=
  match b.stack with
  | [] => b
  | top :: rest => { b with stack := top.add n :: rest }

/-- Closes the innermost element, unless it is the outermost one too. -/
def pop (b : Builder) : Builder :=
  match b.stack with
  | top :: parent :: rest => { b with stack := parent.add top.close :: rest }
  | _ => b

/-- Opens the head or the body inside the innermost element, again if it has been there. -/
def openSection (b : Builder) (tag : String) (attributes : Attributes) : Builder :=
  match b.stack with
  | [] => b
  | top :: rest =>
    match top.child? tag with
    | some existing =>
      let others := top.children.eraseP (Node.hasTag tag)
      { b with stack :=
        ⟨tag, existing.attributes, existing.children⟩ :: { top with children := others } :: rest }
    | none =>
      let top :=
        if tag == "body" && (top.child? "head").isNone then top.add (.bare "head") else top
      { b with stack := ⟨tag, attributes, []⟩ :: top :: rest }

/-- The `html` element is open before anything else is. -/
def openRoot (b : Builder) (tag : Option String) : Builder :=
  if b.stack.isEmpty && tag != some "html" then b.push ⟨"html", .empty, []⟩ else b

/-- The head is closed by what does not belong into it. -/
def leaveHead (b : Builder) (tag : Option String) : Builder :=
  let stays := tag.any fun t => t == "/head" || Tag.headTags.contains t
  if b.openTags == ["head", "html"] && !stays then b.pop else b

/-- Directly inside `html`, the section that a tag or a text belongs into is opened. A head comes
before the first body. -/
def enterSection (b : Builder) (tag : Option String) : Builder :=
  let direct := tag.any (["head", "body", "/html"].contains ·)
  let hasHead := b.stack.any fun e => (e.child? "head").isSome
  if b.openTags != ["html"] || direct then b
  else if tag.any (Tag.headTags.contains ·) then b.openSection "head" .empty
  else if hasHead then b.openSection "body" .empty
  else if tag == some "/head" then b.openSection "head" .empty
  else (b.openSection "head" .empty).pop.openSection "body" .empty

/-- Opens and closes the elements that a tag implies, or a text when there is no tag. -/
def settle (b : Builder) (tag : Option String) : Builder :=
  ((b.openRoot tag).leaveHead tag).enterSection tag

/-- Adds a run of text; a blank one is dropped. -/
def addText (b : Builder) (run : List Char) : Builder :=
  if Text.isAllBlank run then b
  else (b.settle none).addNode (.text () (String.ofList run))

def closeTag (b : Builder) (left : Nat) (tag : String) : Builder :=
  match b.stack with
  | top :: _ :: _ =>
    let matching := '/' :: top.tag.toList == tag.toList
    (if matching then b else b.report left (.mismatchedClosing tag top.tag)).pop
  | _ => if tag == "/html" then b else b.report left (.unmatchedClosing tag)

def openTag (b : Builder) (tag : Tag) : Builder :=
  if Tag.voidTags.contains tag.name then
    b.addNode (.element () tag.name tag.attributes [])
  else if ["head", "body"].contains tag.name && b.openTags.head? == some "html" then
    b.openSection tag.name tag.attributes
  else b.push ⟨tag.name, tag.attributes, []⟩

/-- Reads the text of a tag. Comments and declarations leave nothing behind. -/
def addTag (b : Builder) (left : Nat) (text : List Char) : Builder :=
  let tag := Tag.read text
  match tag.name.toList with
  | [] => b.report left .emptyTag
  | '!' :: _ => b
  | '/' :: _ => (b.settle (some tag.name)).closeTag left tag.name
  | _ => (b.settle (some tag.name)).openTag tag

/-- The innermost element, if its content is plain text. -/
def rawTag? (b : Builder) : Option String :=
  b.openTags.head?.filter (Tag.rawTags.contains ·)

def closeAll : List OpenElement → Option OpenElement
  | [] => none
  | [root] => some root
  | top :: parent :: rest => closeAll (parent.add top.close :: rest)
termination_by stack => stack.length

/-- The root with a head and a body, the head first. -/
def completeRoot (root : OpenElement) : Node Unit :=
  let withSection (e : OpenElement) (tag : String) :=
    if (e.child? tag).isSome then e else e.add (.bare tag)
  let children := (withSection (withSection root "head") "body").children
  let (heads, others) := children.partition (Node.hasTag "head")
  .element () root.tag root.attributes (heads ++ others)

def finish (b : Builder) : Node Unit :=
  let b := if b.stack.isEmpty then b.settle none else b
  match closeAll b.stack with
  | some root => completeRoot root
  | none => .bare "html"

end Builder

end PageRender
