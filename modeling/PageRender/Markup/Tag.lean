import PageRender.Markup.Node
import PageRender.Text.Words
import PageRender.Text.Unicode.CaseFold

/-!
# Tags

The text between angle brackets: a name and, after blanks, attributes. A value stands between
quotes or ends at the next blank. Names are folded; of two attributes with one name the last
counts, at the place of the first.
-/

namespace PageRender

structure Tag where
  name : String
  attributes : Attributes

namespace Tag

def voidTags : List String := [
  "area", "base", "br", "col", "embed", "hr", "img", "input",
  "link", "meta", "param", "source", "track", "wbr"]

def headTags : List String := [
  "base", "basefont", "bgsound", "noscript",
  "link", "meta", "title", "style", "script"]

/-- Elements whose content is plain text up to their closing tag. -/
def rawTags : List String := ["script", "style"]

def isNameChar (c : Char) : Bool :=
  c != '=' && !Text.isBlank c

def readValue : List Char → List Char × List Char
  | [] => ([], [])
  | c :: cs =>
    if c == '\'' || c == '"' then (cs.takeWhile (· != c), (cs.dropWhile (· != c)).drop 1)
    else ((c :: cs).takeWhile (!Text.isBlank ·), (c :: cs).dropWhile (!Text.isBlank ·))

theorem length_dropWhile_le (p : Char → Bool) (cs : List Char) :
    (cs.dropWhile p).length ≤ cs.length :=
  (List.dropWhile_sublist p).length_le

theorem length_readValue_le (cs : List Char) : (readValue cs).2.length ≤ cs.length := by
  unfold readValue
  split
  · simp
  · split
    · rename_i c cs _
      have := length_dropWhile_le (· != c) cs
      simp only [List.length_drop, List.length_cons]
      omega
    · exact length_dropWhile_le _ _

def readAttributes (found : Attributes) (cs : List Char) : Attributes :=
  match _h : cs.dropWhile Text.isBlank with
  | [] => found
  | c :: rest =>
    if c == '=' then readAttributes found rest
    else
      let name := Text.foldCase (String.ofList (c :: rest.takeWhile isNameChar))
      match _h' : rest.dropWhile isNameChar with
      | '=' :: after =>
        let value := readValue after
        readAttributes (found.insert name (String.ofList value.1)) value.2
      | after => readAttributes (found.insert name "") after
termination_by cs.length
decreasing_by
  all_goals
    have h₁ := length_dropWhile_le Text.isBlank cs
    rw [_h, List.length_cons] at h₁
  · omega
  · have h₂ := length_dropWhile_le isNameChar rest
    have h₃ := length_readValue_le after
    rw [_h', List.length_cons] at h₂
    omega
  · have h₂ := length_dropWhile_le isNameChar rest
    rw [_h'] at h₂
    omega

/-- The text of a tag without the slash that may end it. -/
def withoutSlash (cs : List Char) : List Char :=
  let cs := Text.trim cs
  if 1 < cs.length && cs.getLast? == some '/' then cs.dropLast else cs

def read (cs : List Char) : Tag :=
  let cs := withoutSlash cs
  ⟨Text.foldCase (String.ofList (cs.takeWhile (!Text.isBlank ·))),
    readAttributes .empty (cs.dropWhile (!Text.isBlank ·))⟩

end Tag

end PageRender
