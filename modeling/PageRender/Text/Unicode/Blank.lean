import PageRender.Text.Unicode.CodePoints

/-!
# Blank characters

White space, the paragraph and line separators and the four information separators.
-/

namespace PageRender.Text

def blankBoundaries : List Nat := [
  9, 14, 28, 33, 133, 134, 160, 161, 5760, 5761, 8192, 8203, 8232, 8234, 8239, 8240, 8287, 8288,
  12288, 12289]

def isBlank (c : Char) : Bool :=
  inBoundaries blankBoundaries c.toNat

end PageRender.Text
