import PageRender.Sheet.Stylesheet

/-!
# The default stylesheet

The sheet that comes before all others, as blocks and as the text they are written as.
-/

namespace PageRender

/-- Several selectors, each a row of tags, with what they declare. -/
structure SheetBlock where
  selectors : List (List String)
  declarations : List (String × String)

namespace SheetBlock

def text (b : SheetBlock) : String :=
  ", ".intercalate (b.selectors.map (" ".intercalate ·)) ++ " \x7b\n" ++
    String.join (b.declarations.map fun d => "  " ++ d.1 ++ ": " ++ d.2 ++ ";\n") ++ "\x7d\n"

end SheetBlock

def defaultBlocks : List SheetBlock := [
  ⟨[["head"], ["script"], ["style"], ["title"], ["meta"], ["link"]], [("display", "none")]⟩,
  ⟨[["body"]],
    [("margin", "8px"), ("font-family", "Times, serif"), ("font-size", "16px"),
     ("color", "#000000"), ("background-color", "#ffffff")]⟩,
  ⟨[["h1"]],
    [("font-size", "32px"), ("font-weight", "bold"), ("margin", "21px 0"), ("display", "block")]⟩,
  ⟨[["h2"]],
    [("font-size", "24px"), ("font-weight", "bold"), ("margin", "19px 0"), ("display", "block")]⟩,
  ⟨[["h3"]],
    [("font-size", "19px"), ("font-weight", "bold"), ("margin", "16px 0"), ("display", "block")]⟩,
  ⟨[["h4"]],
    [("font-size", "16px"), ("font-weight", "bold"), ("margin", "14px 0"), ("display", "block")]⟩,
  ⟨[["h5"]],
    [("font-size", "13px"), ("font-weight", "bold"), ("margin", "12px 0"), ("display", "block")]⟩,
  ⟨[["h6"]],
    [("font-size", "11px"), ("font-weight", "bold"), ("margin", "10px 0"), ("display", "block")]⟩,
  ⟨[["p"]], [("margin", "16px 0"), ("display", "block")]⟩,
  ⟨[["a"]], [("color", "#0000ee"), ("text-decoration", "underline")]⟩,
  ⟨[["strong"], ["b"]], [("font-weight", "bold")]⟩,
  ⟨[["em"], ["i"]], [("font-style", "italic")]⟩,
  ⟨[["div"], ["form"]], [("display", "block")]⟩,
  ⟨[["ul"], ["ol"]], [("margin", "16px 0"), ("padding-left", "40px"), ("display", "block")]⟩,
  ⟨[["li"]], [("display", "list-item"), ("margin", "8px 0")]⟩,
  ⟨[["blockquote"]], [("margin", "16px 40px"), ("display", "block")]⟩,
  ⟨[["pre"]],
    [("margin", "16px 0"), ("font-family", "monospace"), ("white-space", "pre"),
     ("display", "block")]⟩,
  ⟨[["code"]], [("font-family", "monospace")]⟩,
  ⟨[["input"]],
    [("border", "2px inset #cccccc"), ("padding", "2px"), ("background-color", "white"),
     ("color", "black"), ("font-size", "inherit"), ("display", "inline-block")]⟩,
  ⟨[["button"]],
    [("border", "2px outset #cccccc"), ("padding", "2px 6px"), ("background-color", "#f0f0f0"),
     ("color", "black"), ("font-size", "inherit"), ("display", "inline-block")]⟩,
  ⟨[["fieldset"]],
    [("border", "2px groove #cccccc"), ("padding", "8px"), ("margin", "16px 0"),
     ("display", "block")]⟩,
  ⟨[["legend"]], [("font-weight", "bold"), ("padding", "0 4px")]⟩]

def defaultSheet : String :=
  "\n".intercalate (defaultBlocks.map SheetBlock.text)

end PageRender
