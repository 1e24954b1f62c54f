import PageRender.Markup.Reader
import PageRender.Proofs.Layout.Content
import PageRender.Proofs.Layout.Weights
import PageRender.Proofs.Style.Computed

/-! # Pages that cannot be laid out

Whatever a page and its sheets say, it can be laid out and painted with fonts that never fail, unless a word or
a control on it has a weight that cannot be read. Such a weight stops the layout of the whole page.
-/

namespace PageRender

variable {α β γ : Type}

/-! ## Fonts that never fail -/

def Font.MeasuresAll (font : Font α) : Prop :=
  ∀ text, ∃ width, font.measure text = .ok width

def FontSource.IsTotal (fonts : FontSource α) : Prop :=
  ∀ choice, ∃ font, fonts choice = .ok font ∧ font.MeasuresAll

theorem isTotal_standardFonts : standardFonts.IsTotal :=
  fun _ => ⟨_, rfl, fun _ => ⟨_, rfl⟩⟩

mutual

/-- The fonts of all words and controls in a block. -/
def Block.fonts : Block α → List (Font α)
  | .lines _ ls => (ls.flatMap (·.items)).map Item.font
  | .blocks _ bs => Block.allFonts bs

def Block.allFonts : List (Block α) → List (Font α)
  | [] => []
  | b :: bs => b.fonts ++ Block.allFonts bs

end

/-! ## What layout reads -/

namespace Node

def weight (n : PageTree) : String :=
  n.info.style.getD "font-weight" "normal"

end Node

def Piece.node? : Piece → Option PageTree
  | .item node _ => some node
  | .lineBreak => none

namespace Node

mutual

/-- The nodes whose words, or which as controls, are put on the lines of a page. -/
def itemNodes : PageTree → List PageTree
  | .text i s => (Node.text i s).pieces.filterMap Piece.node?
  | .element i t a cs =>
    if stacksChildren t cs then forestItemNodes cs else (Node.element i t a cs).pieces.filterMap Piece.node?

def forestItemNodes : List PageTree → List PageTree
  | [] => []
  | n :: ns => (if n.isHidden then [] else n.itemNodes) ++ forestItemNodes ns

end

end Node

/-- Whether there is an outcome is decided by the weights of some nodes: it has the property if all of them can
be read, and else it is the fault of one that cannot. -/
def WeightsDecide (nodes : List PageTree) (P : β → Prop) : Except Fault β → Prop
  | .ok v => (∀ n ∈ nodes, IsReadableWeight n.weight) ∧ P v
  | .error e => ∃ n ∈ nodes, IsWeightFault n.weight e

namespace WeightsDecide

variable {ns ms : List PageTree} {P : β → Prop} {Q : γ → Prop}

theorem of_ok {v : β} (h : P v) : WeightsDecide [] P (.ok v) :=
  ⟨fun _ hMem => absurd hMem List.not_mem_nil, h⟩

theorem bind {x : Except Fault β} {f : β → Except Fault γ} (hx : WeightsDecide ns P x)
    (hf : ∀ v, P v → WeightsDecide ms Q (f v)) : WeightsDecide (ns ++ ms) Q (x >>= f) := by
  cases x with
  | error e =>
    obtain ⟨n, hMem, hFault⟩ := hx
    exact ⟨n, List.mem_append_left _ hMem, hFault⟩
  | ok v =>
    obtain ⟨hReadable, hv⟩ := hx
    have hRest := hf v hv
    change WeightsDecide (ns ++ ms) Q (f v)
    cases hResult : f v with
    | error e =>
      rw [hResult] at hRest
      obtain ⟨n, hMem, hFault⟩ := hRest
      exact ⟨n, List.mem_append_right _ hMem, hFault⟩
    | ok w =>
      rw [hResult] at hRest
      exact ⟨List.forall_mem_append.mpr ⟨hReadable, hRest.1⟩, hRest.2⟩

/-- Nothing can fail behind what the weights decide. -/
theorem bind_ok {x : Except Fault β} {f : β → Except Fault γ} (hx : WeightsDecide ns P x)
    (hf : ∀ v, P v → ∃ w, f v = .ok w ∧ Q w) : WeightsDecide ns Q (x >>= f) := by
  rw [← List.append_nil ns]
  refine hx.bind fun v hv => ?_
  obtain ⟨w, hResult, hw⟩ := hf v hv
  rw [hResult]
  exact .of_ok hw

end WeightsDecide

variable [Scalar α] {fonts : FontSource α}

theorem weightsDecide_measureItem (hFonts : fonts.IsTotal) (node : PageTree) (kind : ItemKind) :
    WeightsDecide [node] (fun m => m.font.MeasuresAll) (measureItem fonts node kind) := by
  have hFont : WeightsDecide [node] Font.MeasuresAll (fonts.forStyle node.info.style) := by
    rw [FontSource.forStyle]
    obtain ⟨hReadable, choice, hChoice⟩ | ⟨e, hFault, hChoice⟩ := FontChoice.ofStyle_cases (α := α) node.info.style
    · obtain ⟨font, hMade, hMeasures⟩ := hFonts choice
      rw [hChoice]
      change WeightsDecide [node] Font.MeasuresAll (fonts choice)
      rw [hMade]
      exact ⟨List.forall_mem_singleton.mpr hReadable, hMeasures⟩
    · rw [hChoice]
      exact ⟨node, List.mem_singleton_self node, hFault⟩
  refine hFont.bind_ok fun font hMeasures => ?_
  obtain ⟨space, hSpace⟩ := hMeasures " "
  cases kind with
  | word w =>
    obtain ⟨width, hWidth⟩ := hMeasures w
    dsimp only
    rw [hWidth, hSpace]
    exact ⟨_, rfl, hMeasures⟩
  | control =>
    dsimp only
    rw [hSpace]
    exact ⟨_, rfl, hMeasures⟩

theorem weightsDecide_fillLines (hFonts : fonts.IsTotal) (available : α) {f : LineFilling α}
    (h : ∀ m ∈ f.items, m.font.MeasuresAll) (ps : List Piece) :
    WeightsDecide (ps.filterMap Piece.node?) (fun g => ∀ m ∈ g.items, m.font.MeasuresAll)
      (fillLines fonts available f ps) := by
  induction ps generalizing f with
  | nil => exact .of_ok h
  | cons p ps ih =>
    cases p with
    | lineBreak =>
      rw [← LineFilling.items_newLine] at h
      exact ih h
    | item node kind =>
      refine (weightsDecide_measureItem hFonts node kind).bind fun m hm => ih ?_
      rw [LineFilling.items_place]
      exact List.forall_mem_append.mpr ⟨h, List.forall_mem_singleton.mpr hm⟩

/-! ## The fonts of the boxes -/

theorem fonts_placeItems (x baseline : α) (ms : List (MeasuredItem α)) :
    (placeItems x baseline ms).map Item.font = ms.map MeasuredItem.font := by
  induction ms generalizing x with
  | nil => rfl
  | cons m ms ih => rw [placeItems, List.map_cons, List.map_cons, ih]

theorem fonts_placeLine (x y width : α) (ms : List (MeasuredItem α)) :
    (placeLine x y width ms).items.map Item.font = ms.map MeasuredItem.font := by
  cases ms with
  | nil => rfl
  | cons m ms => exact fonts_placeItems _ _ (m :: ms)

theorem fonts_placeLines (x y width : α) (lines : List (List (MeasuredItem α))) :
    ((placeLines x y width lines).flatMap (·.items)).map Item.font = lines.flatten.map MeasuredItem.font := by
  induction lines generalizing y with
  | nil => rfl
  | cons ms rest ih =>
    rw [placeLines, List.flatMap_cons, List.map_append, ih, List.flatten_cons, List.map_append, fonts_placeLine]

theorem weightsDecide_layoutLines (hFonts : fonts.IsTotal) (o : BlockOpening α) (ps : List Piece) :
    WeightsDecide (ps.filterMap Piece.node?) (fun b => ∀ font ∈ b.fonts, font.MeasuresAll)
      (layoutLines fonts o ps) := by
  have hStart : ∀ m ∈ (LineFilling.start : LineFilling α).items, m.font.MeasuresAll := by
    rw [LineFilling.items_start]
    exact fun _ hMem => absurd hMem List.not_mem_nil
  refine (weightsDecide_fillLines hFonts o.contentWidth hStart ps).bind_ok fun filled hFilled => ⟨_, rfl, ?_⟩
  rw [Block.fonts, fonts_placeLines, List.forall_mem_map]
  exact hFilled

mutual

theorem weightsDecide_layoutBlock (hFonts : fonts.IsTotal) (left available above : α) (n : PageTree) :
    WeightsDecide n.itemNodes (fun b => ∀ font ∈ b.fonts, font.MeasuresAll)
      (layoutBlock fonts left available above n) := by
  cases n with
  | text i s =>
    rw [layoutBlock, Node.itemNodes]
    exact weightsDecide_layoutLines hFonts _ _
  | element i t a cs =>
    rw [layoutBlock, Node.itemNodes]
    split
    · exact (weightsDecide_layoutBlocks hFonts _ _ _ cs).bind_ok fun bs hbs => ⟨_, rfl, hbs⟩
    · exact weightsDecide_layoutLines hFonts _ _

theorem weightsDecide_layoutBlocks (hFonts : fonts.IsTotal) (left available above : α) (ns : List PageTree) :
    WeightsDecide (Node.forestItemNodes ns) (fun bs => ∀ font ∈ Block.allFonts bs, font.MeasuresAll)
      (layoutBlocks fonts left available above ns) := by
  cases ns with
  | nil =>
    rw [layoutBlocks]
    exact .of_ok fun _ hMem => absurd hMem List.not_mem_nil
  | cons n ns =>
    rw [layoutBlocks, Node.forestItemNodes]
    split
    · exact weightsDecide_layoutBlocks hFonts left available above ns
    · refine (weightsDecide_layoutBlock hFonts left available above n).bind fun b hb => ?_
      refine (weightsDecide_layoutBlocks hFonts left available b.frame.below ns).bind_ok fun bs hbs => ⟨_, rfl, ?_⟩
      exact List.forall_mem_append.mpr ⟨hb, hbs⟩

end

/-! ## Painting -/

theorem exists_textAt {font : Font α} (h : font.MeasuresAll) (x y : α) (text color : String) :
    ∃ cs, (Command.textAt x y text font color).map ([·]) = .ok cs := by
  obtain ⟨width, hWidth⟩ := h text
  rw [Command.textAt, hWidth]
  exact ⟨_, rfl⟩

theorem exists_paintControl {i : Item α} (h : i.font.MeasuresAll) : ∃ cs, paintControl i = .ok cs := by
  obtain ⟨labelWidth, hLabel⟩ := h (controlLabel i.node)
  obtain ⟨before, hBefore⟩ := h ((i.node.attribute? "value").getD "")
  rw [paintControl]
  dsimp only
  rw [Outcome.ok_bind hLabel]
  split
  · rw [pure_bind]
    split
    · rw [Outcome.ok_bind hBefore]
      exact ⟨_, rfl⟩
    · exact ⟨_, rfl⟩
  · obtain ⟨text, hText⟩ := exists_textAt h _ _ _ _
    rw [Outcome.ok_bind hText]
    split
    · rw [Outcome.ok_bind hBefore]
      exact ⟨_, rfl⟩
    · exact ⟨_, rfl⟩

theorem exists_paintItem {i : Item α} (h : i.font.MeasuresAll) : ∃ cs, paintItem i = .ok cs := by
  rw [paintItem]
  split
  · exact exists_textAt h _ _ _ _
  · exact exists_paintControl h

theorem exists_paintItems {is : List (Item α)} (h : ∀ font ∈ is.map Item.font, font.MeasuresAll) :
    ∃ cs, paintItems is = .ok cs := by
  induction is with
  | nil => exact ⟨[], rfl⟩
  | cons i is ih =>
    rw [List.map_cons, List.forall_mem_cons] at h
    obtain ⟨first, hFirst⟩ := exists_paintItem h.1
    obtain ⟨others, hOthers⟩ := ih h.2
    rw [paintItems, hFirst, hOthers]
    exact ⟨_, rfl⟩

mutual

theorem exists_paintBlock {b : Block α} (h : ∀ font ∈ b.fonts, font.MeasuresAll) : ∃ cs, paintBlock b = .ok cs := by
  cases b with
  | lines f ls =>
    obtain ⟨inside, hInside⟩ := exists_paintItems h
    rw [paintBlock, hInside]
    exact ⟨_, rfl⟩
  | blocks f bs =>
    obtain ⟨inside, hInside⟩ := exists_paintBlocks h
    rw [paintBlock, hInside]
    exact ⟨_, rfl⟩

theorem exists_paintBlocks {bs : List (Block α)} (h : ∀ font ∈ Block.allFonts bs, font.MeasuresAll) :
    ∃ cs, paintBlocks bs = .ok cs := by
  cases bs with
  | nil => exact ⟨[], rfl⟩
  | cons b bs =>
    rw [Block.allFonts, List.forall_mem_append] at h
    obtain ⟨first, hFirst⟩ := exists_paintBlock h.1
    obtain ⟨others, hOthers⟩ := exists_paintBlocks h.2
    rw [paintBlocks, hFirst, hOthers]
    exact ⟨_, rfl⟩

end

/-! ## Pages -/

/-- How the layout of a styled page ends. If all weights on the page can be read, the page can be painted as
well, and else it is one of those that cannot which stops the layout. -/
def LayoutEnds (root : PageTree) : Except LayoutFailure (DocumentBox α) → Prop
  | .ok d => (∀ n ∈ root.itemNodes, IsReadableWeight n.weight) ∧ ∃ cs, paintDocument d = .ok cs
  | .error e => e.stage = .layout ∧ ∃ n ∈ root.itemNodes, IsWeightFault n.weight e.fault

theorem layoutEnds_layoutDocument (hFonts : fonts.IsTotal) (viewport : α) (root : PageTree) :
    LayoutEnds root (layoutDocument fonts viewport root) := by
  have hPage : WeightsDecide root.itemNodes (fun d => ∀ font ∈ d.root.fonts, font.MeasuresAll)
      (layoutPage fonts (pageWidth viewport) root) :=
    (weightsDecide_layoutBlock hFonts _ _ _ root).bind_ok fun b hb => ⟨_, rfl, hb⟩
  rw [layoutDocument, layoutStyled]
  cases hLayout : layoutPage fonts (pageWidth viewport) root with
  | error e =>
    rw [hLayout] at hPage
    exact ⟨rfl, hPage⟩
  | ok d =>
    rw [hLayout] at hPage
    obtain ⟨hReadable, hMeasures⟩ := hPage
    obtain ⟨cs, hPaint⟩ := exists_paintBlock hMeasures
    exact ⟨hReadable, cs, Outcome.mapError_eq_ok_iff.mpr hPaint⟩

theorem LayoutEnds.ok_of_readable {root : PageTree} {x : Except LayoutFailure (DocumentBox α)}
    (h : LayoutEnds root x) (hReadable : ∀ n ∈ root.itemNodes, IsReadableWeight n.weight) :
    ∃ d cs, x = .ok d ∧ paintDocument d = .ok cs := by
  cases x with
  | ok d =>
    obtain ⟨cs, hPaint⟩ := h.2
    exact ⟨d, cs, rfl, hPaint⟩
  | error e =>
    obtain ⟨-, n, hMem, hFault⟩ := h
    exact absurd (hReadable n hMem) hFault.unreadable

theorem LayoutEnds.error_of_unreadable {root n : PageTree} {x : Except LayoutFailure (DocumentBox α)}
    (h : LayoutEnds root x) (hNodes : root.itemNodes = [n]) (hUnreadable : ¬ IsReadableWeight n.weight) :
    ∃ e, x = .error ⟨.layout, e⟩ ∧ readInteger n.weight = .error e := by
  cases x with
  | ok d =>
    have hReadable := h.1
    rw [hNodes, List.forall_mem_singleton] at hReadable
    exact absurd hReadable hUnreadable
  | error e =>
    obtain ⟨hStage, m, hMem, hFault⟩ := h
    rw [hNodes, List.mem_singleton] at hMem
    rw [← hMem, ← hStage]
    exact ⟨e.fault, rfl, hFault.reading⟩

theorem Style.get?_of_inline {attributes : Attributes} {name value : String} (hName : name ≠ "font-size")
    (h : (inlineDeclarations attributes).reverse.lookup name = some value) (hKeyword : value ≠ "inherit")
    (rules : List Rule) (parent : Option StyleMap) (above : List String) (tag : String) :
    (ofElement rules parent above tag attributes).get? name = some value := by
  rw [get?_ofElement, if_neg hName, specified?, declared, List.reverse_append, List.lookup_append, h,
    Option.some_or, Option.some_or, Option.map_some, withoutKeyword, if_neg hKeyword]

/-- A word in a body with a style of its own. -/
def wordDocument (style : String) : Node Unit :=
  .element () "html" .empty [
    .element () "head" .empty [],
    .element () "body" ⟨[("style", style)]⟩ [.text () "x"]]

theorem itemNodes_wordDocument (style weight : String)
    (h : Style.inlineDeclarations ⟨[("style", style)]⟩ = [("display", "block"), ("font-weight", weight)])
    (hKeyword : weight ≠ "inherit") (author user : String) :
    ∃ n, (Style.apply (wordDocument style).numbered author user).1.itemNodes = [n] ∧ n.weight = weight := by
  rw [Style.apply_eq]
  generalize Stylesheet.byPriority _ = rules
  let top := Style.ofElement rules none [] "html" .empty
  let inner := Style.ofElement rules (some top) ["html"] "body" ⟨[("style", style)]⟩
  let head : PageTree :=
    .element { id := 1, style := Style.ofElement rules (some top) ["html"] "head" .empty } "head" .empty []
  let word : PageTree := .text { id := 3, style := Style.ofText (some inner) } "x"
  let body : PageTree := .element { id := 2, style := inner } "body" ⟨[("style", style)]⟩ [word]
  have hDisplay : inner.get? "display" = some "block" :=
    Style.get?_of_inline (by decide) (by rw [h]; rfl) (by decide) _ _ _ _
  have hWeight : inner.get? "font-weight" = some weight :=
    Style.get?_of_inline (by decide) (by rw [h]; rfl) hKeyword _ _ _ _
  have hHead : (if head.isHidden then [] else head.itemNodes) = [] := by split <;> rfl
  have hVisible : body.isHidden = false := by
    change (true && (inner.get? "display" == some "none")) = false
    rw [hDisplay]
    rfl
  have hBody : body.itemNodes = [word] := by
    have hWords : Text.wordsOf "x" = ["x"] := by decide +kernel
    have hPieces : body.pieces = if body.isHidden then [] else (Text.wordsOf "x").map (.item word <| .word ·) ++ [] :=
      rfl
    change body.pieces.filterMap Piece.node? = [word]
    rw [hPieces, hVisible, hWords]
    rfl
  refine ⟨word, ?_, ?_⟩
  · change (if head.isHidden then [] else head.itemNodes) ++
      ((if body.isHidden then [] else body.itemNodes) ++ []) = [word]
    rw [hHead, hVisible, hBody]
    rfl
  · change ((Style.ofText (some inner)).get? "font-weight").getD "normal" = weight
    rw [Style.get?_ofText, if_neg (by decide)]
    change (inner.get? "font-weight").getD "normal" = weight
    rw [hWeight, Option.getD_some]

end PageRender
