import PageRender.Paint.Page
import PageRender.Proofs.Layout.Blocks

/-! # What a page shows

Layout puts the words and controls of a page into lines, and painting turns them into commands. On this
way nothing is lost, doubled or put out of order: the texts that are painted are those that a walk
through the document meets, whichever elements become blocks and wherever lines are broken.
-/

namespace PageRender

variable {α : Type}

/-! ## What a walk meets -/

namespace Node

/-- What a word or a control shows: the word, or the label unless that is empty. -/
def itemTexts (n : PageTree) : ItemKind → List String
  | .word w => [w]
  | .control => if (controlLabel n).isEmpty then [] else [controlLabel n]

mutual

/-- The texts that a walk through a tree meets. It leaves out hidden elements and what is inside a line
break, and takes a control as a whole. -/
def shown : PageTree → List String
  | .text _ s => Text.wordsOf s
  | .element i t a cs =>
    if (element i t a cs).isHidden || t == "br" then []
    else if isControlTag t then (element i t a cs).itemTexts .control
    else forestShown cs

def forestShown : List PageTree → List String
  | [] => []
  | n :: ns => n.shown ++ forestShown ns

end

/-- A line break or a control has no block element as a child. -/
def KeepsBlocksOut (n : PageTree) : Prop :=
  ∀ t ∈ n.tag?, t = "br" ∨ isControlTag t → ∀ c ∈ n.children, ¬ c.beginsBlock

end Node

theorem Node.shown_of_isHidden {n : PageTree} (h : n.isHidden = true) : n.shown = [] := by
  cases n with
  | text i s => cases h
  | element i t a cs =>
    rw [Node.shown, h]
    rfl

def Piece.texts : Piece → List String
  | .item node kind => node.itemTexts kind
  | .lineBreak => []

mutual

theorem Node.texts_pieces (n : PageTree) : n.pieces.flatMap Piece.texts = n.shown := by
  cases n with
  | text i s =>
    rw [Node.pieces, Node.shown, List.flatMap_map]
    exact List.flatMap_singleton' _
  | element i t a cs =>
    rw [Node.pieces, Node.shown]
    cases (Node.element i t a cs).isHidden with
    | true => rfl
    | false =>
      by_cases hBreak : (t == "br") = true
      · rw [hBreak]
        rfl
      · rw [Bool.not_eq_true] at hBreak
        rw [hBreak]
        by_cases hControl : Node.isControlTag t = true
        · simp [hControl, Piece.texts]
        · simp [hControl, Node.texts_forestPieces cs]

theorem Node.texts_forestPieces (ns : List PageTree) :
    (Node.forestPieces ns).flatMap Piece.texts = Node.forestShown ns := by
  cases ns with
  | nil => rfl
  | cons n ns =>
    rw [Node.forestPieces, List.flatMap_append, n.texts_pieces, Node.texts_forestPieces ns]
    rfl

end

/-! ## Lines -/

def MeasuredItem.texts (m : MeasuredItem α) : List String :=
  m.node.itemTexts m.kind

def Item.texts (i : Item α) : List String :=
  i.node.itemTexts i.kind

def LineFilling.items (f : LineFilling α) : List (MeasuredItem α) :=
  f.lines.flatten

def Line.texts (l : Line α) : List String :=
  l.items.flatMap Item.texts

section

variable [Scalar α]

namespace LineFilling

theorem items_start : (start : LineFilling α).items = [] :=
  rfl

theorem items_newLine (f : LineFilling α) : f.newLine.items = f.items := by
  simp [items, lines, newLine]

theorem items_place (f : LineFilling α) (available : α) (item : MeasuredItem α) :
    (f.place available item).items = f.items ++ [item] := by
  have hAdd : ∀ (g : LineFilling α) (cursor : α),
      items { g with current := g.current ++ [item], cursor } = g.items ++ [item] := by
    intro g cursor
    simp [items, lines]
  rw [place]
  split
  · rw [hAdd, items_newLine]
  · exact hAdd f _

end LineFilling

theorem texts_measureItem {fonts : FontSource α} {node : PageTree} {kind : ItemKind}
    {m : MeasuredItem α} (h : measureItem fonts node kind = .ok m) : m.texts = node.itemTexts kind := by
  obtain ⟨font, -, h⟩ := Outcome.bind_eq_ok_iff.mp h
  cases kind
  all_goals
    obtain ⟨width, -, h⟩ := Outcome.bind_eq_ok_iff.mp h
    obtain ⟨space, -, h⟩ := Outcome.bind_eq_ok_iff.mp h
    cases h
    rfl

theorem texts_fillLines {fonts : FontSource α} {available : α} {ps : List Piece} {f g : LineFilling α}
    (h : fillLines fonts available f ps = .ok g) :
    g.items.flatMap MeasuredItem.texts =
      f.items.flatMap MeasuredItem.texts ++ ps.flatMap Piece.texts := by
  induction ps generalizing f with
  | nil =>
    cases h
    exact (List.append_nil _).symm
  | cons p ps ih =>
    cases p with
    | lineBreak =>
      rw [ih h, LineFilling.items_newLine]
      rfl
    | item node kind =>
      obtain ⟨m, hMeasure, hRest⟩ := Outcome.bind_eq_ok_iff.mp h
      rw [ih hRest, LineFilling.items_place, List.flatMap_append, List.flatMap_singleton,
        texts_measureItem hMeasure, List.append_assoc]
      rfl

theorem texts_placeItems (x baseline : α) (ms : List (MeasuredItem α)) :
    (placeItems x baseline ms).flatMap Item.texts = ms.flatMap MeasuredItem.texts := by
  induction ms generalizing x with
  | nil => rfl
  | cons m ms ih =>
    rw [placeItems, List.flatMap_cons, List.flatMap_cons, ih]
    rfl

theorem texts_placeLine (x y width : α) (ms : List (MeasuredItem α)) :
    (placeLine x y width ms).texts = ms.flatMap MeasuredItem.texts := by
  cases ms with
  | nil => rfl
  | cons m ms => exact texts_placeItems _ _ (m :: ms)

theorem texts_placeLines (x y width : α) (lines : List (List (MeasuredItem α))) :
    (placeLines x y width lines).flatMap Line.texts =
      lines.flatten.flatMap MeasuredItem.texts := by
  induction lines generalizing y with
  | nil => rfl
  | cons ms rest ih =>
    rw [placeLines, List.flatMap_cons, ih, List.flatten_cons, List.flatMap_append, texts_placeLine]

end

/-! ## Blocks -/

mutual

def Block.texts : Block α → List String
  | .lines _ ls => ls.flatMap Line.texts
  | .blocks _ bs => Block.allTexts bs

def Block.allTexts : List (Block α) → List String
  | [] => []
  | b :: bs => b.texts ++ Block.allTexts bs

end

section

variable [Scalar α] {fonts : FontSource α}

theorem texts_layoutLines {o : BlockOpening α} {pieces : List Piece} {b : Block α}
    (h : layoutLines fonts o pieces = .ok b) : b.texts = pieces.flatMap Piece.texts := by
  obtain ⟨filled, hFilled, h⟩ := Outcome.bind_eq_ok_iff.mp h
  cases h
  have hTexts := texts_fillLines hFilled
  rw [LineFilling.items_start] at hTexts
  exact (texts_placeLines _ _ _ filled.lines).trans hTexts

/-- An element whose children are stacked shows what they show: it is no control and no line break, or
there is nothing in it. -/
theorem Node.shown_of_not_fillsLines {n : PageTree} (hVisible : n.isHidden = false) (hOut : n.KeepsBlocksOut)
    (hStacks : n.fillsLines = false) : n.shown = Node.forestShown n.children := by
  cases n with
  | text i s => cases hStacks
  | element i t a cs =>
    rw [Node.fillsLines, Bool.not_eq_false'] at hStacks
    rw [Node.shown, hVisible, Bool.false_or, Node.children]
    rw [Node.stacksChildren, Bool.or_eq_true, Bool.and_eq_true] at hStacks
    rcases hStacks with hBlock | ⟨hEmpty, hControl⟩
    · obtain ⟨c, hc, hBegins⟩ := List.any_eq_true.mp hBlock
      have hPlain : ¬ (t = "br" ∨ Node.isControlTag t = true) :=
        fun hTag => hOut t rfl hTag c hc hBegins
      rw [not_or, Bool.not_eq_true] at hPlain
      rw [if_neg (by simpa using hPlain.1), hPlain.2]
      rfl
    · rw [Bool.not_eq_true'] at hControl
      rw [List.isEmpty_iff.mp hEmpty, hControl]
      exact ite_self _

theorem texts_of_laidBelow {above : α} {ns : List PageTree} {bs : List (Block α)}
    (hOut : ∀ n ∈ ns, n.All Node.KeepsBlocksOut)
    (h : LaidBelow (fun _ n b => n.isHidden = false → n.All Node.KeepsBlocksOut → b.texts = n.shown) above ns bs) :
    Block.allTexts bs = Node.forestShown ns := by
  induction h with
  | nil => rfl
  | hidden hHidden _ ih =>
    rw [ih (List.forall_mem_cons.mp hOut).2, Node.forestShown, Node.shown_of_isHidden hHidden, List.nil_append]
  | cons hVisible hBlock _ ih =>
    obtain ⟨hFirst, hOthers⟩ := List.forall_mem_cons.mp hOut
    rw [Block.allTexts, Node.forestShown, hBlock hVisible hFirst, ih hOthers]

theorem texts_layoutBlock {left available above : α} {n : PageTree} {b : Block α}
    (hVisible : n.isHidden = false) (hOut : n.All Node.KeepsBlocksOut)
    (h : layoutBlock fonts left available above n = .ok b) : b.texts = n.shown := by
  revert hVisible hOut
  apply layoutBlock_induction (motive := fun _ _ _ n b => n.isHidden = false → n.All Node.KeepsBlocksOut →
    b.texts = n.shown) ?_ ?_ h
  · intro left available above n b _ hLines _ _
    rw [texts_layoutLines hLines, Node.texts_pieces]
  · intro left available above n bs hStacks hBlocks hVisible hOut
    obtain ⟨hSelf, hChildren⟩ := Node.all_iff.mp hOut
    rw [stackBlocks, Block.texts, texts_of_laidBelow hChildren hBlocks,
      Node.shown_of_not_fillsLines hVisible hSelf hStacks]

end

/-! ## Painting -/

def Command.text? : Command α → Option String
  | .text _ s _ _ => some s
  | .fill .. | .border .. | .cursor .. => none

/-- The texts among the commands of a painting, in order. -/
def paintedTexts (cs : List (Command α)) : List String :=
  cs.filterMap Command.text?

theorem paintedTexts_append (cs ds : List (Command α)) :
    paintedTexts (cs ++ ds) = paintedTexts cs ++ paintedTexts ds :=
  List.filterMap_append

section

variable [Scalar α]

theorem paintedTexts_background (n : PageTree) (e : Extent α) :
    paintedTexts (paintBackground n e) = [] := by
  rw [paintBackground]
  split <;> rfl

theorem paintedTexts_frame (f : BlockFrame α) : paintedTexts (paintFrame f) = [] := by
  rw [paintFrame]
  split
  · rfl
  · rw [paintedTexts_append, paintedTexts_background]
    split <;> rfl

theorem paintedTexts_textAt {x y : α} {s : String} {font : Font α} {color : String} {cs : List (Command α)}
    (h : (Command.textAt x y s font color).map ([·]) = .ok cs) : paintedTexts cs = [s] := by
  obtain ⟨c, hText, rfl⟩ := Outcome.map_eq_ok_iff.mp h
  obtain ⟨width, -, h⟩ := Outcome.bind_eq_ok_iff.mp hText
  cases h
  rfl

theorem paintedTexts_control {i : Item α} {cs : List (Command α)} (h : paintControl i = .ok cs) :
    paintedTexts cs = i.node.itemTexts .control := by
  have hParts : ∀ (outline : Command α) (text cursor : List (Command α)),
      outline.text? = none → paintedTexts cursor = [] →
      paintedTexts (paintBackground i.node i.extent ++ [outline] ++ text ++ cursor) =
        paintedTexts text := by
    intro outline text cursor hOutline hCursor
    have hNone : paintedTexts [outline] = [] := List.filterMap_cons_none hOutline
    simp only [paintedTexts_append, paintedTexts_background, hNone, hCursor, List.append_nil,
      List.nil_append]
  obtain ⟨labelWidth, -, h⟩ := Outcome.bind_eq_ok_iff.mp h
  rw [Node.itemTexts]
  dsimp only at h
  split at h
  all_goals
    rename_i hLabel
    obtain ⟨text, hText, h⟩ := Outcome.bind_eq_ok_iff.mp h
    have hCommands : paintedTexts cs = paintedTexts text := by
      split at h
      · obtain ⟨before, -, h⟩ := Outcome.bind_eq_ok_iff.mp h
        rw [← Except.ok.inj h]
        exact hParts _ _ _ rfl rfl
      · rw [← Except.ok.inj h]
        exact hParts _ _ _ rfl rfl
    rw [hCommands]
  · cases hText
    rw [if_pos hLabel]
    rfl
  · rw [if_neg hLabel]
    exact paintedTexts_textAt hText

theorem paintedTexts_item {i : Item α} {cs : List (Command α)} (h : paintItem i = .ok cs) :
    paintedTexts cs = i.texts := by
  rw [paintItem] at h
  rw [Item.texts]
  split at h
  · rename_i w hKind
    rw [hKind]
    exact paintedTexts_textAt h
  · rename_i hKind
    rw [hKind]
    exact paintedTexts_control h

theorem paintedTexts_items {is : List (Item α)} {cs : List (Command α)} (h : paintItems is = .ok cs) :
    paintedTexts cs = is.flatMap Item.texts := by
  induction is generalizing cs with
  | nil =>
    cases h
    rfl
  | cons i is ih =>
    obtain ⟨first, hFirst, h⟩ := Outcome.bind_eq_ok_iff.mp h
    obtain ⟨others, hOthers, h⟩ := Outcome.bind_eq_ok_iff.mp h
    cases h
    rw [paintedTexts_append, paintedTexts_item hFirst, ih hOthers, List.flatMap_cons]

mutual

theorem paintedTexts_block {b : Block α} {cs : List (Command α)} (h : paintBlock b = .ok cs) :
    paintedTexts cs = b.texts := by
  cases b with
  | lines f ls =>
    rw [paintBlock] at h
    obtain ⟨inside, hInside, h⟩ := Outcome.bind_eq_ok_iff.mp h
    cases h
    rw [paintedTexts_append, paintedTexts_frame, paintedTexts_items hInside, List.flatMap_assoc]
    rfl
  | blocks f bs =>
    rw [paintBlock] at h
    obtain ⟨inside, hInside, h⟩ := Outcome.bind_eq_ok_iff.mp h
    cases h
    rw [paintedTexts_append, paintedTexts_frame, paintedTexts_blocks hInside]
    rfl

theorem paintedTexts_blocks {bs : List (Block α)} {cs : List (Command α)}
    (h : paintBlocks bs = .ok cs) : paintedTexts cs = Block.allTexts bs := by
  cases bs with
  | nil =>
    rw [paintBlocks] at h
    cases h
    rfl
  | cons b bs =>
    rw [paintBlocks] at h
    obtain ⟨first, hFirst, h⟩ := Outcome.bind_eq_ok_iff.mp h
    obtain ⟨others, hOthers, h⟩ := Outcome.bind_eq_ok_iff.mp h
    cases h
    rw [paintedTexts_append, paintedTexts_block hFirst, paintedTexts_blocks hOthers]
    rfl

end

/-- Whenever a page can be rendered, the texts that are painted are those that a walk through the
document meets, in this order. -/
theorem paintedTexts_displayOrEmpty {fonts : FontSource α} {viewport : α} {root : PageTree}
    (hVisible : root.isHidden = false) (hOut : root.All Node.KeepsBlocksOut)
    {page : DocumentBox α × List (Command α)} (h : renderPage fonts viewport root = .ok page) :
    paintedTexts (displayOrEmpty fonts viewport root) = root.shown := by
  have hDisplay : displayOrEmpty fonts viewport root = page.2 := by rw [displayOrEmpty, h]
  obtain ⟨d, hLayout, h⟩ := Outcome.bind_eq_ok_iff.mp h
  obtain ⟨display, hPaint, h⟩ := Outcome.bind_eq_ok_iff.mp h
  cases h
  obtain ⟨b, hBlock, hPage⟩ := Outcome.bind_eq_ok_iff.mp (Outcome.mapError_eq_ok_iff.mp hLayout)
  cases hPage
  rw [hDisplay, paintedTexts_block (Outcome.mapError_eq_ok_iff.mp hPaint),
    texts_layoutBlock hVisible hOut hBlock]

end

/-- A page with a text beside its blocks, an element inside a line, a line break and a hidden block. -/
def mixedPage : PageTree :=
  .element { id := 0 } "body" .empty [
    .text { id := 1 } "zero",
    .element { id := 2 } "p" .empty [
      .text { id := 3 } " one",
      .element { id := 4 } "br" .empty [],
      .element { id := 5 } "b" .empty [.text { id := 6 } "two "]],
    .element { id := 7, style := StyleMap.empty.set "display" "none" } "div" .empty [
      .text { id := 8 } "hidden"],
    .element { id := 9 } "button" .empty [.text { id := 10 } " three "]]

theorem paintedTexts_mixedPage :
    mixedPage.isHidden = false ∧ mixedPage.All Node.KeepsBlocksOut ∧
    (∃ page, renderPage standardFonts 800 mixedPage = .ok page) ∧
    paintedTexts (displayOrEmpty standardFonts 800 mixedPage) = ["zero", "one", "two", "three"] := by
  have hVisible : mixedPage.isHidden = false := by decide +kernel
  have hOut : mixedPage.All Node.KeepsBlocksOut := by
    unfold Node.KeepsBlocksOut
    decide +kernel
  have hIsOk : (renderPage standardFonts 800 mixedPage).isOk = true := by decide +kernel
  have hShown : mixedPage.shown = ["zero", "one", "two", "three"] := by decide +kernel
  obtain ⟨page, hPage⟩ := Outcome.exists_of_isOk hIsOk
  exact ⟨hVisible, hOut, ⟨page, hPage⟩,
    (paintedTexts_displayOrEmpty hVisible hOut hPage).trans hShown⟩

end PageRender
