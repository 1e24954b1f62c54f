import Mathlib.Data.List.Basic
import PageRender.Proofs.Markup.Descendants
import PageRender.Style.Cascade

/-! # Styles from the top down

The nodes of a tree are styled where they stand, one after the other, and each looks up the style that its
parent has by then. As a parent is always styled before its children, this is the same as passing styles down
from the root, and the styles that the nodes have had before are never seen.
-/

namespace PageRender

namespace Node

variable {α : Type}

/-! ## Changes at the end of a way -/

theorem at?_append (n : Node α) (p q : Path) : n.at? (p ++ q) = (n.at? p).bind (·.at? q) := by
  induction p generalizing n with
  | nil => rfl
  | cons k p ih =>
    rw [List.cons_append, at?, at?, Option.bind_assoc]
    exact Option.bind_congr fun c _ => ih c

theorem changeAt_append (f : Node α → Node α) (p q : Path) (n : Node α) :
    changeAt f (p ++ q) n = changeAt (changeAt f q) p n := by
  induction p generalizing n with
  | nil => rfl
  | cons k p ih =>
    cases n with
    | text i s => rfl
    | element i t a cs =>
      have hBelow : changeAt f (p ++ q) = changeAt (changeAt f q) p := funext ih
      rw [List.cons_append, changeAt, changeAt, hBelow]

theorem changeAt_changeAt (f g : Node α → Node α) (p : Path) (n : Node α) :
    changeAt f p (changeAt g p n) = changeAt (f ∘ g) p n := by
  induction p generalizing n with
  | nil => rfl
  | cons k p ih =>
    cases n with
    | text i s => rfl
    | element i t a cs =>
      have hBelow : changeAt f p ∘ changeAt g p = changeAt (f ∘ g) p := funext ih
      rw [changeAt, changeAt, changeAt, List.modify_modify_eq, hBelow]

theorem at?_changeAt (f : Node α → Node α) (p : Path) (n : Node α) :
    (changeAt f p n).at? p = (n.at? p).map f := by
  induction p generalizing n with
  | nil => rfl
  | cons k p ih =>
    cases n with
    | text i s => rfl
    | element i t a cs =>
      rw [changeAt, at?, at?, children, children, List.getElem?_modify_eq]
      cases cs[k]? with
      | none => rfl
      | some c => exact ih c

theorem changeAt_congr {f g : Node α → Node α} {p : Path} {n m : Node α} (h : n.at? p = some m)
    (hAgree : f m = g m) : changeAt f p n = changeAt g p n := by
  induction p generalizing n with
  | nil =>
    cases h
    exact hAgree
  | cons k p ih =>
    cases n with
    | text i s => rfl
    | element i t a cs =>
      obtain ⟨c, hChild, hBelow⟩ := Option.bind_eq_some_iff.mp h
      have hFound : cs[k]? = some c := hChild
      rw [changeAt, changeAt]
      congr 1
      apply List.ext_getElem?
      intro j
      by_cases hj : k = j
      · obtain rfl := hj
        rw [List.getElem?_modify_eq, List.getElem?_modify_eq, hFound]
        exact congrArg some (ih hBelow)
      · rw [List.getElem?_modify_ne _ _ hj, List.getElem?_modify_ne _ _ hj]

/-- The tree in which another node stands at the end of a way. -/
def putAt (m : Node α) : Path → Node α → Node α :=
  changeAt fun _ => m

theorem changeAt_eq_putAt {f : Node α → Node α} {p : Path} {n m : Node α} (h : n.at? p = some m) :
    changeAt f p n = putAt (f m) p n :=
  changeAt_congr h rfl

theorem at?_putAt {p : Path} {n k : Node α} (h : n.at? p = some k) (m : Node α) :
    (putAt m p n).at? p = some m := by
  rw [putAt, at?_changeAt, h]
  rfl

/-- A child of the node at the end of a way is put there by changing that node. -/
theorem putAt_child (i : α) (t : String) (a : Attributes) (before : List (Node α)) (n m : Node α)
    (after : List (Node α)) (p : Path) (root : Node α) :
    putAt m (p ++ [before.length]) (putAt (element i t a (before ++ n :: after)) p root) =
      putAt (element i t a (before ++ m :: after)) p root := by
  rw [putAt, changeAt_append, putAt, changeAt_changeAt]
  congr 1
  funext _
  rw [Function.comp_apply, changeAt, List.modify_eq_take_cons_drop (by simp)]
  simp [changeAt]

end Node

namespace Style

/-! ## Passing styles down -/

mutual

/-- The tree in which every node has its style, computed from that of its parent. -/
def tree (rules : List Rule) (parent : Option StyleMap) (above : List String) :
    PageTree → PageTree
  | .text i s => .text { i with style := ofNode rules parent above (.text i s) } s
  | .element i t a cs =>
    let style := ofNode rules parent above (.element i t a cs)
    .element { i with style } t a (forest rules (some style) (t :: above) cs)

def forest (rules : List Rule) (parent : Option StyleMap) (above : List String) :
    List PageTree → List PageTree
  | [] => []
  | n :: ns => tree rules parent above n :: forest rules parent above ns

end

/-- The visits of some nodes with one parent, numbered from the first one. -/
def visits (path : Node.Path) (above : List String) (first : Nat) (ns : List PageTree) : List Visit :=
  (ns.zipIdx first).map fun (n, k) => ⟨path ++ [k], some path, above, n⟩

mutual

/-- A node that waits is given its style, and all below it theirs, before anything else happens. -/
theorem styleAll_cons (rules : List Rule) {path : Node.Path} (parent : Option Node.Path) (above : List String)
    {root n : PageTree} (h : root.at? path = some n) (pending : List Visit) :
    styleAll rules root (⟨path, parent, above, n⟩ :: pending) =
      styleAll rules (Node.putAt (tree rules ((parent.bind root.at?).map (·.info.style)) above n) path root)
        pending := by
  have hStyled := Node.changeAt_eq_putAt (f := Node.mapInfo
    ({ · with style := ofNode rules ((parent.bind root.at?).map (·.info.style)) above n })) h
  rw [styleAll, styleVisited]
  dsimp only
  rw [hStyled]
  cases n with
  | text i s => rfl
  | element i t a cs => exact styleAll_visits rules _ t a [] cs _ h pending

/-- The children of a node that is styled are given their styles from the first one on. -/
theorem styleAll_visits (rules : List Rule) (i : NodeInfo) (t : String) (a : Attributes)
    (done ns : List PageTree) {path : Node.Path} (above : List String) {root m : PageTree}
    (h : root.at? path = some m) (pending : List Visit) :
    styleAll rules (Node.putAt (.element i t a (done ++ ns)) path root)
        (visits path above done.length ns ++ pending) =
      styleAll rules (Node.putAt (.element i t a (done ++ forest rules (some i.style) above ns)) path root)
        pending := by
  cases ns with
  | nil => rfl
  | cons n ns =>
    have hHere := Node.at?_putAt h (.element i t a (done ++ n :: ns))
    have hChild : (Node.putAt (.element i t a (done ++ n :: ns)) path root).at? (path ++ [done.length]) =
        some n := by
      rw [Node.at?_append, hHere]
      simp [Node.at?, Node.children]
    have hFirst := styleAll_cons rules (some path) above hChild
      (visits path above (done.length + 1) ns ++ pending)
    have hOthers := styleAll_visits rules i t a (done ++ [tree rules (some i.style) above n]) ns above h pending
    rw [Option.bind_some, hHere, Option.map_some, Node.putAt_child] at hFirst
    rw [List.length_append, List.length_singleton, List.append_assoc, List.append_assoc] at hOthers
    exact hFirst.trans hOthers

end

theorem styleAll_start (rules : List Rule) (root : PageTree) :
    styleAll rules root [.start root] = tree rules none [] root := by
  have hHere : root.at? [] = some root := rfl
  have hRoot := styleAll_cons rules none [] hHere []
  rw [Visit.start, hRoot, styleAll]
  rfl

theorem apply_eq (root : PageTree) (author user : String) :
    apply root author user =
      (tree (Stylesheet.byPriority (Stylesheet.parse (combinedSheet root author user)).1) none [] root,
        (Stylesheet.parse (combinedSheet root author user)).2) := by
  rw [apply]
  generalize Stylesheet.parse (combinedSheet root author user) = sheet
  obtain ⟨rules, diagnostics⟩ := sheet
  dsimp only
  rw [styleAll_start]

end Style

/-! ## Earlier styles -/

namespace Node

mutual

/-- A tree none of whose nodes has been given a style. -/
def unstyled : PageTree → PageTree
  | .text i s => .text { i with style := .empty } s
  | .element i t a cs => .element { i with style := .empty } t a (forestUnstyled cs)

def forestUnstyled : List PageTree → List PageTree
  | [] => []
  | n :: ns => n.unstyled :: forestUnstyled ns

end

theorem forestUnstyled_eq_map (ns : List PageTree) : forestUnstyled ns = ns.map unstyled := by
  induction ns with
  | nil => rfl
  | cons n ns ih => rw [forestUnstyled, ih, List.map_cons]

theorem children_unstyled (n : PageTree) : n.unstyled.children = n.children.map unstyled := by
  cases n with
  | text i s => rfl
  | element i t a cs => exact forestUnstyled_eq_map cs

theorem tag?_unstyled (n : PageTree) : n.unstyled.tag? = n.tag? := by
  cases n <;> rfl

theorem text?_unstyled (n : PageTree) : n.unstyled.text? = n.text? := by
  cases n <;> rfl

theorem descendants_unstyled (n : PageTree) : n.unstyled.descendants = n.descendants.map unstyled := by
  induction n using inductionOnChildren with
  | step n ih =>
    rw [descendants_eq_cons, descendants_eq_cons n, children_unstyled, List.map_cons, List.map_flatMap,
      List.flatMap_map]
    congr 1
    exact List.flatMap_congr ih

end Node

namespace Style

theorem embeddedSheet_unstyled (root : PageTree) : embeddedSheet root.unstyled = embeddedSheet root := by
  have hTag : Node.hasTag "style" ∘ Node.unstyled = Node.hasTag "style" :=
    funext fun n => by rw [Function.comp_apply, Node.hasTag, Node.hasTag, Node.tag?_unstyled]
  have hText : Node.text? ∘ Node.unstyled = (Node.text? : PageTree → Option String) :=
    funext Node.text?_unstyled
  rw [embeddedSheet, embeddedSheet, Node.descendants_unstyled, List.filter_map, hTag, List.flatMap_map]
  simp only [Node.children_unstyled, List.filterMap_map, hText]

theorem combinedSheet_unstyled (root : PageTree) (author user : String) :
    combinedSheet root.unstyled author user = combinedSheet root author user := by
  rw [combinedSheet, combinedSheet, embeddedSheet_unstyled]

mutual

theorem tree_unstyled (rules : List Rule) (parent : Option StyleMap) (above : List String) (n : PageTree) :
    tree rules parent above n.unstyled = tree rules parent above n := by
  cases n with
  | text i s => rfl
  | element i t a cs =>
    rw [Node.unstyled, tree, tree, forest_unstyled]
    rfl

theorem forest_unstyled (rules : List Rule) (parent : Option StyleMap) (above : List String)
    (ns : List PageTree) :
    forest rules parent above (Node.forestUnstyled ns) = forest rules parent above ns := by
  cases ns with
  | nil => rfl
  | cons n ns => rw [Node.forestUnstyled, forest, forest, tree_unstyled, forest_unstyled]

end

mutual

theorem unstyled_tree (rules : List Rule) (parent : Option StyleMap) (above : List String) (n : PageTree) :
    (tree rules parent above n).unstyled = n.unstyled := by
  cases n with
  | text i s => rfl
  | element i t a cs => rw [tree, Node.unstyled, Node.unstyled, forestUnstyled_forest]

theorem forestUnstyled_forest (rules : List Rule) (parent : Option StyleMap) (above : List String)
    (ns : List PageTree) : Node.forestUnstyled (forest rules parent above ns) = Node.forestUnstyled ns := by
  cases ns with
  | nil => rfl
  | cons n ns =>
    rw [forest, Node.forestUnstyled, Node.forestUnstyled, unstyled_tree, forestUnstyled_forest]

end

theorem apply_unstyled (root : PageTree) (author user : String) :
    apply root.unstyled author user = apply root author user := by
  rw [apply_eq, apply_eq, combinedSheet_unstyled, tree_unstyled]

theorem unstyled_apply (root : PageTree) (author user : String) :
    (apply root author user).1.unstyled = root.unstyled := by
  rw [apply_eq]
  exact unstyled_tree _ none [] root

/-- A tree that has been styled with some sheets of author and user, one pair after the other. -/
def styledBefore (root : PageTree) (sheets : List (String × String)) : PageTree :=
  sheets.foldl (fun n s => (apply n s.1 s.2).1) root

theorem unstyled_styledBefore (root : PageTree) (sheets : List (String × String)) :
    (styledBefore root sheets).unstyled = root.unstyled := by
  rw [styledBefore]
  induction sheets generalizing root with
  | nil => rfl
  | cons s sheets ih => rw [List.foldl_cons, ih, unstyled_apply]

/-- Whatever styles the nodes of a tree have had and however often it has been styled, it is styled as if for
the first time: from the top down, and in nothing but its styles is it another tree. -/
theorem apply_styledBefore (root : PageTree) (sheets : List (String × String)) (author user : String) :
    apply (styledBefore root sheets) author user = apply root.unstyled author user ∧
    apply root.unstyled author user =
      (tree (Stylesheet.byPriority (Stylesheet.parse (combinedSheet root author user)).1) none [] root.unstyled,
        (Stylesheet.parse (combinedSheet root author user)).2) ∧
    (apply root author user).1.unstyled = root.unstyled ∧
    apply (apply root author user).1 author user = apply root author user := by
  have hForgets : ∀ earlier, apply (styledBefore root earlier) author user = apply root author user := by
    intro earlier
    rw [← apply_unstyled, unstyled_styledBefore, apply_unstyled]
  refine ⟨?_, ?_, unstyled_apply root author user, hForgets [(author, user)]⟩
  · rw [hForgets, apply_unstyled]
  · rw [apply_eq, combinedSheet_unstyled]

end Style

end PageRender
