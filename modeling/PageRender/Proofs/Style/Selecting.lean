import PageRender.Paint.Page
import PageRender.Proofs.Sheet.Rows
import PageRender.Proofs.Style.Computed

/-! # What a selector selects

A selector that is read from a row of words selects the elements that have the last word for their tag and the
other words, in their order, among the tags of their ancestors, wherever and however often the same tag occurs
there. It weighs as much as there are words.
-/

namespace PageRender

open Sheet

namespace Selector

theorem priority_eq (s : Selector) : s.priority = s.words.length := by
  induction s with
  | tag name => rfl
  | within ancestor name ih => rw [priority, words, List.length_append, ih, List.length_singleton]

theorem words_foldl (s : Selector) (ws : List String) :
    (ws.foldl (fun s w => s.within (Text.foldCase w)) s).words = s.words ++ ws.map Text.foldCase := by
  induction ws generalizing s with
  | nil => rw [List.foldl_nil, List.map_nil, List.append_nil]
  | cons w ws ih => rw [List.foldl_cons, ih, words, List.map_cons, List.append_assoc, List.singleton_append]

theorem words_selectorOf {row : List String} (h : row ≠ []) : (selectorOf row).words = row.map Text.foldCase := by
  cases row with
  | nil => exact absurd rfl h
  | cons w ws => exact words_foldl _ ws

/-- A row of tags from below stands among some tags if it does so from one of them up. -/
theorem anyAbove_iff {test : String → List String → Bool} {row : List String} (hRow : row ≠ [])
    (h : ∀ t above, test t above = true ↔ ∃ others, row = t :: others ∧ others.Sublist above)
    (above : List String) : anyAbove test above = true ↔ row.Sublist above := by
  induction above with
  | nil => simpa [anyAbove] using hRow
  | cons t above ih =>
    rw [anyAbove, Bool.or_eq_true, h, ih, List.sublist_cons_iff]
    exact or_comm

theorem reverse_words_ne_nil (s : Selector) : s.words.reverse ≠ [] := by
  cases s <;> simp [words]

/-- The tag of a selected element and tags of its ancestors are the words from the last one to the first. -/
theorem selects_iff_reverse (s : Selector) (t : String) (above : List String) :
    s.selects t above = true ↔ ∃ others, s.words.reverse = t :: others ∧ others.Sublist above := by
  induction s generalizing t above with
  | tag name =>
    rw [selects, beq_iff_eq, words, List.reverse_singleton]
    constructor
    · rintro rfl
      exact ⟨[], rfl, List.nil_sublist above⟩
    · rintro ⟨others, hSame, -⟩
      exact (List.cons.inj hSame).1
  | within ancestor name ih =>
    rw [selects, Bool.and_eq_true, beq_iff_eq, anyAbove_iff ancestor.reverse_words_ne_nil ih, words,
      List.reverse_append, List.reverse_singleton, List.singleton_append]
    constructor
    · rintro ⟨rfl, hAbove⟩
      exact ⟨_, rfl, hAbove⟩
    · rintro ⟨others, hSame, hAbove⟩
      obtain ⟨hName, rfl⟩ := List.cons.inj hSame
      exact ⟨hName, hAbove⟩

theorem selects_iff {s : Selector} {outer : List String} {own : String} (hWords : s.words = outer ++ [own])
    (t : String) (above : List String) :
    s.selects t above = true ↔ t = own ∧ outer.Sublist above.reverse := by
  rw [selects_iff_reverse, hWords, List.reverse_append, List.reverse_singleton, List.singleton_append]
  constructor
  · rintro ⟨others, hSame, hAbove⟩
    obtain ⟨rfl, rfl⟩ := List.cons.inj hSame
    exact ⟨rfl, by rwa [← List.reverse_sublist, List.reverse_reverse]⟩
  · rintro ⟨rfl, hAbove⟩
    exact ⟨_, rfl, by rwa [← List.reverse_sublist, List.reverse_reverse]⟩

/-- Whether a node is selected, its ancestors being listed from its parent up. -/
def picks (s : Selector) (ancestors : List PageTree) (n : PageTree) : Bool :=
  n.tag?.any (s.selects · (Node.tagsOf ancestors))

theorem picks_iff {s : Selector} {outer : List String} {own : String} (hWords : s.words = outer ++ [own])
    (ancestors : List PageTree) (n : PageTree) : s.picks ancestors n = true ↔
      n.tag? = some own ∧ outer.Sublist (Node.tagsOf ancestors).reverse := by
  rw [picks, Option.any_eq_true]
  constructor
  · rintro ⟨t, hTag, hSelects⟩
    obtain ⟨rfl, hOuter⟩ := (selects_iff hWords t _).mp hSelects
    exact ⟨hTag, hOuter⟩
  · rintro ⟨hTag, hOuter⟩
    exact ⟨own, hTag, (selects_iff hWords own _).mpr ⟨rfl, hOuter⟩⟩

end Selector

namespace Node

mutual

/-- The nodes that are selected in a tree are those that the selector picks with regard to their ancestors. -/
theorem selectedBy_eq (s : Selector) (ancestors : List PageTree) (n : PageTree) :
    n.selectedBy s (tagsOf ancestors) =
      ((n.lineages ancestors).filter fun e => s.picks e.1 e.2).map Prod.snd := by
  cases n with
  | text i text => rfl
  | element i t a cs =>
    have hBelow := forestSelectedBy_eq s (.element i t a cs :: ancestors) cs
    have hPicks : s.picks ancestors (.element i t a cs) = s.selects t (tagsOf ancestors) := rfl
    rw [selectedBy, lineages, List.filter_cons, hPicks]
    split
    · exact congrArg _ hBelow
    · exact hBelow

theorem forestSelectedBy_eq (s : Selector) (ancestors ns : List PageTree) :
    forestSelectedBy s (tagsOf ancestors) ns =
      ((forestLineages ancestors ns).filter fun e => s.picks e.1 e.2).map Prod.snd := by
  cases ns with
  | nil => rfl
  | cons n ns =>
    rw [forestSelectedBy, forestLineages, List.filter_append, List.map_append, selectedBy_eq,
      forestSelectedBy_eq]

end

end Node

namespace Selector

theorem words_of_row {outer : List String} {own : String} {cs rest : List Char} {s : Selector}
    (hRead : selector cs = .ok (s, rest)) (hRow : Row (outer ++ [own]) cs rest) :
    s.words = outer.map Text.foldCase ++ [Text.foldCase own] := by
  have hNonempty : outer ++ [own] ≠ [] := by simp
  have hSame := hRow.selector_eq hNonempty
  rw [hRead] at hSame
  cases hSame
  rw [words_selectorOf hNonempty, List.map_append, List.map_singleton]

/-- What is read as a selector is a row of one or more words, and every such row is. In every tree it selects the
elements whose tag is the last word and below whose ancestors' tags, from the root down, the other words stand as
a subsequence, and its priority is the number of the words. -/
theorem selector_row (cs rest : List Char) :
    ((∃ s, selector cs = .ok (s, rest)) ↔ ∃ outer own, Row (outer ++ [own]) cs rest) ∧
    ∀ s outer own, selector cs = .ok (s, rest) → Row (outer ++ [own]) cs rest →
      s.priority = outer.length + 1 ∧
      ∀ root : PageTree,
        root.selectedBy s [] = ((root.lineages []).filter fun e => s.picks e.1 e.2).map Prod.snd ∧
        ∀ e ∈ root.lineages [], s.picks e.1 e.2 = true ↔
          e.2.tag? = some (Text.foldCase own) ∧
            (outer.map Text.foldCase).Sublist (Node.tagsOf e.1).reverse := by
  refine ⟨⟨?_, ?_⟩, ?_⟩
  · rintro ⟨s, hRead⟩
    obtain ⟨w, ws, hRow, -⟩ := selector_eq_ok_iff.mp hRead
    refine ⟨(w :: ws).dropLast, (w :: ws).getLast (List.cons_ne_nil w ws), ?_⟩
    rwa [List.dropLast_append_getLast]
  · rintro ⟨outer, own, hRow⟩
    exact ⟨_, hRow.selector_eq (by simp)⟩
  · intro s outer own hRead hRow
    have hWords := words_of_row hRead hRow
    refine ⟨?_, fun root => ⟨Node.selectedBy_eq s [] root, fun e _ => picks_iff hWords e.1 e.2⟩⟩
    rw [priority_eq, hWords, List.length_append, List.length_map, List.length_singleton]

/-- A paragraph inside one `div`, and one inside two. -/
def nestedParagraphs : PageTree :=
  .element { id := 0 } "div" .empty [
    .element { id := 1 } "p" .empty [],
    .element { id := 2 } "div" .empty [.element { id := 3 } "p" .empty []]]

theorem row_twice : Row (["div", "DIV"] ++ ["p"]) "div /* , */ DIV p, h1".toList ", h1".toList := by
  have hComment : skipBlank " /* , */ DIV p, h1".toList = "DIV p, h1".toList := by
    have hText : " /* , */ DIV p, h1".toList = ' ' :: '/' :: '*' :: " , */ DIV p, h1".toList := by decide
    have hAfter : afterComment " , */ DIV p, h1".toList = ' ' :: "DIV p, h1".toList := by decide
    rw [hText, skipBlank_of_isBlank (by decide), skipBlank_comment, hAfter, skipBlank_of_isBlank (by decide)]
    exact skipBlank_mark (by decide) _
  have hBlank : skipBlank " p, h1".toList = "p, h1".toList := by
    have hText : " p, h1".toList = ' ' :: "p, h1".toList := by decide
    rw [hText, skipBlank_of_isBlank (by decide)]
    exact skipBlank_mark (by decide) _
  have hFirst : BeginsWith "div" "div /* , */ DIV p, h1".toList " /* , */ DIV p, h1".toList :=
    ⟨by decide, by decide, by decide +kernel, forall_head?_cons (by decide) _⟩
  have hSecond : BeginsWith "DIV" "DIV p, h1".toList " p, h1".toList :=
    ⟨by decide, by decide, by decide +kernel, forall_head?_cons (by decide) _⟩
  have hThird : BeginsWith "p" "p, h1".toList ", h1".toList :=
    ⟨by decide, by decide, by decide +kernel, forall_head?_cons (by decide) _⟩
  have hEnd : Row [] (skipBlank ", h1".toList) ", h1".toList := by
    have hMark : skipBlank ", h1".toList = ", h1".toList := skipBlank_mark (by decide) _
    rw [hMark]
    refine .done ?_
    rintro _ ⟨⟩
    exact .inr rfl
  exact .word hFirst (hComment ▸ .word hSecond (hBlank ▸ .word hThird hEnd))

/-- A tag that is named twice has to occur twice above the element. -/
theorem selector_row_twice :
    ∃ s, selector "div /* , */ DIV p, h1".toList = .ok (s, ", h1".toList) ∧
      Row (["div", "DIV"] ++ ["p"]) "div /* , */ DIV p, h1".toList ", h1".toList ∧ s.priority = 3 ∧
      ∀ e ∈ nestedParagraphs.lineages [], s.picks e.1 e.2 = true ↔ e.2.info.id = 3 := by
  obtain ⟨hReads, hSelects⟩ := selector_row "div /* , */ DIV p, h1".toList ", h1".toList
  obtain ⟨s, hRead⟩ := hReads.mpr ⟨_, _, row_twice⟩
  obtain ⟨hPriority, hPicks⟩ := hSelects s _ _ hRead row_twice
  have hOwn : Text.foldCase "p" = "p" := by decide +kernel
  have hOuter : ["div", "DIV"].map Text.foldCase = ["div", "div"] := by decide +kernel
  have hNodes : ∀ e ∈ nestedParagraphs.lineages [],
      e.2.tag? = some "p" ∧ ["div", "div"].Sublist (Node.tagsOf e.1).reverse ↔ e.2.info.id = 3 := by
    decide +kernel
  refine ⟨s, hRead, row_twice, hPriority, fun e he => ?_⟩
  rw [(hPicks nestedParagraphs).2 e he, hOwn, hOuter]
  exact hNodes e he

end Selector

end PageRender
