import PageRender.Proofs.Markup.DocumentShape
import PageRender.Proofs.Markup.Rereading

/-! # Fragments

The markup inside an element is read in a body of its own. Its nodes come back as they were if each of
them reads back, and if what follows one that closes the body opens the body again.
-/

namespace PageRender

namespace Node

/-- What opens the body again: everything but a section and what belongs into the head. -/
def OpensBody (tag : Option String) : Prop :=
  Builder.standsInRoot tag = false ∧ Builder.isHeadTag tag = false

instance : DecidablePred OpensBody :=
  fun _ => inferInstanceAs (Decidable (_ ∧ _))

/-- An element whose content is the same after it was written and read back. -/
structure Reversible (n : Node Unit) : Prop where
  below : ∀ c ∈ n.children, c.All (ReadsBack true)
  plain : ∀ s, text () s ∈ n.children → '<' ∉ s.toList
  follows : Follows OpensBody true false n.children

end Node

namespace Markup

open OpenElement Node

/-- The place where a fragment is read. -/
def fragmentPlace : Place :=
  .ofSection ⟨"html", .empty, [.bare "head"]⟩ "body" .empty

theorem reopens_fragmentPlace {tag : Option String} (h : OpensBody tag) : fragmentPlace.Reopens tag := by
  intro ks f
  have hShown : shown "body" ks = ks := shown_of_ne_html (by decide) ks
  have hStack : fragmentPlace.stack true ks =
      [⟨"html", .empty, [.bare "head", .element () "body" .empty ks]⟩] := by
    simp [Place.stack, fragmentPlace, Place.ofSection, Place.top, hShown, add, close]
  have hOpen : fragmentPlace.stack false ks =
      [⟨"body", .empty, ks⟩, ⟨"html", .empty, [.bare "head"]⟩] := by
    simp [Place.stack, fragmentPlace, Place.ofSection, Place.top, hShown]
  have hHead : (OpenElement.child? ⟨"html", .empty, [.bare "head", .element () "body" .empty ks]⟩
      "head").isSome = true := rfl
  rw [hStack, hOpen, Builder.settle_mk_root, Builder.enterSection_mk, h.1, h.2, if_neg (by simp),
    if_neg Bool.false_ne_true, if_pos hHead, Builder.openSection_mk]
  rfl

theorem opensBody_closingBody : OpensBody (some (Tag.read (Tag.closingText "body")).name) := by
  have hName : (Tag.read (Tag.closingText "body")).name = "/body" := by
    rw [← String.toList_inj, Tag.name_read_closingText Tag.isElementName_body.toIsName (by decide)]
    rfl
  rw [hName]
  exact ⟨by decide, by decide⟩

theorem settle_closingBody (closed : Bool) (ks : List (Node Unit)) (f : List (Nat × Finding)) :
    Builder.settle ⟨fragmentPlace.stack closed ks, f⟩ (some (Tag.read (Tag.closingText "body")).name) =
      ⟨fragmentPlace.stack false ks, f⟩ := by
  cases closed with
  | false => exact Place.rests_ofSection .empty (.inl (by decide)) ks f
  | true => exact reopens_fragmentPlace opensBody_closingBody ks f

theorem read_fragment {source : String} {ns : List (Node Unit)} (h : source.toList = forestChars true ns) :
    read {} false [] ("<body>" ++ source ++ "</body>").toList =
      read ⟨fragmentPlace.stack false [], []⟩ false []
        (forestChars true ns ++ '<' :: (Tag.closingText "body" ++ ['>'])) := by
  have hChars : ("<body>" ++ source ++ "</body>").toList =
      '<' :: (Tag.openingText "body" .empty ++
        '>' :: (forestChars true ns ++ '<' :: (Tag.closingText "body" ++ ['>']))) := by
    rw [String.toList_append, String.toList_append, h, List.append_assoc]
    rfl
  rw [hChars]
  exact read_openingText Tag.isElementName_body Tag.areAttributes_empty (fun e he => absurd he List.not_mem_nil)
    (by decide) rfl (by decide) _

/-- A fragment is read as the nodes whose markup it is. -/
theorem parseFragment_eq {source : String} {ns : List (Node Unit)} (h : Rereadable true ns)
    (hFollows : Follows OpensBody true false ns) (hSource : source.toList = forestChars true ns) :
    parseFragment source = joinedForest ns := by
  have hReady : Ready true fragmentPlace [] false [] ns :=
    { sound := ⟨by decide, fun _ => ⟨by decide, fun _ => Place.rests_ofSection _ (.inl (by decide))⟩⟩
      run := fun h => absurd rfl h
      rests := fun n _ => Place.rests_ofSection _ (.inl (by decide))
      follows := hFollows.mono fun _ h => reopens_fragmentPlace h
      fit := fun h => absurd h (by decide) }
  obtain ⟨f, hInside, -⟩ := forestReads ns h _ _ _ _ [] (Tag.closingText "body" ++ ['>']) hReady
  rw [Bool.false_and, pending_nil, List.nil_append, List.nil_append] at hInside
  obtain ⟨f', hRead, -⟩ := read_closingText (settle_closingBody _ (joinedForest ns) f)
    Tag.isElementName_body.toIsName (by decide) []
  have hBody : fragmentPlace.parent.add (fragmentPlace.top (joinedForest ns)).close =
      ⟨"html", .empty, [.bare "head", .element () "body" .empty (joinedForest ns)]⟩ := by
    simp [fragmentPlace, Place.ofSection, Place.top, shown_of_ne_html, add, close]
  have hBuilder : read {} false [] ("<body>" ++ source ++ "</body>").toList =
      ⟨[⟨"html", .empty, [.bare "head", .element () "body" .empty (joinedForest ns)]⟩], f'⟩ := by
    rw [read_fragment hSource, hInside, hRead, hBody, read_nil]
    rfl
  rw [parseFragment, parse, hBuilder, finish_sections rfl rfl]
  rfl

theorem toList_innerMarkup (n : Node Unit) : n.innerMarkup.toList = forestChars true n.children := by
  rw [innerMarkup, ← writtenForest_true, toList_writtenForest]

/-- The content of a reversible element is the same after it was written and read back. -/
theorem parseFragment_innerMarkup {n : Node Unit} (hLawful : n.All Node.Lawful) (h : n.Reversible) :
    parseFragment n.innerMarkup = joinedForest n.children :=
  parseFragment_eq ⟨h.plain, (all_iff.mp hLawful).2, h.below⟩ h.follows (toList_innerMarkup n)

end Markup

end PageRender
