import PageRender.Proofs.Markup.Actions
import PageRender.Proofs.Markup.Descendants
import PageRender.Proofs.Markup.Implied
import PageRender.Proofs.Markup.Names

/-! # Moves of the stack of open elements

Whatever the source says, the open elements change by six moves only. Every action of the reader is
a sequence of moves from a stack that is rooted: an `html` element outermost, with nothing in it but
one head and one body, of which one may be open. What a move keeps holds of every document.
-/

namespace PageRender

namespace OpenElement

def childTags (e : OpenElement) : List (Option String) :=
  e.children.map Node.tag?

/-- What stands after the first child with a tag. -/
def after (e : OpenElement) (tag : String) : List (Node Unit) :=
  (e.children.dropWhile (!Node.hasTag tag ·)).tail

theorem hasTag_iff {n : Node Unit} {tag : String} : n.hasTag tag = true ↔ n.tag? = some tag := by
  simp [Node.hasTag]

theorem child?_eq_none_iff {e : OpenElement} {tag : String} :
    e.child? tag = none ↔ some tag ∉ e.childTags := by
  rw [child?, List.find?_eq_none, childTags, List.mem_map]
  constructor
  · rintro h ⟨n, hn, hTag⟩
    exact h n hn (hasTag_iff.mpr hTag)
  · intro h n hn hTag
    exact h ⟨n, hn, hasTag_iff.mp hTag⟩

/-- A section that has been there is taken from its place in front of what follows it. -/
theorem opened_of_child? {e : OpenElement} {tag : String} {n : Node Unit} (a : Attributes)
    (h : e.child? tag = some n) :
    ∃ before, e.children = before ++ (e.opened tag a).close :: e.after tag ∧
      (e.opened tag a).close = n ∧ (e.without tag).children = before ++ e.after tag ∧
      some tag ∉ before.map Node.tag? := by
  obtain ⟨hTag, before, ys, hChildren, hBefore⟩ := List.find?_eq_some_iff_append.mp h
  have hClose : (e.opened tag a).close = n := by
    rw [opened, h]
    cases n with
    | text => cases hasTag_iff.mp hTag
    | element i t attributes cs =>
      have hName : t = tag := by simpa [Node.tag?] using hasTag_iff.mp hTag
      rw [hName]
      rfl
  have hNone : ∀ m ∈ before, m.hasTag tag = false := by
    intro m hm
    simpa using hBefore m hm
  have hDrop : ∀ zs, (∀ m ∈ zs, m.hasTag tag = false) →
      (zs ++ n :: ys).dropWhile (!Node.hasTag tag ·) = n :: ys := by
    intro zs hzs
    induction zs with
    | nil => simp [hTag]
    | cons z zs ih =>
      rw [List.cons_append, List.dropWhile_cons_of_pos (by simp [hzs z List.mem_cons_self])]
      exact ih fun m hm => hzs m (List.mem_cons_of_mem _ hm)
  have hAfter : e.after tag = ys := by
    rw [after, hChildren, hDrop before hNone]
    rfl
  refine ⟨before, by rw [hAfter, hClose, hChildren], hClose, ?_, ?_⟩
  · rw [without, h, hAfter]
    simp only
    rw [hChildren, List.eraseP_append_right _ (by simpa using hNone), List.eraseP_cons_of_pos hTag]
  · intro hMem
    obtain ⟨m, hm, hmTag⟩ := List.mem_map.mp hMem
    have hFalse := hNone m hm
    rw [hasTag_iff.mpr hmTag] at hFalse
    cases hFalse

/-- A section that is new leaves everything in place, save that a body brings a head along. -/
theorem opened_of_child?_eq_none {e : OpenElement} {tag : String} (a : Attributes)
    (h : e.child? tag = none) :
    e.opened tag a = ⟨tag, a, []⟩ ∧ (e.without tag).children =
      e.children ++ if tag = "body" ∧ some "head" ∉ e.childTags then [.bare "head"] else [] := by
  have hIf : (tag == "body" && (e.child? "head").isNone) = true ↔
      tag = "body" ∧ some "head" ∉ e.childTags := by
    rw [Bool.and_eq_true, beq_iff_eq, Option.isNone_iff_eq_none, child?_eq_none_iff]
  refine ⟨by rw [opened, h], ?_⟩
  rw [without, h]
  simp only [hIf]
  split
  · rfl
  · rw [List.append_nil]

end OpenElement

namespace Markup

/-- What a move does to the texts of a document: it may add one, or take those of a section over
others that stood after it. -/
inductive Effect where
  | none
  | text (s : String)
  | moved (texts passed : List String)

namespace Effect

def texts : Effect → List String
  | text s => [s]
  | _ => []

def Reorders : Effect → Prop
  | moved texts passed => texts ++ passed ≠ passed ++ texts
  | _ => False

/-- Of the root, the order of the sections is settled at the end. -/
def ofSection (e : OpenElement) (rest : List OpenElement) (tag : String) : Effect :=
  match rest, e.child? tag with
  | _ :: _, some n => .moved n.texts (Node.forestTexts (e.after tag))
  | _, _ => .none

@[simp] theorem texts_ofSection (e : OpenElement) (rest : List OpenElement) (tag : String) :
    (ofSection e rest tag).texts = [] := by
  cases rest with
  | nil => rfl
  | cons => cases h : e.child? tag <;> simp [ofSection, h, texts]

end Effect

def IsSection (tag : String) : Prop :=
  tag = "head" ∨ tag = "body"

instance (tag : String) : Decidable (IsSection tag) :=
  inferInstanceAs (Decidable (tag = "head" ∨ tag = "body"))

/-- One change of the open elements, innermost first. -/
inductive Move : List OpenElement → Effect → List OpenElement → Prop
  | root {a : Attributes} (hAttributes : Tag.AreAttributes a) : Move [] .none [⟨"html", a, []⟩]
  | text {e e' : OpenElement} {rest : List OpenElement} {s : String}
      (hShown : ∃ c ∈ s.toList, Text.isBlank c = false)
      (hPlain : '<' ∉ s.toList ∨ e.tag ∈ Tag.rawTags) :
      Move (e :: e' :: rest) (.text s) (e.add (.text () s) :: e' :: rest)
  | void {e e' : OpenElement} {rest : List OpenElement} {t : String} {a : Attributes}
      (hVoid : t ∈ Tag.voidTags) (hName : Tag.IsElementName t) (hAttributes : Tag.AreAttributes a) :
      Move (e :: e' :: rest) .none (e.add (.element () t a []) :: e' :: rest)
  | push {e e' : OpenElement} {rest : List OpenElement} {t : String} {a : Attributes}
      (hVoid : t ∉ Tag.voidTags) (hSection : ¬(IsSection t ∧ e.tag = "html"))
      (hName : Tag.IsElementName t) (hAttributes : Tag.AreAttributes a) :
      Move (e :: e' :: rest) .none (⟨t, a, []⟩ :: e :: e' :: rest)
  | section_ {e : OpenElement} {rest : List OpenElement} {t : String} {a : Attributes}
      (hTop : e.tag = "html") (hSection : IsSection t) (hAttributes : Tag.AreAttributes a) :
      Move (e :: rest) (.ofSection e rest t) (e.opened t a :: e.without t :: rest)
  | close {e e' : OpenElement} {rest : List OpenElement} :
      Move (e :: e' :: rest) .none (e'.add e.close :: rest)

inductive Moves : List OpenElement → List Effect → List OpenElement → Prop
  | nil {s : List OpenElement} : Moves s [] s
  | cons {s s' s'' : List OpenElement} {l : Effect} {ls : List Effect} (first : Move s l s')
      (rest : Moves s' ls s'') : Moves s (l :: ls) s''

theorem Moves.single {s s' : List OpenElement} {l : Effect} (h : Move s l s') : Moves s [l] s' :=
  .cons h .nil

theorem Moves.append {s s' s'' : List OpenElement} {ls ls' : List Effect} (h : Moves s ls s')
    (h' : Moves s' ls' s'') : Moves s (ls ++ ls') s'' := by
  induction h with
  | nil => exact h'
  | cons first _ ih => exact .cons first (ih h')

theorem Moves.keep {P : List OpenElement → Prop}
    (step : ∀ s l s', P s → Move s l s' → P s') {s s' : List OpenElement} {ls : List Effect}
    (h : P s) (hMoves : Moves s ls s') : P s' := by
  induction hMoves with
  | nil => exact h
  | cons first _ ih => exact ih (step _ _ _ h first)

end Markup

end PageRender
