import PageRender.Proofs.Style.Maps
import PageRender.Proofs.Style.TopDown

/-! # Computed styles

What a name has in the style of a node is what is declared for it, or the value it starts from, with the keyword
put away. In a tree that has been styled every node has this style with regard to its parent, and so no style has
the keyword left in it or a size that is relative to another one.
-/

namespace PageRender

/-! ## Sizes -/

namespace Style

/-- A font size that is not taken relative to that of the parent. -/
def IsAbsolute (size : String) : Prop :=
  ¬ "%".toList <:+ size.toList ∧ ¬ "em".toList <:+ size.toList

theorem dropEnding?_eq_none_iff {ending s : String} :
    Text.dropEnding? ending s = none ↔ ¬ ending.toList <:+ s.toList := by
  rw [Text.dropEnding?, ← List.isSuffixOf_iff_suffix]
  split <;> simp_all

theorem isAbsolute_pixelText (x : Float) : IsAbsolute (pixelText x) := by
  have hEnd : (pixelText x).toList = (sizeText x).toList ++ ['p', 'x'] := by
    rw [pixelText, String.toList_append]
    rfl
  constructor
  · rintro ⟨front, hFront⟩
    rw [hEnd, show (sizeText x).toList ++ ['p', 'x'] = ((sizeText x).toList ++ ['p']) ++ ['x'] by simp] at hFront
    cases (List.append_inj' hFront rfl).2
  · rintro ⟨front, hFront⟩
    rw [hEnd] at hFront
    cases (List.append_inj' hFront rfl).2

theorem pixelText_ne_inherit (x : Float) : pixelText x ≠ "inherit" := by
  intro h
  have hEnd : "px".toList <:+ "inherit".toList :=
    ⟨(sizeText x).toList, by rw [← h, pixelText, String.toList_append]⟩
  revert hEnd
  decide

theorem resolveFontSize_cases (size parent : String) :
    (∃ x, resolveFontSize size parent = pixelText x) ∨
      resolveFontSize size parent = size ∧ IsAbsolute size := by
  rw [resolveFontSize]
  cases hPercent : Text.dropEnding? "%" size with
  | some percent => exact .inl ⟨_, rfl⟩
  | none =>
    cases hFactor : Text.dropEnding? "em" size with
    | some factor => exact .inl ⟨_, rfl⟩
    | none => exact .inr ⟨rfl, dropEnding?_eq_none_iff.mp hPercent, dropEnding?_eq_none_iff.mp hFactor⟩

theorem isAbsolute_resolveFontSize (size parent : String) : IsAbsolute (resolveFontSize size parent) := by
  obtain ⟨x, hPixels⟩ | ⟨hSame, hAbsolute⟩ := resolveFontSize_cases size parent
  · rw [hPixels]
    exact isAbsolute_pixelText x
  · rwa [hSame]

theorem resolveFontSize_ne_inherit {size : String} (h : size ≠ "inherit") (parent : String) :
    resolveFontSize size parent ≠ "inherit" := by
  obtain ⟨x, hPixels⟩ | ⟨hSame, -⟩ := resolveFontSize_cases size parent
  · rw [hPixels]
    exact pixelText_ne_inherit x
  · rwa [hSame]

/-- A size that is absolute already is not changed by being resolved. -/
theorem resolveFontSize_of_isAbsolute {size : String} (h : IsAbsolute size) (parent : String) :
    resolveFontSize size parent = size := by
  rw [resolveFontSize, dropEnding?_eq_none_iff.mpr h.1, dropEnding?_eq_none_iff.mpr h.2]

/-! ## Values of one node -/

/-- A declared value, or for the keyword the value at the parent, or the default. -/
def withoutKeyword (parent : Option StyleMap) (name value : String) : String :=
  if value = "inherit" then (fromParent? parent name).getD (defaultOf name) else value

theorem get?_inherited (parent : Option StyleMap) (name : String) :
    (inherited parent).get? name =
      (inheritedDefaults.lookup name).map fun default => (fromParent? parent name).getD default := by
  have hDistinct : (OrderedMap.keys ⟨inheritedDefaults⟩).Nodup := by decide
  rw [inherited, StyleMap.get?_setAll, StyleMap.get?_empty, Option.or_none, ← List.map_reverse]
  rw [OrderedMap.lookup_map_snd (fun name default => (fromParent? parent name).getD default),
    OrderedMap.lookup_reverse_entries hDistinct]
  rfl

theorem get?_setAll_ownDefaults (m : StyleMap) (name : String) :
    (m.setAll ownDefaults).get? name = (ownDefaults.lookup name).or (m.get? name) := by
  have hDistinct : (OrderedMap.keys ⟨ownDefaults⟩).Nodup := by decide
  rw [StyleMap.get?_setAll, OrderedMap.lookup_reverse_entries hDistinct]
  rfl

/-- Replacing the keyword in a listing of values sets exactly the names that are listed with it. -/
theorem get?_foldl_keyword (value : String → String) (l : List (String × String)) (m : StyleMap) (name : String) :
    (l.foldl (fun s e => if e.2 == "inherit" then s.set e.1 (value e.1) else s) m).get? name =
      if (name, "inherit") ∈ l then some (value name) else m.get? name := by
  induction l generalizing m with
  | nil => simp
  | cons e l ih =>
    obtain ⟨first, v⟩ := e
    rw [List.foldl_cons, ih]
    by_cases hKeyword : v = "inherit"
    · obtain rfl := hKeyword
      rw [if_pos BEq.rfl, StyleMap.get?_set]
      by_cases hName : name = first
      · simp [hName]
      · simp [hName]
    · have hTest : ¬ (v == "inherit") = true := by simpa using hKeyword
      have hOther : (name, "inherit") ≠ (first, v) := fun hSame => hKeyword (congrArg Prod.snd hSame).symm
      rw [if_neg hTest]
      simp [hOther]

theorem get?_resolveInherit (parent : Option StyleMap) {style : StyleMap} (h : style.IsProper) (name : String) :
    (resolveInherit parent style).get? name = (style.get? name).map (withoutKeyword parent name) := by
  have hFold := get?_foldl_keyword (fun name => (fromParent? parent name).getD (defaultOf name)) style.items style
    name
  simp only [StyleMap.mem_items_iff h] at hFold
  rw [resolveInherit]
  refine hFold.trans ?_
  cases hValue : style.get? name with
  | none => rfl
  | some v =>
    rw [Option.map_some, withoutKeyword]
    simp only [Option.some.injEq]
    split <;> rfl

theorem isProper_resolveInherit (parent : Option StyleMap) {style : StyleMap} (h : style.IsProper) :
    (resolveInherit parent style).IsProper := by
  rw [resolveInherit]
  refine List.foldlRecOn style.items _ h fun m hm e _ => ?_
  obtain ⟨name, value⟩ := e
  dsimp only
  split
  · exact hm.set ..
  · exact hm

theorem isProper_inherited (parent : Option StyleMap) : (inherited parent).IsProper :=
  StyleMap.isProper_empty.setAll _

theorem isProper_resolveSize (parent : Option StyleMap) {style : StyleMap} (h : style.IsProper) :
    (resolveSize parent style).IsProper :=
  h.set _ _

theorem isProper_ofElement (rules : List Rule) (parent : Option StyleMap) (above : List String) (tag : String)
    (attributes : Attributes) : (ofElement rules parent above tag attributes).IsProper :=
  isProper_resolveSize parent (isProper_resolveInherit parent
    (((isProper_inherited parent).setAll ownDefaults).setAll (declared rules above tag attributes)))

theorem get?_resolveSize (parent : Option StyleMap) (style : StyleMap) (name : String) :
    (resolveSize parent style).get? name =
      if name = "font-size" then
        some (resolveFontSize (style.getD "font-size" "16px") ((fromParent? parent "font-size").getD "16px"))
      else style.get? name :=
  StyleMap.get?_set ..

/-- What a name is worth before anything is declared for it: its own default, or the value at the parent. -/
def initial? (parent : Option StyleMap) (name : String) : Option String :=
  (ownDefaults.lookup name).or
    ((inheritedDefaults.lookup name).map fun default => (fromParent? parent name).getD default)

/-- What a name is worth in an element, the size of the font being as it is declared. -/
def specified? (rules : List Rule) (parent : Option StyleMap) (above : List String) (tag : String)
    (attributes : Attributes) (name : String) : Option String :=
  (((declared rules above tag attributes).reverse.lookup name).or (initial? parent name)).map
    (withoutKeyword parent name)

section

variable (rules : List Rule) (parent : Option StyleMap) (above : List String) (tag : String)
  (attributes : Attributes)

theorem get?_ofElement (name : String) :
    (ofElement rules parent above tag attributes).get? name =
      if name = "font-size" then
        some (resolveFontSize ((specified? rules parent above tag attributes "font-size").getD "16px")
          ((fromParent? parent "font-size").getD "16px"))
      else specified? rules parent above tag attributes name := by
  let style := ((inherited parent).setAll ownDefaults).setAll (declared rules above tag attributes)
  have hProper : style.IsProper := ((StyleMap.isProper_empty.setAll _).setAll _).setAll _
  have hValue : ∀ name, (resolveInherit parent style).get? name =
      specified? rules parent above tag attributes name := by
    intro name
    rw [get?_resolveInherit parent hProper, StyleMap.get?_setAll, get?_setAll_ownDefaults, get?_inherited]
    rfl
  rw [ofElement, get?_resolveSize, StyleMap.getD, hValue, hValue]

theorem get?_ofText (name : String) :
    (ofText parent).get? name =
      if name = "font-size" then
        some (resolveFontSize ((fromParent? parent "font-size").getD "16px")
          ((fromParent? parent "font-size").getD "16px"))
      else (inheritedDefaults.lookup name).map fun default => (fromParent? parent name).getD default := by
  rw [ofText, get?_resolveSize, StyleMap.getD, get?_inherited, get?_inherited]
  rfl

end

/-! ## Styles without keyword and relative size -/

/-- What is true of every computed style: it has the inherited properties, no value is the keyword, and the size
of the font is not relative. -/
structure IsComputed (style : StyleMap) : Prop where
  proper : style.IsProper
  inherited : ∀ e ∈ inheritedDefaults, (style.get? e.1).isSome
  noKeyword : ∀ name, style.get? name ≠ some "inherit"
  absolute : ∀ size, style.get? "font-size" = some size → IsAbsolute size

theorem mem_of_lookup {l : List (String × String)} {name value : String} (h : l.lookup name = some value) :
    (name, value) ∈ l := by
  obtain ⟨front, back, rfl, -⟩ := List.lookup_eq_some_iff.mp h
  exact List.mem_append_right _ List.mem_cons_self

theorem default_ne_inherit {name default : String}
    (h : (inheritedDefaults ++ ownDefaults).lookup name = some default) : default ≠ "inherit" := by
  have hAll : ∀ e ∈ inheritedDefaults ++ ownDefaults, e.2 ≠ "inherit" := by decide
  exact hAll _ (mem_of_lookup h)

section

variable {parent : Option StyleMap} (hParent : ∀ style ∈ parent, IsComputed style)

include hParent

theorem fromParent?_getD_ne_inherit {default : String} (h : default ≠ "inherit") (name : String) :
    (fromParent? parent name).getD default ≠ "inherit" := by
  cases hValue : fromParent? parent name with
  | none => exact h
  | some value =>
    obtain ⟨style, hStyle, hFound⟩ := Option.bind_eq_some_iff.mp hValue
    rintro rfl
    exact (hParent style hStyle).noKeyword name hFound

theorem withoutKeyword_ne_inherit (name value : String) : withoutKeyword parent name value ≠ "inherit" := by
  rw [withoutKeyword]
  split
  · apply fromParent?_getD_ne_inherit hParent
    rw [defaultOf]
    cases hDefault : (inheritedDefaults ++ ownDefaults).lookup name with
    | none => decide
    | some default => exact default_ne_inherit hDefault
  · assumption

theorem isComputed_ofText : IsComputed (ofText parent) where
  proper := isProper_resolveSize parent (isProper_inherited parent)
  inherited e he := by
    rw [get?_ofText]
    split
    · rfl
    · have hAll : ∀ e ∈ inheritedDefaults, (inheritedDefaults.lookup e.1).isSome := by decide
      rw [Option.isSome_map]
      exact hAll e he
  noKeyword name h := by
    rw [get?_ofText] at h
    split at h
    · exact resolveFontSize_ne_inherit (fromParent?_getD_ne_inherit hParent (by decide) _) _ (Option.some.inj h)
    · obtain ⟨default, hDefault, hValue⟩ := Option.map_eq_some_iff.mp h
      have hListed : (inheritedDefaults ++ ownDefaults).lookup name = some default := by
        rw [List.lookup_append, hDefault, Option.some_or]
      exact fromParent?_getD_ne_inherit hParent (default_ne_inherit hListed) name hValue
  absolute size h := by
    rw [get?_ofText, if_pos rfl] at h
    obtain rfl := Option.some.inj h
    exact isAbsolute_resolveFontSize _ _

theorem specified?_ne_inherit (rules : List Rule) (above : List String) (tag : String) (attributes : Attributes)
    (name : String) : specified? rules parent above tag attributes name ≠ some "inherit" := by
  intro h
  obtain ⟨value, -, hValue⟩ := Option.map_eq_some_iff.mp h
  exact withoutKeyword_ne_inherit hParent name value hValue

theorem isComputed_ofElement (rules : List Rule) (above : List String) (tag : String) (attributes : Attributes) :
    IsComputed (ofElement rules parent above tag attributes) where
  proper := isProper_ofElement rules parent above tag attributes
  inherited e he := by
    rw [get?_ofElement]
    split
    · rfl
    · have hAll : ∀ e ∈ inheritedDefaults, (inheritedDefaults.lookup e.1).isSome := by decide
      simp [specified?, initial?, hAll e he]
  noKeyword name h := by
    rw [get?_ofElement] at h
    split at h
    · refine resolveFontSize_ne_inherit ?_ _ (Option.some.inj h)
      cases hSize : specified? rules parent above tag attributes "font-size" with
      | none => decide
      | some size =>
        rintro rfl
        exact specified?_ne_inherit hParent rules above tag attributes "font-size" hSize
    · exact specified?_ne_inherit hParent rules above tag attributes name h
  absolute size h := by
    rw [get?_ofElement, if_pos rfl] at h
    obtain rfl := Option.some.inj h
    exact isAbsolute_resolveFontSize _ _

theorem isComputed_ofNode (rules : List Rule) (above : List String) (n : PageTree) :
    IsComputed (ofNode rules parent above n) := by
  cases n with
  | text i s => exact isComputed_ofText hParent
  | element i t a cs => exact isComputed_ofElement hParent rules above t a

end

end Style

/-! ## The nodes of a tree that has been styled -/

namespace Node

variable {α : Type}

mutual

/-- The nodes of a tree in document order, each behind its ancestors from its parent up. -/
def lineages (above : List (Node α)) : Node α → List (List (Node α) × Node α)
  | .text i s => [(above, .text i s)]
  | .element i t a cs => (above, .element i t a cs) :: forestLineages (.element i t a cs :: above) cs

def forestLineages (above : List (Node α)) : List (Node α) → List (List (Node α) × Node α)
  | [] => []
  | n :: ns => n.lineages above ++ forestLineages above ns

end

mutual

theorem map_snd_lineages (above : List (Node α)) (n : Node α) :
    (n.lineages above).map Prod.snd = n.descendants := by
  cases n with
  | text i s =>
    rw [descendants_eq_cons]
    rfl
  | element i t a cs =>
    rw [lineages, List.map_cons, map_snd_forestLineages, descendants_eq_cons]
    rfl

theorem map_snd_forestLineages (above : List (Node α)) (ns : List (Node α)) :
    (forestLineages above ns).map Prod.snd = ns.flatMap descendants := by
  cases ns with
  | nil => rfl
  | cons n ns =>
    rw [forestLineages, List.map_append, map_snd_lineages, map_snd_forestLineages, List.flatMap_cons]

end

/-- The style of the parent, the ancestors being listed from it up. -/
def parentStyle? (ancestors : List PageTree) : Option StyleMap :=
  ancestors.head?.map (·.info.style)

def tagsOf (ancestors : List PageTree) : List String :=
  ancestors.filterMap tag?

end Node

namespace Style

/-- The style of a node is computed from that of its parent, and that of the parent is a computed one. -/
structure FollowsParent (rules : List Rule) (ancestors : List PageTree) (n : PageTree) : Prop where
  parent : ∀ style ∈ Node.parentStyle? ancestors, IsComputed style
  style : n.info.style = ofNode rules (Node.parentStyle? ancestors) (Node.tagsOf ancestors) n

mutual

theorem followsParent_tree {rules : List Rule} {ancestors : List PageTree}
    (hParent : ∀ style ∈ Node.parentStyle? ancestors, IsComputed style) {n : PageTree} :
    ∀ e ∈ (tree rules (Node.parentStyle? ancestors) (Node.tagsOf ancestors) n).lineages ancestors,
      FollowsParent rules e.1 e.2 := by
  cases n with
  | text i s =>
    intro e he
    obtain rfl := List.mem_singleton.mp he
    exact ⟨hParent, rfl⟩
  | element i t a cs =>
    intro e he
    rw [tree, Node.lineages] at he
    obtain rfl | hBelow := List.mem_cons.mp he
    · exact ⟨hParent, rfl⟩
    · apply followsParent_forest ?_ e hBelow
      intro s hs
      obtain rfl := Option.some.inj hs
      exact isComputed_ofNode hParent rules (Node.tagsOf ancestors) (.element i t a cs)

theorem followsParent_forest {rules : List Rule} {ancestors : List PageTree}
    (hParent : ∀ style ∈ Node.parentStyle? ancestors, IsComputed style) {ns : List PageTree} :
    ∀ e ∈ Node.forestLineages ancestors
        (forest rules (Node.parentStyle? ancestors) (Node.tagsOf ancestors) ns),
      FollowsParent rules e.1 e.2 := by
  cases ns with
  | nil => exact fun e he => absurd he List.not_mem_nil
  | cons n ns =>
    intro e he
    rw [forest, Node.forestLineages] at he
    obtain hFirst | hRest := List.mem_append.mp he
    · exact followsParent_tree hParent e hFirst
    · exact followsParent_forest hParent e hRest

end

/-- In a tree that has been styled, every style follows that of the parent. -/
theorem followsParent_apply {root : PageTree} {author user : String} {e : List PageTree × PageTree}
    (h : e ∈ (apply root author user).1.lineages []) :
    FollowsParent (Stylesheet.byPriority (Stylesheet.parse (combinedSheet root author user)).1) e.1 e.2 := by
  rw [apply_eq] at h
  have hNoParent : ∀ style ∈ Node.parentStyle? [], IsComputed style := fun _ hNone => nomatch hNone
  exact followsParent_tree hNoParent e h

theorem FollowsParent.isComputed {rules : List Rule} {ancestors : List PageTree} {n : PageTree}
    (h : FollowsParent rules ancestors n) : IsComputed n.info.style := by
  rw [h.style]
  exact isComputed_ofNode h.parent rules _ n

end Style

end PageRender
