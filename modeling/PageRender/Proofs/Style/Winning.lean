import PageRender.Proofs.Sheet.Combined
import PageRender.Proofs.Style.Computed

/-! # Which declaration wins

The rules are put in order of their priority and then written over one another, and what the style attribute
declares is written last. So of all declarations of a name the one in the style attribute wins, or else that of
the rule which no other one outranks and none of its rank follows. What nobody declares is inherited, or has its
default, or has no value.
-/

namespace PageRender

/-! ## Names in a block -/

namespace Sheet

theorem nodup_declarations {taken : Block} (h : taken.declarations.keys.Nodup) (cs : List Char) :
    (declarations taken cs).declarations.keys.Nodup := by
  fun_induction declarations taken cs with
  | case1 => exact h
  | case2 => exact h
  | case3 taken c rest _ name text after hRead _ next hNext ih => exact ih (OrderedMap.nodup_setEntry name text h)
  | case4 taken c rest _ name text after hRead _ hNext ih => exact ih (OrderedMap.nodup_setEntry name text h)
  | case5 taken c rest _ f hRead _ next hNext ih => exact ih h
  | case6 => exact h

theorem nodup_block (cs : List Char) : (block cs).declarations.keys.Nodup := by
  have hEmpty : (OrderedMap.keys ({} : Block).declarations).Nodup := List.nodup_nil
  exact nodup_declarations hEmpty _

theorem nodup_rule {cs rest : List Char} {rs : List Rule} (h : (rule cs).outcome = .ok (rs, rest)) :
    ∀ r ∈ rs, r.declarations.keys.Nodup := by
  unfold rule at h
  split at h
  · cases h
  · split at h
    · cases h
    · rename_i inside hOpen
      dsimp only at h
      split at h
      · cases h
      · obtain ⟨rfl, -⟩ := Prod.mk.inj (Except.ok.inj h)
        intro r hr
        obtain ⟨s, -, rfl⟩ := List.mem_map.mp hr
        exact nodup_block inside

end Sheet

namespace Stylesheet

theorem nodup_readRules {s : Stylesheet} (h : ∀ r ∈ s.rules, r.declarations.keys.Nodup) (cs : List Char) :
    ∀ r ∈ (readRules s cs).rules, r.declarations.keys.Nodup := by
  fun_induction readRules s cs with
  | case1 => exact h
  | case2 s c rest r rules after hRead ih =>
    refine ih fun q hq => ?_
    obtain hOld | hNew := List.mem_append.mp hq
    · exact h q hOld
    · exact Sheet.nodup_rule hRead q hNew
  | case3 => exact h
  | case4 s c rest r f hRead _ _ after hSkip ih => exact ih h

theorem nodup_parse {source : String} : ∀ r ∈ (parse source).1, r.declarations.keys.Nodup :=
  nodup_readRules (fun _ hNone => absurd hNone List.not_mem_nil) _

/-! ## The rule that wins -/

/-- A rule with a property which no rule with it outranks, and none of the same priority follows. -/
def Wins (p : Rule → Bool) (rules : List Rule) (r : Rule) : Prop :=
  ∃ before after, rules = before ++ r :: after ∧ p r = true ∧
    (∀ q ∈ before, p q = true → q.selector.priority ≤ r.selector.priority) ∧
    ∀ q ∈ after, p q = true → q.selector.priority < r.selector.priority

theorem Wins.cons_of_le {p : Rule → Bool} {rules : List Rule} {q r : Rule} (h : Wins p rules r)
    (hFirst : p q = true → q.selector.priority ≤ r.selector.priority) : Wins p (q :: rules) r := by
  obtain ⟨before, after, rfl, hr, hBefore, hAfter⟩ := h
  exact ⟨q :: before, after, rfl, hr, List.forall_mem_cons.mpr ⟨hFirst, hBefore⟩, hAfter⟩

theorem Wins.unique {p : Rule → Bool} {rules : List Rule} {q r : Rule} (hq : Wins p rules q)
    (hr : Wins p rules r) : q = r := by
  obtain ⟨before, after, rfl, hSelf, hBefore, hAfter⟩ := hq
  obtain ⟨before', after', hSplit, hSelf', hBefore', hAfter'⟩ := hr
  obtain ⟨between, rfl, hRest⟩ | ⟨between, rfl, hRest⟩ := List.append_eq_append_iff.mp hSplit
  · cases between with
    | nil => exact (List.cons.inj hRest).1
    | cons x between =>
      obtain ⟨rfl, rfl⟩ := List.cons.inj hRest
      have hLower := hAfter r (by simp) hSelf'
      have hHigher := hBefore' q (by simp) hSelf
      omega
  · cases between with
    | nil => exact (List.cons.inj hRest).1.symm
    | cons x between =>
      obtain ⟨rfl, rfl⟩ := List.cons.inj hRest
      have hLower := hAfter' q (by simp) hSelf
      have hHigher := hBefore r (by simp) hSelf'
      omega

theorem mem_byPriority {rules : List Rule} {r : Rule} : r ∈ byPriority rules ↔ r ∈ rules :=
  List.mem_mergeSort

/-- Putting a rule in front of others puts it, in order, behind all that have a lower priority. -/
theorem byPriority_cons (r : Rule) (rules : List Rule) :
    ∃ low high, byPriority (r :: rules) = low ++ r :: high ∧ byPriority rules = low ++ high ∧
      (∀ q ∈ low, q.selector.priority < r.selector.priority) ∧
      ∀ q ∈ high, r.selector.priority ≤ q.selector.priority := by
  let le (a b : Rule) : Bool := decide (a.selector.priority ≤ b.selector.priority)
  have hTrans : ∀ a b c, le a b = true → le b c = true → le a c = true := by
    intro a b c hab hbc
    simp only [le, decide_eq_true_eq] at hab hbc ⊢
    omega
  have hTotal : ∀ a b, (le a b || le b a) = true := by
    intro a b
    simp only [le, Bool.or_eq_true, decide_eq_true_eq]
    omega
  obtain ⟨low, high, hWith, hWithout, hLow⟩ := List.mergeSort_cons hTrans hTotal r rules
  refine ⟨low, high, hWith, hWithout, ?_, ?_⟩
  · intro q hq
    simpa [le] using hLow q hq
  · have hSorted := List.pairwise_mergeSort hTrans hTotal (r :: rules)
    rw [hWith] at hSorted
    intro q hq
    exact of_decide_eq_true ((List.pairwise_cons.mp (List.pairwise_append.mp hSorted).2.1).1 q hq)

theorem wins_of_getLast? {p : Rule → Bool} {rules : List Rule} {r : Rule}
    (h : ((byPriority rules).filter p).getLast? = some r) : Wins p rules r := by
  induction rules with
  | nil => simp [byPriority] at h
  | cons q rules ih =>
    obtain ⟨low, high, hWith, hWithout, hLow, hHigh⟩ := byPriority_cons q rules
    rw [hWith, List.filter_append, List.getLast?_append] at h
    rw [hWithout, List.filter_append, List.getLast?_append] at ih
    cases hLast : (high.filter p).getLast? with
    | some x =>
      -- The rule that won before is not outranked by the new one.
      have hMem : x ∈ high := List.mem_of_mem_filter (List.mem_of_getLast? hLast)
      have hSame : some x = some r := by
        rw [← h, List.filter_cons]
        split
        · rw [List.getLast?_cons, hLast]
          rfl
        · rw [hLast, Option.some_or]
      obtain rfl := Option.some.inj hSame
      rw [hLast, Option.some_or] at ih
      exact (ih rfl).cons_of_le fun _ => hHigh x hMem
    | none =>
      rw [hLast, Option.none_or] at ih
      rw [List.getLast?_eq_none_iff] at hLast
      by_cases hq : p q = true
      · rw [List.filter_cons_of_pos hq, hLast, List.getLast?_singleton, Option.some_or] at h
        obtain rfl := Option.some.inj h
        refine ⟨[], rules, rfl, hq, fun _ hNone => absurd hNone List.not_mem_nil, fun x hx hProperty => ?_⟩
        have hSorted : x ∈ low ++ high := hWithout ▸ mem_byPriority.mpr hx
        obtain hx | hx := List.mem_append.mp hSorted
        · exact hLow x hx
        · exact absurd hProperty (List.filter_eq_nil_iff.mp hLast x hx)
      · rw [List.filter_cons_of_neg hq, hLast, List.getLast?_nil, Option.none_or] at h
        exact (ih h).cons_of_le fun hProperty => absurd hProperty hq

theorem exists_wins_or {p : Rule → Bool} (rules : List Rule) :
    (∃ r, ((byPriority rules).filter p).getLast? = some r ∧ Wins p rules r) ∨
      ((byPriority rules).filter p).getLast? = none ∧ ∀ r ∈ rules, p r = false := by
  cases hLast : ((byPriority rules).filter p).getLast? with
  | some r => exact .inl ⟨r, rfl, wins_of_getLast? hLast⟩
  | none =>
    refine .inr ⟨rfl, fun r hr => ?_⟩
    rw [List.getLast?_eq_none_iff, List.filter_eq_nil_iff] at hLast
    exact Bool.eq_false_iff.mpr (hLast r (mem_byPriority.mpr hr))

end Stylesheet

/-- Whether a rule declares a name for an element below ancestors with the given tags. -/
def Rule.sets (r : Rule) (above : List String) (tag name : String) : Bool :=
  r.selector.selects tag above && (r.declarations.get? name).isSome

namespace Style

/-! ## What is declared -/

/-- What the style attribute declares for a name. -/
def inlineValue? (attributes : Attributes) (name : String) : Option String :=
  (attributes.get? "style").bind fun s => (Sheet.block s.toList).declarations.get? name

theorem lookup_inlineDeclarations (attributes : Attributes) (name : String) :
    (inlineDeclarations attributes).reverse.lookup name = inlineValue? attributes name := by
  rw [inlineDeclarations, inlineValue?]
  cases attributes.get? "style" with
  | none => rfl
  | some s => exact OrderedMap.lookup_reverse_entries (Sheet.nodup_block _) name

theorem lookup_flatMap_entries {rules : List Rule} (h : ∀ r ∈ rules, r.declarations.keys.Nodup) (name : String) :
    (rules.flatMap (·.declarations.entries)).reverse.lookup name =
      (rules.filter fun r => (r.declarations.get? name).isSome).getLast?.bind (·.declarations.get? name) := by
  induction rules with
  | nil => rfl
  | cons r rules ih =>
    obtain ⟨hFirst, hRest⟩ := List.forall_mem_cons.mp h
    rw [List.flatMap_cons, List.reverse_append, List.lookup_append, ih hRest,
      OrderedMap.lookup_reverse_entries hFirst, List.filter_cons]
    cases hValue : r.declarations.get? name with
    | none =>
      rw [Option.or_none]
      rfl
    | some value =>
      rw [if_pos Option.isSome_some, List.getLast?_cons]
      cases hLast : (rules.filter fun r => (r.declarations.get? name).isSome).getLast? with
      | none => exact hValue.symm
      | some q =>
        have hSets := List.of_mem_filter (List.mem_of_getLast? hLast)
        obtain ⟨w, hw⟩ := Option.isSome_iff_exists.mp hSets
        rw [Option.bind_some, hw, Option.some_or]
        exact hw.symm

/-- What is written last for a name: what the style attribute declares, or the last rule that sets it. -/
theorem lookup_declared {rules : List Rule} (h : ∀ r ∈ rules, r.declarations.keys.Nodup) (above : List String)
    (tag : String) (attributes : Attributes) (name : String) :
    (declared rules above tag attributes).reverse.lookup name =
      (inlineValue? attributes name).or
        ((rules.filter (·.sets above tag name)).getLast?.bind (·.declarations.get? name)) := by
  have hSelected : ∀ r ∈ rules.filter (·.selector.selects tag above), r.declarations.keys.Nodup :=
    fun r hr => h r (List.mem_of_mem_filter hr)
  rw [declared, List.reverse_append, List.lookup_append, lookup_inlineDeclarations,
    lookup_flatMap_entries hSelected, List.filter_filter]
  simp only [Rule.sets, Bool.and_comm]

/-- What a name is worth in an element before the keyword is put away. -/
inductive Cascades (rules : List Rule) (parent : Option StyleMap) (above : List String) (tag : String)
    (attributes : Attributes) (name : String) : Option String → Prop
  | inline {value : String} (hInline : inlineValue? attributes name = some value) :
    Cascades rules parent above tag attributes name (some value)
  | rule {r : Rule} {value : String} (hInline : inlineValue? attributes name = none)
    (hWins : Stylesheet.Wins (·.sets above tag name) rules r)
    (hValue : r.declarations.get? name = some value) :
    Cascades rules parent above tag attributes name (some value)
  | inherited {default : String} (hInline : inlineValue? attributes name = none)
    (hRules : ∀ r ∈ rules, r.sets above tag name = false)
    (hName : inheritedDefaults.lookup name = some default) :
    Cascades rules parent above tag attributes name (parent.elim (some default) (·.get? name))
  | own {default : String} (hInline : inlineValue? attributes name = none)
    (hRules : ∀ r ∈ rules, r.sets above tag name = false) (hName : ownDefaults.lookup name = some default) :
    Cascades rules parent above tag attributes name (some default)
  | absent (hInline : inlineValue? attributes name = none)
    (hRules : ∀ r ∈ rules, r.sets above tag name = false) (hInherited : inheritedDefaults.lookup name = none)
    (hOwn : ownDefaults.lookup name = none) : Cascades rules parent above tag attributes name none

theorem lookup_ownDefaults_of_inherited {name default : String} (h : inheritedDefaults.lookup name = some default) :
    ownDefaults.lookup name = none := by
  have hAll : ∀ e ∈ inheritedDefaults, ownDefaults.lookup e.1 = none := by decide
  exact hAll _ (mem_of_lookup h)

/-- A rule that wins sets the name, so there is one among the rules that does. -/
theorem sets_of_wins {rules : List Rule} {above : List String} {tag name : String} {r : Rule}
    (h : Stylesheet.Wins (·.sets above tag name) rules r) : r ∈ rules ∧ r.sets above tag name = true := by
  obtain ⟨before, after, rfl, hSets, -⟩ := h
  exact ⟨List.mem_append_right _ List.mem_cons_self, hSets⟩

theorem parent_elim_get? {parent : Option StyleMap} (hParent : ∀ style ∈ parent, IsComputed style)
    {name default : String} (h : inheritedDefaults.lookup name = some default) :
    parent.elim (some default) (·.get? name) = some ((fromParent? parent name).getD default) := by
  cases parent with
  | none => rfl
  | some style =>
    obtain ⟨value, hValue⟩ := Option.isSome_iff_exists.mp ((hParent style rfl).inherited _ (mem_of_lookup h))
    rw [fromParent?, Option.elim_some, Option.bind_some, hValue]
    rfl

section

variable {rules : List Rule} {parent : Option StyleMap} {above : List String} {tag : String}
  {attributes : Attributes} {name : String}

theorem cascades_iff_of_inline {value : String} (hInline : inlineValue? attributes name = some value)
    (w : Option String) : Cascades rules parent above tag attributes name w ↔ w = some value := by
  constructor
  · intro h
    cases h with
    | inline h => exact h.symm.trans hInline
    | rule h | inherited h | own h | absent h =>
      rw [hInline] at h
      cases h
  · rintro rfl
    exact .inline hInline

theorem cascades_iff_of_wins {r : Rule} {value : String} (hInline : inlineValue? attributes name = none)
    (hWins : Stylesheet.Wins (·.sets above tag name) rules r) (hValue : r.declarations.get? name = some value)
    (w : Option String) : Cascades rules parent above tag attributes name w ↔ w = some value := by
  obtain ⟨hMem, hSets⟩ := sets_of_wins hWins
  constructor
  · intro h
    cases h with
    | inline h =>
      rw [hInline] at h
      cases h
    | rule _ hOther hFound =>
      obtain rfl := hWins.unique hOther
      exact hFound.symm.trans hValue
    | inherited _ hRules | own _ hRules | absent _ hRules =>
      rw [hRules r hMem] at hSets
      cases hSets
  · rintro rfl
    exact .rule hInline hWins hValue

theorem cascades_iff_of_undeclared (hParent : ∀ style ∈ parent, IsComputed style)
    (hInline : inlineValue? attributes name = none) (hRules : ∀ r ∈ rules, r.sets above tag name = false)
    (w : Option String) : Cascades rules parent above tag attributes name w ↔ w = initial? parent name := by
  constructor
  · intro h
    cases h with
    | inline h =>
      rw [hInline] at h
      cases h
    | rule _ hWins =>
      obtain ⟨hMem, hSets⟩ := sets_of_wins hWins
      rw [hRules _ hMem] at hSets
      cases hSets
    | inherited _ _ hName =>
      rw [parent_elim_get? hParent hName, initial?, lookup_ownDefaults_of_inherited hName, hName]
      rfl
    | own _ _ hName =>
      rw [initial?, hName]
      rfl
    | absent _ _ hInherited hOwn =>
      rw [initial?, hInherited, hOwn]
      rfl
  · rintro rfl
    rw [initial?]
    cases hOwn : ownDefaults.lookup name with
    | some default => exact .own hInline hRules hOwn
    | none =>
      cases hInherited : inheritedDefaults.lookup name with
      | none => exact .absent hInline hRules hInherited hOwn
      | some default =>
        rw [Option.none_or, Option.map_some, ← parent_elim_get? hParent hInherited]
        exact .inherited hInline hRules hInherited

/-- There is one value that a name has in an element, and it is what is written last or what it starts from. -/
theorem cascades_iff (hNames : ∀ r ∈ rules, r.declarations.keys.Nodup)
    (hParent : ∀ style ∈ parent, IsComputed style) (w : Option String) :
    Cascades rules parent above tag attributes name w ↔
      w = ((declared (Stylesheet.byPriority rules) above tag attributes).reverse.lookup name).or
        (initial? parent name) := by
  have hSorted : ∀ r ∈ Stylesheet.byPriority rules, r.declarations.keys.Nodup :=
    fun r hr => hNames r (Stylesheet.mem_byPriority.mp hr)
  rw [lookup_declared hSorted]
  cases hInline : inlineValue? attributes name with
  | some value => exact cascades_iff_of_inline hInline w
  | none =>
    obtain ⟨r, hLast, hWins⟩ | ⟨hLast, hNone⟩ :=
      Stylesheet.exists_wins_or (p := (·.sets above tag name)) rules
    · obtain ⟨value, hValue⟩ := Option.isSome_iff_exists.mp (Bool.and_eq_true_iff.mp (sets_of_wins hWins).2).2
      rw [hLast, Option.bind_some, hValue]
      exact cascades_iff_of_wins hInline hWins hValue w
    · rw [hLast]
      exact cascades_iff_of_undeclared hParent hInline hNone w

end

/-- Every name but the size of the font is worth in an element what the cascade says, or for the keyword what it
is worth in the parent. -/
theorem get?_style_apply {root : PageTree} {author user : String} {ancestors : List PageTree} {i : NodeInfo}
    {t : String} {a : Attributes} {cs : List PageTree}
    (h : (ancestors, .element i t a cs) ∈ (apply root author user).1.lineages []) {name : String}
    (hName : name ≠ "font-size") :
    ∃ value, (∀ w, Cascades (Stylesheet.parse (combinedSheet root author user)).1 (Node.parentStyle? ancestors)
        (Node.tagsOf ancestors) t a name w ↔ w = value) ∧
      i.style.get? name = value.map (withoutKeyword (Node.parentStyle? ancestors) name) := by
  obtain ⟨hParent, hStyle⟩ := followsParent_apply h
  have hOwn : i.style = ofElement (Stylesheet.byPriority (Stylesheet.parse (combinedSheet root author user)).1)
    (Node.parentStyle? ancestors) (Node.tagsOf ancestors) t a := hStyle
  refine ⟨_, cascades_iff Stylesheet.nodup_parse hParent, ?_⟩
  rw [hOwn, get?_ofElement, if_neg hName]
  rfl

/-- A paragraph with a style of its own inside an element with a color. -/
def framedParagraph : PageTree :=
  .element { id := 0 } "div" ⟨[("style", "color: green")]⟩ [
    .element { id := 1 } "p" ⟨[("style", "color: inherit")]⟩ [.text { id := 2 } "one"]]

def authorRules : String := "div p \x7b margin: 1px \x7d"

def userRules : String := "div p \x7b margin: 2px; color: red \x7d p \x7b margin: 3px \x7d"

theorem rules_framedParagraph :
    ∃ q r s, (Stylesheet.parse (combinedSheet framedParagraph authorRules userRules)).1 =
        (defaultBlocks.flatMap SheetBlock.rules ++ [q]) ++ r :: [s] ∧
      r.sets ["div"] "p" "margin" = true ∧ r.declarations.get? "margin" = some "2px" ∧
      (∀ x ∈ defaultBlocks.flatMap SheetBlock.rules ++ [q], x.selector.priority ≤ r.selector.priority) ∧
      s.selector.priority < r.selector.priority := by
  have hEmbedded : embeddedSheet framedParagraph = "" := by decide +kernel
  let written := (Stylesheet.parse ("" ++ "\n" ++ (authorRules ++ "\n" ++ userRules))).1
  have hThree : written.length = 3 := by decide +kernel
  have hTest : (written[1]?.any fun r =>
      r.sets ["div"] "p" "margin" && r.declarations.get? "margin" == some "2px" &&
        (defaultBlocks.flatMap SheetBlock.rules ++ written.take 1).all (fun x =>
          decide (x.selector.priority ≤ r.selector.priority)) &&
        (written.drop 2).all fun x => decide (x.selector.priority < r.selector.priority)) = true := by
    decide +kernel
  obtain ⟨q, r, s, hWritten⟩ := List.length_eq_three.mp hThree
  rw [hWritten] at hTest
  simp only [List.getElem?_cons_succ, List.getElem?_cons_zero, Option.any_some, Bool.and_eq_true, beq_iff_eq,
    List.all_eq_true, decide_eq_true_eq] at hTest
  obtain ⟨⟨⟨hSets, hMargin⟩, hBefore⟩, hAfter⟩ := hTest
  refine ⟨q, r, s, ?_, hSets, hMargin, hBefore, hAfter s List.mem_cons_self⟩
  rw [Stylesheet.rules_behind_defaults, hEmbedded, List.append_assoc]
  exact congrArg _ hWritten

/-- The second of two rules of one priority wins, also against rules of lower priority before and behind it. -/
theorem get?_style_apply_framedParagraph :
    ∃ ancestors i a cs,
      (ancestors, .element i "p" a cs) ∈ (apply framedParagraph authorRules userRules).1.lineages [] ∧
      "margin" ≠ "font-size" ∧
      (∃ value, (∀ w, Cascades (Stylesheet.parse (combinedSheet framedParagraph authorRules userRules)).1
          (Node.parentStyle? ancestors) (Node.tagsOf ancestors) "p" a "margin" w ↔ w = value) ∧
        i.style.get? "margin" = value.map (withoutKeyword (Node.parentStyle? ancestors) "margin")) ∧
      i.style.get? "margin" = some "2px" := by
  let rules := Stylesheet.byPriority (Stylesheet.parse (combinedSheet framedParagraph authorRules userRules)).1
  have hMem : ∃ i cs,
      ([tree rules none [] framedParagraph], .element i "p" ⟨[("style", "color: inherit")]⟩ cs) ∈
        (apply framedParagraph authorRules userRules).1.lineages [] := by
    rw [apply_eq]
    exact ⟨_, _, List.mem_cons_of_mem _ List.mem_cons_self⟩
  obtain ⟨i, cs, hMem⟩ := hMem
  have hName : "margin" ≠ "font-size" := by decide
  obtain ⟨value, hValue, hStyle⟩ := get?_style_apply hMem hName
  refine ⟨_, i, _, cs, hMem, hName, ⟨value, hValue, hStyle⟩, ?_⟩
  obtain ⟨q, r, s, hRules, hSets, hMargin, hBefore, hAfter⟩ := rules_framedParagraph
  have hInline : inlineValue? ⟨[("style", "color: inherit")]⟩ "margin" = none := by decide +kernel
  have hWins : Stylesheet.Wins (·.sets ["div"] "p" "margin")
      (Stylesheet.parse (combinedSheet framedParagraph authorRules userRules)).1 r :=
    ⟨_, _, hRules, hSets, fun x hx _ => hBefore x hx, fun x hx _ => List.mem_singleton.mp hx ▸ hAfter⟩
  rw [hStyle, ← (hValue _).mp (.rule hInline hWins hMargin)]
  rfl

end Style

end PageRender
