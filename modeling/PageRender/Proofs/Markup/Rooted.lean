import PageRender.Proofs.Markup.Moves

/-! # Rooted stacks

Every move keeps the stack of open elements rooted. From a rooted stack an action finds at least the
elements it needs: a text always has a section to go to, and the last element is never closed. So
reading a text is nothing but moves, and its end leaves the root alone on the stack.
-/

namespace PageRender.Markup

open OpenElement

/-- Distinct sections of one document. -/
def AreSections (ts : List (Option String)) : Prop :=
  ts.Nodup ∧ ∀ t ∈ ts, t = some "head" ∨ t = some "body"

def Rooted : List OpenElement → Prop
  | [] => True
  | [root] => root.tag = "html" ∧ AreSections root.childTags
  | [s, root] => root.tag = "html" ∧ AreSections (root.childTags ++ [some s.tag])
  | _ :: e :: e' :: rest => Rooted (e :: e' :: rest)

theorem AreSections.perm {ts us : List (Option String)} (h : AreSections ts) (hPerm : ts.Perm us) :
    AreSections us :=
  ⟨hPerm.nodup_iff.mp h.1, fun t ht => h.2 t (hPerm.mem_iff.mpr ht)⟩

theorem AreSections.concat {ts : List (Option String)} {t : String} (h : AreSections ts)
    (hNew : some t ∉ ts) (hSection : IsSection t) : AreSections (ts ++ [some t]) := by
  constructor
  · rw [List.nodup_append]
    refine ⟨h.1, by simp, ?_⟩
    intro a ha b hb hab
    rw [List.mem_singleton] at hb
    rw [hab, hb] at ha
    exact hNew ha
  · intro u hu
    rcases List.mem_append.mp hu with hu | hu
    · exact h.2 u hu
    · rw [List.mem_singleton.mp hu]
      exact hSection.imp (congrArg some) (congrArg some)

@[simp] theorem childTags_add_close (e s : OpenElement) :
    (e.add s.close).childTags = e.childTags ++ [some s.tag] := by
  simp [childTags, add, close, Node.tag?]

/-- Of the elements inside the root only the tag of the section matters. -/
theorem rooted_of_tag_eq {e f e' : OpenElement} {rest : List OpenElement} (hTag : e.tag = f.tag)
    (h : Rooted (e :: e' :: rest)) : Rooted (f :: e' :: rest) := by
  cases rest with
  | nil => exact ⟨h.1, hTag ▸ h.2⟩
  | cons => exact h

theorem rooted_section_ {e : OpenElement} {t : String} (a : Attributes) (h : Rooted [e])
    (hSection : IsSection t) : Rooted [e.opened t a, e.without t] := by
  refine ⟨by rw [without_tag]; exact h.1, ?_⟩
  rw [opened_tag]
  cases hChild : e.child? t with
  | some n =>
    obtain ⟨before, hChildren, -, hWithout, -⟩ := opened_of_child? a hChild
    have hPerm : e.childTags.Perm ((e.without t).childTags ++ [some t]) := by
      rw [childTags, childTags, hChildren, hWithout, List.map_append, List.map_append, List.map_cons]
      have hTag : (e.opened t a).close.tag? = some t := by simp [close, Node.tag?]
      rw [hTag]
      exact List.perm_middle.trans (List.perm_append_singleton _ _).symm
    exact h.2.perm hPerm
  | none =>
    have hNew := child?_eq_none_iff.mp hChild
    have hWithout := (opened_of_child?_eq_none a hChild).2
    have hTags : (e.without t).childTags =
        e.childTags ++ if t = "body" ∧ some "head" ∉ e.childTags then [some "head"] else [] := by
      rw [childTags, hWithout, List.map_append]
      split <;> rfl
    rw [hTags]
    split
    · rename_i hBody
      refine AreSections.concat (h.2.concat hBody.2 (.inl rfl)) ?_ hSection
      rw [List.mem_append, not_or]
      exact ⟨hNew, by simp [hBody.1]⟩
    · rw [List.append_nil]
      exact h.2.concat hNew hSection

theorem Move.rooted {s s' : List OpenElement} {l : Effect} (h : Rooted s) (hMove : Move s l s') :
    Rooted s' := by
  cases hMove with
  | root => exact ⟨rfl, List.nodup_nil, by simp [childTags]⟩
  | @text e => exact rooted_of_tag_eq (e := e) rfl h
  | @void e => exact rooted_of_tag_eq (e := e) rfl h
  | push => exact h
  | @section_ e rest t a hTop hSection =>
    cases rest with
    | nil => exact rooted_section_ a h hSection
    | cons e' rest =>
      show Rooted (e.without t :: e' :: rest)
      exact rooted_of_tag_eq (without_tag e t).symm h
  | @close e e' rest =>
    cases rest with
    | nil => exact ⟨h.1, by rw [childTags_add_close]; exact h.2⟩
    | cons => exact rooted_of_tag_eq (e := e') rfl h

theorem Moves.rooted {s s' : List OpenElement} {ls : List Effect} (h : Rooted s)
    (hMoves : Moves s ls s') : Rooted s' :=
  hMoves.keep (P := Rooted) (fun _ _ _ h hMove => hMove.rooted h) h

/-- Every effect is none. -/
def Quiet (ls : List Effect) : Prop :=
  ∀ l ∈ ls, l = .none

theorem Quiet.append {ls ls' : List Effect} (h : Quiet ls) (h' : Quiet ls') : Quiet (ls ++ ls') := by
  intro l hl
  exact (List.mem_append.mp hl).elim (h l) (h' l)

theorem Quiet.flatMap_texts {ls : List Effect} (h : Quiet ls) : ls.flatMap Effect.texts = [] := by
  rw [List.flatMap_eq_nil_iff]
  intro l hl
  rw [h l hl]
  rfl

theorem Quiet.not_reorders {ls : List Effect} (h : Quiet ls) : ∀ l ∈ ls, ¬l.Reorders := by
  intro l hl hReorders
  rw [h l hl] at hReorders
  exact hReorders

theorem isSection_impliedSection (e : OpenElement) (tag : Option String) :
    IsSection (Builder.impliedSection e tag) := by
  rw [Builder.impliedSection]
  split
  · exact .inl rfl
  · exact .inr rfl

theorem move_of_implied? {b b' : Builder} {tag : Option String} (h : b.implied? tag = some b') :
    Move b.stack .none b'.stack := by
  have hTurn := Builder.turn_of_implied? h
  generalize b.stack = stack at hTurn ⊢
  generalize b'.stack = stack' at hTurn ⊢
  cases hTurn with
  | root => exact .root Tag.areAttributes_empty
  | @opening root hRoot => exact .section_ hRoot (isSection_impliedSection root tag) Tag.areAttributes_empty
  | closing => exact .close

theorem moves_of_settles {b b' : Builder} {tag : Option String} (h : b.Settles tag b') :
    ∃ ls, Moves b.stack ls b'.stack ∧ Quiet ls ∧ b'.implied? tag = none := by
  induction h with
  | done h => exact ⟨[], .nil, by simp [Quiet], h⟩
  | turn h _ ih =>
    obtain ⟨ls, hMoves, hQuiet, hRest⟩ := ih
    refine ⟨.none :: ls, .cons (move_of_implied? h) hMoves, ?_, hRest⟩
    intro l hl
    rcases List.mem_cons.mp hl with rfl | hl
    · rfl
    · exact hQuiet l hl

theorem settle_moves (b : Builder) (tag : Option String) :
    ∃ ls, Moves b.stack ls (b.settle tag).stack ∧ Quiet ls ∧ (b.settle tag).implied? tag = none :=
  moves_of_settles (Builder.settles_settle b tag)

/-- Where nothing is implied, two elements are open unless the tag may stand in the root or is the
root itself. -/
theorem two_le_of_implied?_eq_none {b : Builder} {tag : Option String} (hRooted : Rooted b.stack)
    (h : b.implied? tag = none) (hRoot : tag ≠ some "html") (hDirect : Builder.standsInRoot tag = false) :
    ∃ e e' rest, b.stack = e :: e' :: rest := by
  obtain ⟨stack, f⟩ := b
  match stack with
  | [] => simp [Builder.implied?, hRoot] at h
  | [root] => simp [Builder.implied?, hRooted.1, hDirect] at h
  | e :: e' :: rest => exact ⟨e, e', rest, rfl⟩

end PageRender.Markup
