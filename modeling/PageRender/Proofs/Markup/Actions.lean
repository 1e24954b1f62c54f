import PageRender.Markup.Reader

/-! # What the reader does with a text

Reading is a sequence of actions on the document under construction: runs of text, tags and
findings, in the order of the source. Where a run of plain content ends depends on what is open, so
the actions are listed along with the builder they are performed on. A law that every fitting action
keeps holds of the document that was read.
-/

namespace PageRender.Markup

/-- One thing that the reader hands to the builder. -/
inductive Action where
  | run (text : List Char)
  | tag (left : Nat) (text : List Char)
  | note (left : Nat) (finding : Finding)

def perform (b : Builder) : Action → Builder
  | .run text => addRun b text
  | .tag left text => b.addTag left text
  | .note left finding => b.report left finding

/-- What an opening bracket ends: a run of text, or a tag that is given up. -/
def Action.beforeOpening (inTag : Bool) (held : List Char) (left : Nat) : Action :=
  if inTag then .note left .openInsideTag else .run held.reverse

def Action.closed (held : List Char) (left : Nat) : Action :=
  .tag left held.reverse

def Action.atEnd (inTag : Bool) (held : List Char) : Action :=
  if inTag then .note 0 .unterminatedTag else .run held.reverse

/-- The actions of the reader on the rest of a text. -/
def actions (b : Builder) (inTag : Bool) (held : List Char) : List Char → List Action
  | [] => [.atEnd inTag held]
  | c :: cs =>
    if c == '<' then
      let a := Action.beforeOpening inTag held (cs.length + 1)
      a :: actions (perform b a) true [] cs
    else if c == '>' && inTag then
      let a := Action.closed held (cs.length + 1)
      let raw := rawContent (perform b a) cs
      a :: .run raw.1 :: actions (perform (perform b a) (.run raw.1)) false [] raw.2
    else actions b inTag (c :: held) cs
termination_by cs => cs.length
decreasing_by
  · simp
  · exact Nat.lt_succ_of_le (length_rawContent_le _ _)
  · simp

def actionsOf (source : String) : List Action :=
  actions {} false [] source.toList

theorem read_eq_foldl (b : Builder) (inTag : Bool) (held cs : List Char) :
    read b inTag held cs = (actions b inTag held cs).foldl perform b := by
  fun_induction actions b inTag held cs with
  | case1 b inTag held => cases inTag <;> simp [read, perform, Action.atEnd]
  | case2 b inTag held c cs hOpen a ih =>
    rw [read, if_pos hOpen, List.foldl_cons, ← ih]
    cases inTag <;> rfl
  | case3 b inTag held c cs hOpen hClose a raw ih =>
    rw [read, if_neg hOpen, if_pos hClose, List.foldl_cons, List.foldl_cons, ← ih]
    rfl
  | case4 b inTag held c cs hOpen hClose ih =>
    rw [read, if_neg hOpen, if_neg hClose, ih]

section

variable {c : Char} {inTag : Bool} {held cs : List Char}

theorem actions_bracket (b : Builder) (hOpen : (c == '<') = true) :
    actions b inTag held (c :: cs) = .beforeOpening inTag held (cs.length + 1) ::
      actions (perform b (.beforeOpening inTag held (cs.length + 1))) true [] cs := by
  rw [actions, if_pos hOpen]

theorem actions_tagEnd (b : Builder) (hOpen : ¬(c == '<') = true) (hClose : (c == '>' && inTag) = true) :
    actions b inTag held (c :: cs) =
      let b₁ := perform b (.closed held (cs.length + 1))
      .closed held (cs.length + 1) :: .run (rawContent b₁ cs).1 ::
        actions (perform b₁ (.run (rawContent b₁ cs).1)) false [] (rawContent b₁ cs).2 := by
  rw [actions, if_neg hOpen, if_pos hClose]

theorem actions_held (b : Builder) (hOpen : ¬(c == '<') = true) (hClose : ¬(c == '>' && inTag) = true) :
    actions b inTag held (c :: cs) = actions b inTag (c :: held) cs := by
  rw [actions, if_neg hOpen, if_neg hClose]

end

/-- Only plain content holds an opening bracket, and the text of a tag holds no bracket. -/
def Action.Fits (b : Builder) : Action → Prop
  | .run text => '<' ∉ text ∨ b.rawTag?.isSome
  | .tag _ text => '<' ∉ text ∧ '>' ∉ text
  | .note _ _ => True

/-- Every action fits the builder that it is performed on. -/
def Fitting (b : Builder) : List Action → Prop
  | [] => True
  | a :: as => a.Fits b ∧ Fitting (perform b a) as

theorem fits_rawContent (b : Builder) (cs : List Char) : Action.Fits b (.run (rawContent b cs).1) := by
  unfold rawContent
  split
  · rename_i tag hTag
    exact .inr (by rw [hTag]; rfl)
  · exact .inl (by simp)

theorem fits_run_reverse (b : Builder) {held : List Char} (h : '<' ∉ held) :
    Action.Fits b (.run held.reverse) :=
  .inl (by simpa using h)

theorem fitting_actions (b : Builder) (inTag : Bool) (held cs : List Char) (hOpen : '<' ∉ held)
    (hClose : inTag = true → '>' ∉ held) : Fitting b (actions b inTag held cs) := by
  fun_induction actions b inTag held cs with
  | case1 b inTag held =>
    refine ⟨?_, trivial⟩
    cases inTag with
    | true => trivial
    | false => exact fits_run_reverse b hOpen
  | case2 b inTag held c cs hc a ih =>
    refine ⟨?_, ih (by simp) (by simp)⟩
    cases inTag with
    | true => trivial
    | false => exact fits_run_reverse b hOpen
  | case3 b inTag held c cs hc hGreater a raw ih =>
    have hTag : inTag = true := (Bool.and_eq_true_iff.mp hGreater).2
    exact ⟨⟨by simpa using hOpen, by simpa using hClose hTag⟩, fits_rawContent _ _,
      ih (by simp) (by simp)⟩
  | case4 b inTag held c cs hc hGreater ih =>
    have hNotOpen : c ≠ '<' := by simpa using hc
    apply ih
    · simpa using ⟨hNotOpen.symm, hOpen⟩
    · intro hTag
      have hNotClose : c ≠ '>' := by simpa [hTag] using hGreater
      simpa using ⟨hNotClose.symm, hClose hTag⟩

theorem foldl_perform_of_step {P : Builder → Prop}
    (step : ∀ b a, P b → a.Fits b → P (perform b a)) (b : Builder) (as : List Action) (h : P b)
    (hFits : Fitting b as) : P (as.foldl perform b) := by
  induction as generalizing b with
  | nil => exact h
  | cons a as ih => exact ih (perform b a) (step b a h hFits.1) hFits.2

/-- A law of builders that fitting actions keep holds when a whole text has been read. -/
theorem read_of_step {P : Builder → Prop} (step : ∀ b a, P b → a.Fits b → P (perform b a))
    (h : P {}) (cs : List Char) : P (read {} false [] cs) := by
  rw [read_eq_foldl]
  exact foldl_perform_of_step step {} _ h (fitting_actions {} false [] cs (by simp) (by simp))

end PageRender.Markup
