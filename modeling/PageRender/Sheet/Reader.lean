import PageRender.Diagnostic
import PageRender.Sheet.Selector
import PageRender.Text.Words
import PageRender.Text.Unicode.CaseFold
import PageRender.Text.Unicode.Letter
import PageRender.Text.Unicode.Numeric

/-!
# Reading stylesheets

A reader takes what it needs from the front of the text. Where it fails, reading goes on after the
next semicolon of the block or after the next closing brace. Findings carry the number of
characters that were left when they were made.
-/

namespace PageRender.Sheet

/-- Why and where a part could not be read, and the text that is left there. -/
structure Failure where
  left : Nat
  finding : Finding
  rest : List Char

/-- A part that was read, with the text after it. -/
abbrev Reading (α : Type) := Except Failure (α × List Char)

def afterComment : List Char → List Char
  | '*' :: '/' :: cs => cs
  | _ :: cs => afterComment cs
  | [] => []

theorem length_afterComment_le (cs : List Char) : (afterComment cs).length ≤ cs.length := by
  fun_induction afterComment cs with
  | case1 => simp only [List.length_cons]; omega
  | case2 => simp only [List.length_cons]; omega
  | case3 => simp

def skipBlank : List Char → List Char
  | [] => []
  | c :: cs =>
    if Text.isBlank c then skipBlank cs
    else if c == '/' && cs.head? == some '*' then skipBlank (afterComment (cs.drop 1))
    else c :: cs
termination_by cs => cs.length
decreasing_by
  · simp
  · have := length_afterComment_le (cs.drop 1)
    simp only [List.length_drop, List.length_cons] at *
    omega

theorem length_skipBlank_le (cs : List Char) : (skipBlank cs).length ≤ cs.length := by
  fun_induction skipBlank cs with
  | case1 => simp
  | case2 c cs _ ih => simp only [List.length_cons]; omega
  | case3 c cs _ _ ih =>
    have := length_afterComment_le (cs.drop 1)
    simp only [List.length_drop, List.length_cons] at *
    omega
  | case4 => simp

def failAt {α : Type} (cs : List Char) (finding : Finding) : Reading α :=
  .error ⟨cs.length, finding, cs⟩

def expect (mark : Char) (cs : List Char) : Reading Unit :=
  match cs with
  | [] => failAt cs (.expectedMark mark none)
  | c :: rest => if c == mark then .ok ((), rest) else failAt cs (.expectedMark mark (some c))

def isWordChar (c : Char) : Bool :=
  Text.isLetter c || Text.isNumeric c || ['#', '-', '.', '%', '_'].contains c

def word (cs : List Char) : Reading String :=
  match cs with
  | [] => failAt cs (.expectedWord none)
  | c :: rest =>
    if isWordChar c then
      .ok (Text.foldCase (String.ofList (c :: rest.takeWhile isWordChar)),
        rest.dropWhile isWordChar)
    else failAt cs (.expectedWord (some c))

def endsValue (c : Char) : Bool :=
  c == ';' || c == '\x7d'

def value (cs : List Char) : Reading String :=
  let text := Text.trim (cs.takeWhile (!endsValue ·))
  let rest := cs.dropWhile (!endsValue ·)
  if text.isEmpty then .error ⟨cs.length, .emptyValue, rest⟩ else .ok (String.ofList text, rest)

def declaration (cs : List Char) : Reading (String × String) :=
  match word cs with
  | .error f => .error f
  | .ok (name, afterName) =>
    match expect ':' (skipBlank afterName) with
    | .error f => .error f
    | .ok (_, afterColon) =>
      match value (skipBlank afterColon) with
      | .error f => .error f
      | .ok (text, rest) => .ok ((name, text), rest)

theorem length_dropWhile_le (p : Char → Bool) (cs : List Char) :
    (cs.dropWhile p).length ≤ cs.length :=
  (List.dropWhile_sublist p).length_le

theorem length_word_lt {cs rest : List Char} {w : String} (h : word cs = .ok (w, rest)) :
    rest.length < cs.length := by
  unfold word at h
  split at h
  · simp [failAt] at h
  · split at h
    · rename_i c r _
      simp only [Except.ok.injEq, Prod.mk.injEq] at h
      have := length_dropWhile_le isWordChar r
      simp only [← h.2, List.length_cons]
      omega
    · simp [failAt] at h

theorem length_word_failure {cs : List Char} {f : Failure} (h : word cs = .error f) :
    f.rest.length ≤ cs.length := by
  unfold word at h
  split at h
  · simp only [failAt, Except.error.injEq] at h
    simp [← h]
  · split at h
    · simp at h
    · simp only [failAt, Except.error.injEq] at h
      simp [← h]

theorem length_expect_lt {mark : Char} {cs rest : List Char} {u : Unit}
    (h : expect mark cs = .ok (u, rest)) : rest.length < cs.length := by
  unfold expect at h
  split at h
  · simp [failAt] at h
  · split at h
    · simp only [Except.ok.injEq, Prod.mk.injEq] at h
      simp [← h.2]
    · simp [failAt] at h

theorem length_expect_failure {mark : Char} {cs : List Char} {f : Failure}
    (h : expect mark cs = .error f) : f.rest.length ≤ cs.length := by
  unfold expect at h
  split at h
  · simp only [failAt, Except.error.injEq] at h
    simp [← h]
  · split at h
    · simp at h
    · simp only [failAt, Except.error.injEq] at h
      simp [← h]

theorem length_value_le {cs rest : List Char} {v : String} (h : value cs = .ok (v, rest)) :
    rest.length ≤ cs.length := by
  simp only [value] at h
  split at h
  · simp at h
  · simp only [Except.ok.injEq, Prod.mk.injEq] at h
    simp only [← h.2]
    exact length_dropWhile_le _ _

theorem length_value_failure {cs : List Char} {f : Failure} (h : value cs = .error f) :
    f.rest.length ≤ cs.length := by
  simp only [value] at h
  split at h
  · simp only [Except.error.injEq] at h
    simp only [← h]
    exact length_dropWhile_le _ _
  · simp at h

theorem length_declaration_lt {cs rest : List Char} {p : String × String}
    (h : declaration cs = .ok (p, rest)) : rest.length < cs.length := by
  unfold declaration at h
  split at h
  · simp at h
  · rename_i afterName h₁
    split at h
    · simp at h
    · rename_i afterColon h₂
      split at h
      · simp at h
      · rename_i h₃
        simp only [Except.ok.injEq, Prod.mk.injEq] at h
        have := length_word_lt h₁
        have := length_expect_lt h₂
        have := length_value_le h₃
        have := length_skipBlank_le afterName
        have := length_skipBlank_le afterColon
        rw [← h.2]
        omega

theorem length_declaration_failure {cs : List Char} {f : Failure}
    (h : declaration cs = .error f) : f.rest.length ≤ cs.length := by
  unfold declaration at h
  split at h
  · rename_i h₁
    rw [Except.error.injEq] at h
    exact h ▸ length_word_failure h₁
  · rename_i afterName h₁
    have := length_word_lt h₁
    have := length_skipBlank_le afterName
    split at h
    · rename_i h₂
      rw [Except.error.injEq] at h
      have := length_expect_failure h₂
      rw [← h]
      omega
    · rename_i afterColon h₂
      have := length_expect_lt h₂
      have := length_skipBlank_le afterColon
      split at h
      · rename_i h₃
        rw [Except.error.injEq] at h
        have := length_value_failure h₃
        rw [← h]
        omega
      · simp at h

/-- What a block declares, what was stepped over in it, and the text after it. -/
structure Block where
  declarations : Declarations := .empty
  findings : List (Nat × Finding) := []
  rest : List Char := []

def declarations (taken : Block) (cs : List Char) : Block :=
  match cs with
  | [] => { taken with rest := [] }
  | c :: rest =>
    if c == '\x7d' then { taken with rest := c :: rest }
    else
      match _h : declaration (c :: rest) with
      | .ok ((name, text), after) =>
        let taken := { taken with declarations := taken.declarations.insert name text }
        match _h' : skipBlank after with
        | ';' :: next => declarations taken (skipBlank next)
        | next => declarations taken next
      | .error f =>
        let taken := { taken with findings := taken.findings ++ [(f.left, f.finding)] }
        match _h' : f.rest.dropWhile (!endsValue ·) with
        | ';' :: next => declarations taken (skipBlank next)
        | next => { taken with rest := next }
termination_by cs.length
decreasing_by
  · have := length_declaration_lt _h
    have h₂ := length_skipBlank_le after
    have := length_skipBlank_le next
    rw [_h', List.length_cons] at h₂
    omega
  · have := length_declaration_lt _h
    have h₂ := length_skipBlank_le after
    rw [_h'] at h₂
    omega
  · have := length_declaration_failure _h
    have h₂ := length_dropWhile_le (!endsValue ·) f.rest
    have := length_skipBlank_le next
    rw [_h', List.length_cons] at h₂
    omega

def block (cs : List Char) : Block :=
  declarations {} (skipBlank cs)

def selectorWords (s : Selector) (cs : List Char) : Reading Selector :=
  match cs with
  | [] => .ok (s, [])
  | c :: rest =>
    if c == '\x7b' || c == ',' then .ok (s, c :: rest)
    else
      match _h : word (c :: rest) with
      | .ok (name, after) => selectorWords (s.within name) (skipBlank after)
      | .error f => .error f
termination_by cs.length
decreasing_by
  have := length_word_lt _h
  have := length_skipBlank_le after
  omega

theorem length_selectorWords_le {s t : Selector} {cs rest : List Char}
    (h : selectorWords s cs = .ok (t, rest)) : rest.length ≤ cs.length := by
  fun_induction selectorWords s cs with
  | case1 => simp_all
  | case2 => simp_all
  | case3 s c r _ name after hw ih =>
    have := length_word_lt hw
    have := length_skipBlank_le after
    have := ih h
    omega
  | case4 => simp at h

theorem length_selectorWords_failure {s : Selector} {cs : List Char} {f : Failure}
    (h : selectorWords s cs = .error f) : f.rest.length ≤ cs.length := by
  fun_induction selectorWords s cs with
  | case1 => simp at h
  | case2 => simp at h
  | case3 s c r _ name after hw ih =>
    have := length_word_lt hw
    have := length_skipBlank_le after
    have := ih h
    omega
  | case4 s c r _ g hw =>
    rw [Except.error.injEq] at h
    exact h ▸ length_word_failure hw

def selector (cs : List Char) : Reading Selector :=
  match word cs with
  | .error f => .error f
  | .ok (name, rest) => selectorWords (.tag name) (skipBlank rest)

theorem length_selector_lt {s : Selector} {cs rest : List Char}
    (h : selector cs = .ok (s, rest)) : rest.length < cs.length := by
  unfold selector at h
  split at h
  · simp at h
  · rename_i after h₁
    have := length_word_lt h₁
    have := length_skipBlank_le after
    have := length_selectorWords_le h
    omega

theorem length_selector_failure {cs : List Char} {f : Failure}
    (h : selector cs = .error f) : f.rest.length ≤ cs.length := by
  unfold selector at h
  split at h
  · rename_i h₁
    rw [Except.error.injEq] at h
    exact h ▸ length_word_failure h₁
  · rename_i after h₁
    have := length_word_lt h₁
    have := length_skipBlank_le after
    have := length_selectorWords_failure h
    omega

def selectors (taken : List Selector) (cs : List Char) : Reading (List Selector) :=
  match _h : selector cs with
  | .ok (s, ',' :: rest) => selectors (taken ++ [s]) (skipBlank rest)
  | .ok (s, rest) => .ok (taken ++ [s], rest)
  | .error f => .error f
termination_by cs.length
decreasing_by
  have h₁ := length_selector_lt _h
  have := length_skipBlank_le rest
  simp only [List.length_cons] at h₁
  omega

theorem length_selectors_lt {taken ss : List Selector} {cs rest : List Char}
    (h : selectors taken cs = .ok (ss, rest)) : rest.length < cs.length := by
  fun_induction selectors taken cs with
  | case1 taken cs s r hs ih =>
    have h₁ := length_selector_lt hs
    have := length_skipBlank_le r
    have := ih h
    simp only [List.length_cons] at h₁
    omega
  | case2 taken cs s r _ hs =>
    simp only [Except.ok.injEq, Prod.mk.injEq] at h
    exact h.2 ▸ length_selector_lt hs
  | case3 => simp at h

theorem length_selectors_failure {taken : List Selector} {cs : List Char} {f : Failure}
    (h : selectors taken cs = .error f) : f.rest.length ≤ cs.length := by
  fun_induction selectors taken cs with
  | case1 taken cs s r hs ih =>
    have h₁ := length_selector_lt hs
    have := length_skipBlank_le r
    have := ih h
    simp only [List.length_cons] at h₁
    omega
  | case2 => simp at h
  | case3 taken cs g hs =>
    rw [Except.error.injEq] at h
    exact h ▸ length_selector_failure hs

/-- What was stepped over inside a rule, and the rule with the text after it. -/
structure RuleReading where
  findings : List (Nat × Finding) := []
  outcome : Reading (List Rule)

/-- Takes a rule; it stands for one rule for each of its selectors. -/
def rule (cs : List Char) : RuleReading :=
  match selectors [] cs with
  | .error f => ⟨[], .error f⟩
  | .ok (ss, rest) =>
    match expect '\x7b' rest with
    | .error f => ⟨[], .error f⟩
    | .ok (_, inside) =>
      let b := block inside
      match expect '\x7d' b.rest with
      | .error f => ⟨b.findings, .error f⟩
      | .ok (_, after) => ⟨b.findings, .ok (ss.map (⟨·, b.declarations⟩), after)⟩

theorem length_declarations_le (taken : Block) (cs : List Char) :
    (declarations taken cs).rest.length ≤ cs.length := by
  fun_induction declarations taken cs with
  | case1 => simp
  | case2 => simp
  | case3 taken c rest _ name text after h _ next h' ih =>
    have := length_declaration_lt h
    have h₂ := length_skipBlank_le after
    have := length_skipBlank_le next
    rw [h', List.length_cons] at h₂
    omega
  | case4 taken c rest _ name text after h _ _ ih =>
    have := length_declaration_lt h
    have h₂ := length_skipBlank_le after
    omega
  | case5 taken c rest _ f h _ next h' ih =>
    have := length_declaration_failure h
    have h₂ := length_dropWhile_le (!endsValue ·) f.rest
    have := length_skipBlank_le next
    rw [h', List.length_cons] at h₂
    omega
  | case6 taken c rest _ f h =>
    have := length_declaration_failure h
    have h₂ := length_dropWhile_le (!endsValue ·) f.rest
    simp only
    omega

theorem length_block_le (cs : List Char) : (block cs).rest.length ≤ cs.length :=
  Nat.le_trans (length_declarations_le _ _) (length_skipBlank_le _)

theorem length_rule_lt {cs rest : List Char} {rs : List Rule}
    (h : (rule cs).outcome = .ok (rs, rest)) : rest.length < cs.length := by
  unfold rule at h
  split at h
  · simp at h
  · rename_i ss afterSelectors hs
    split at h
    · simp at h
    · rename_i inside he
      dsimp only at h
      split at h
      · simp at h
      · rename_i after hc
        simp only [Except.ok.injEq, Prod.mk.injEq] at h
        have := length_selectors_lt hs
        have := length_expect_lt he
        have := length_expect_lt hc
        have := length_block_le inside
        rw [← h.2]
        omega

theorem length_rule_failure {cs : List Char} {f : Failure}
    (h : (rule cs).outcome = .error f) : f.rest.length ≤ cs.length := by
  unfold rule at h
  split at h
  · rename_i hs
    exact Except.error.inj h ▸ length_selectors_failure hs
  · rename_i ss afterSelectors hs
    have := length_selectors_lt hs
    split at h
    · rename_i he
      have := length_expect_failure he
      rw [← Except.error.inj h]
      omega
    · rename_i inside he
      dsimp only at h
      split at h
      · rename_i hc
        have := length_expect_lt he
        have := length_expect_failure hc
        have := length_block_le inside
        rw [← Except.error.inj h]
        omega
      · simp at h

end PageRender.Sheet
