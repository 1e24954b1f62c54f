import PageRender.Fault
import PageRender.Script.Token
import PageRender.Text.Unicode.Letter

/-!
# Reading tokens

Blanks and comments up to the end of their line separate tokens; characters that begin no token are
stepped over. Only a number whose digits have no decimal value is a fault.
-/

namespace PageRender.Script

def afterLine : List Char → List Char
  | [] => []
  | c :: cs => if c == '\n' then cs else afterLine cs

theorem length_afterLine_le (cs : List Char) : (afterLine cs).length ≤ cs.length := by
  fun_induction afterLine cs with
  | case1 => simp
  | case2 => simp
  | case3 c cs _ ih => simp only [List.length_cons]; omega

def skipBlank : List Char → List Char
  | [] => []
  | c :: cs =>
    if Text.isBlank c then skipBlank cs
    else if c == '/' && cs.head? == some '/' then skipBlank (afterLine cs)
    else c :: cs
termination_by cs => cs.length
decreasing_by
  · simp
  · have := length_afterLine_le cs
    simp only [List.length_cons]
    omega

theorem length_skipBlank_le (cs : List Char) : (skipBlank cs).length ≤ cs.length := by
  fun_induction skipBlank cs with
  | case1 => simp
  | case2 c cs _ ih => simp only [List.length_cons]; omega
  | case3 c cs _ _ ih =>
    have := length_afterLine_le cs
    simp only [List.length_cons]
    omega
  | case4 => simp

def unescape (c : Char) : Char :=
  if c == 'n' then '\n' else if c == 't' then '\t' else c

/-- The content of a string up to its closing quote or the end of the text. -/
def readString (quote : Char) : List Char → List Char × List Char
  | [] => ([], [])
  | [c] => if c == quote then ([], []) else ([c], [])
  | c :: d :: cs =>
    if c == quote then ([], d :: cs)
    else if c == '\\' then
      let (content, rest) := readString quote cs
      (unescape d :: content, rest)
    else
      let (content, rest) := readString quote (d :: cs)
      (c :: content, rest)

theorem length_readString_le (quote : Char) (cs : List Char) :
    (readString quote cs).2.length ≤ cs.length := by
  fun_induction readString quote cs <;> simp_all <;> omega

/-- The characters of a number: digits around at most one point, which stands before a digit. -/
def readNumber (seenPoint : Bool) : List Char → List Char × List Char
  | [] => ([], [])
  | c :: cs =>
    if Text.isDigit c then
      let (digits, rest) := readNumber seenPoint cs
      (c :: digits, rest)
    else if c == '.' && !seenPoint && cs.head?.any Text.isDigit then
      let (digits, rest) := readNumber true cs
      (c :: digits, rest)
    else ([], c :: cs)

theorem length_readNumber_le (seenPoint : Bool) (cs : List Char) :
    (readNumber seenPoint cs).2.length ≤ cs.length := by
  fun_induction readNumber seenPoint cs <;> simp_all <;> omega

def beginsName (c : Char) : Bool :=
  Text.isLetter c || c == '_' || c == '$'

def isNameChar (c : Char) : Bool :=
  beginsName c || Text.isNumeric c

def wordToken (s : String) : Token :=
  match Keyword.ofText? s with
  | some w => .keyword w
  | none => .identifier s

/-- The first token of a text that begins with no blank, if its first character begins one, and the
text after it. -/
def readToken (c : Char) (cs : List Char) : Except Fault (Option Token × List Char) :=
  if c == '"' || c == '\'' then
    let (content, rest) := readString c cs
    .ok (some (.string (String.ofList content)), rest)
  else if Text.isDigit c then
    let (digits, rest) := readNumber false cs
    let text := String.ofList (c :: digits)
    match readDouble? text with
    | some x => .ok (some (.number x), rest)
    | none => .error (.malformedNumber text)
  else if beginsName c then
    .ok (some (wordToken (String.ofList (c :: cs.takeWhile isNameChar))), cs.dropWhile isNameChar)
  else
    match Mark.read? (c :: cs) with
    | some (m, rest) => .ok (some (.mark m), rest)
    | none => .ok (none, cs)

theorem length_markRead_le {c : Char} {cs rest : List Char} {m : Mark}
    (h : Mark.read? (c :: cs) = some (m, rest)) : rest.length ≤ cs.length := by
  unfold Mark.read? at h
  split at h
  · simp at h
  · simp only [Option.map_eq_some_iff, Prod.mk.injEq] at h
    obtain ⟨_, _, _, rfl⟩ := h
    simp
  · rename_i c' d r heq
    simp only [List.cons.injEq] at heq
    split at h
    · simp only [Option.some.injEq, Prod.mk.injEq] at h
      simp [← h.2, heq.2]
    · simp only [Option.map_eq_some_iff, Prod.mk.injEq] at h
      obtain ⟨_, _, _, rfl⟩ := h
      simp [heq.2]

theorem length_readToken_le {c : Char} {cs rest : List Char} {t : Option Token}
    (h : readToken c cs = .ok (t, rest)) : rest.length ≤ cs.length := by
  unfold readToken at h
  split at h
  · simp only [Except.ok.injEq, Prod.mk.injEq] at h
    exact h.2 ▸ length_readString_le _ _
  · split at h
    · dsimp only at h
      split at h
      · simp only [Except.ok.injEq, Prod.mk.injEq] at h
        exact h.2 ▸ length_readNumber_le _ _
      · simp at h
    · split at h
      · simp only [Except.ok.injEq, Prod.mk.injEq] at h
        exact h.2 ▸ (List.dropWhile_sublist isNameChar).length_le
      · split at h
        · rename_i hm
          simp only [Except.ok.injEq, Prod.mk.injEq] at h
          exact h.2 ▸ length_markRead_le hm
        · simp only [Except.ok.injEq, Prod.mk.injEq] at h
          simp [← h.2]

def tokens (cs : List Char) : Except Fault (List Token) :=
  match _h : skipBlank cs with
  | [] => .ok []
  | c :: after =>
    match _h' : readToken c after with
    | .error f => .error f
    | .ok (t, rest) => (tokens rest).map (t.toList ++ ·)
termination_by cs.length
decreasing_by
  have h₁ := length_skipBlank_le cs
  have := length_readToken_le _h'
  rw [_h, List.length_cons] at h₁
  omega

def tokenize (source : String) : Except Fault (List Token) :=
  tokens source.toList

end PageRender.Script
