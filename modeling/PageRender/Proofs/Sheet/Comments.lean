import PageRender.Proofs.OrderedMap
import PageRender.Proofs.Sheet.Quoting

/-! # Comments in stylesheets

Between the parts of a stylesheet a comment is read as a blank. Inside a value it belongs to the value, and in what
is stepped over it is text like any other, so that a mark in it can end what is stepped over.
-/

namespace PageRender

namespace Sheet

theorem afterComment_append_end {comment : List Char} (h : ¬ ['*', '/'] <:+: comment) (more : List Char) :
    afterComment (comment ++ '*' :: '/' :: more) = more := by
  induction comment with
  | nil => rfl
  | cons c cs ih =>
    have hNot : ∀ rest, c = '*' → cs ++ '*' :: '/' :: more ≠ '/' :: rest := by
      rintro rest rfl hText
      cases cs with
      | nil => exact absurd (List.cons.inj hText).1 (by decide)
      | cons d cs =>
        obtain ⟨rfl, -⟩ := List.cons.inj hText
        exact h (List.prefix_append ['*', '/'] cs).isInfix
    rw [List.cons_append, afterComment]
    · exact ih fun hInside => h (hInside.trans (List.suffix_cons c cs).isInfix)
    · exact hNot

theorem dropWhile_comment {p : Char → Bool} {comment : List Char} (hInside : comment.all p = true)
    (hMarks : ∀ c ∈ ['/', '*', ' '], p c = true) (more : List Char) :
    ('/' :: '*' :: (comment ++ '*' :: '/' :: more)).dropWhile p = (' ' :: more).dropWhile p := by
  rw [List.dropWhile_cons_of_pos (hMarks '/' (by decide)), List.dropWhile_cons_of_pos (hMarks '*' (by decide)),
    List.dropWhile_append_of_pos (List.all_eq_true.mp hInside), List.dropWhile_cons_of_pos (hMarks '*' (by decide)),
    List.dropWhile_cons_of_pos (hMarks '/' (by decide)), List.dropWhile_cons_of_pos (hMarks ' ' (by decide))]

/-- Whether a comment at a place is passed over as a blank is. -/
def Place.passes (comment : List Char) : Place → Bool
  | blank => true
  | .comment | value => false
  | brokenDeclaration => comment.all (!endsValue ·)
  | brokenRule => comment.all (· != '\x7d')

theorem Place.agrees_of_passes {p : Place} {comment : List Char} (hComment : ¬ ['*', '/'] <:+: comment)
    (h : p.passes comment = true) (more : List Char) :
    p.Agrees ('/' :: '*' :: (comment ++ '*' :: '/' :: more)) (' ' :: more) := by
  cases p with
  | blank =>
    rw [Agrees, skipBlank_comment, afterComment_append_end hComment, skipBlank_of_isBlank (by decide)]
  | comment | value => cases h
  | brokenDeclaration => exact dropWhile_comment h (by decide) more
  | brokenRule => exact dropWhile_comment h (by decide) more

/-! ## Comments in values -/

theorem BeginsVisible.trim_eq {cs : List Char} (h : BeginsVisible cs) :
    Text.trim cs = (cs.reverse.dropWhile Text.isBlank).reverse := by
  obtain ⟨c, rest, rfl, hVisible⟩ := h
  rw [Text.trim, Text.trimStart, Text.trimStart, List.dropWhile_cons_of_neg (by simp [hVisible])]

/-- With a comment in place of a blank a value is longer. -/
theorem trim_comment_ne {start : List Char} (h : BeginsVisible start) (comment tail : List Char) :
    Text.trim (start ++ '/' :: '*' :: (comment ++ '*' :: '/' :: tail)) ≠ Text.trim (start ++ ' ' :: tail) := by
  have hLong : (Text.trim (start ++ '/' :: '*' :: (comment ++ '*' :: '/' :: tail))).length =
      (tail.reverse.dropWhile Text.isBlank).length + (start.length + comment.length + 4) := by
    have hText : (start ++ '/' :: '*' :: (comment ++ '*' :: '/' :: tail)).reverse =
        tail.reverse ++ '/' :: '*' :: (comment.reverse ++ '*' :: '/' :: start.reverse) := by simp
    rw [(h.append _).trim_eq, List.length_reverse, hText, dropWhile_append_of_head? (forall_head?_cons (by decide) _),
      List.length_append]
    simp only [List.length_cons, List.length_append, List.length_reverse]
    omega
  have hShort : (Text.trim (start ++ ' ' :: tail)).length ≤
      (tail.reverse.dropWhile Text.isBlank).length + (start.length + 1) := by
    have hText : (start ++ ' ' :: tail).reverse = tail.reverse ++ ' ' :: start.reverse := by simp
    have hDrop := length_dropWhile_le Text.isBlank (' ' :: start.reverse)
    rw [(h.append _).trim_eq, List.length_reverse, hText, List.dropWhile_append]
    rw [List.length_cons, List.length_reverse] at hDrop
    split
    · omega
    · rw [List.length_append, List.length_cons, List.length_reverse]
  intro hSame
  rw [hSame] at hLong
  omega

end Sheet

namespace Stylesheet

open Sheet

theorem rules_read_comment {cs comment : List Char} (hComment : ¬ ['*', '/'] <:+: comment)
    (hPlace : (placeAfter cs).passes comment = true) (more : List Char) :
    (read (cs ++ '/' :: '*' :: (comment ++ '*' :: '/' :: more))).rules = (read (cs ++ ' ' :: more)).rules :=
  rules_read_append_congr ⟨_, _, rfl, .inr rfl⟩ ⟨_, _, rfl, .inl rfl⟩ (Place.agrees_of_passes hComment hPlace more)

theorem rules_read_comment_ne {cs comment tail : List Char} (hPlace : placeAfter cs = .value)
    (hComment : ∀ c ∈ comment, endsValue c = false) (hTail : ∀ c ∈ tail, endsValue c = false) (more : List Char) :
    (read (cs ++ '/' :: '*' :: (comment ++ '*' :: '/' :: (tail ++ '\x7d' :: more)))).rules ≠
      (read (cs ++ ' ' :: (tail ++ '\x7d' :: more))).rules := by
  obtain ⟨before, ss, start, d, name, hNonempty, hVisible, hRules⟩ := exists_rules_of_value hPlace
  have hInside : ∀ c ∈ '/' :: '*' :: (comment ++ '*' :: '/' :: tail), endsValue c = false := by
    simp only [List.forall_mem_cons, List.forall_mem_append]
    exact ⟨by decide, by decide, hComment, by decide, by decide, hTail⟩
  have hInside' : ∀ c ∈ ' ' :: tail, endsValue c = false := by
    rw [List.forall_mem_cons]
    exact ⟨by decide, hTail⟩
  have hLong := hRules _ more ⟨_, _, rfl, .inr rfl⟩ hInside
  have hShort := hRules _ more ⟨_, _, rfl, .inl rfl⟩ hInside'
  simp only [List.cons_append, List.append_assoc] at hLong hShort
  rw [hLong, hShort, Ne, List.append_cancel_left_eq, List.append_cancel_right_eq]
  intro hSame
  obtain ⟨s, others, rfl⟩ := List.exists_cons_of_ne_nil hNonempty
  have hFirst := (List.cons.inj hSame).1
  have hValue := congrArg (·.declarations.get? name) hFirst
  simp only [OrderedMap.get?_insert, beq_self_eq_true, if_true, Option.some.injEq, String.ofList_inj] at hValue
  exact trim_comment_ne hVisible comment tail hValue

theorem toList_comment (before comment after : String) :
    (before ++ "/*" ++ comment ++ "*/" ++ after).toList =
        before.toList ++ '/' :: '*' :: (comment.toList ++ '*' :: '/' :: after.toList) ∧
      (before ++ " " ++ after).toList = before.toList ++ ' ' :: after.toList := by
  have hMarks : "/*".toList = ['/', '*'] ∧ "*/".toList = ['*', '/'] ∧ " ".toList = [' '] := by decide
  simp only [String.toList_append, hMarks, List.append_assoc, List.cons_append, List.nil_append, and_self]

/-- A comment gives the same rules as a blank in its place, between the parts of a stylesheet whatever the comment
holds, and in what is stepped over if it holds no mark at which that ends. Inside a value it gives other rules. -/
theorem rules_comment (before comment : String) (hComment : ¬ ['*', '/'] <:+: comment.toList) :
    ((placeAfter before.toList).passes comment.toList = true → ∀ after,
      (parse (before ++ "/*" ++ comment ++ "*/" ++ after)).1 = (parse (before ++ " " ++ after)).1) ∧
    (placeAfter before.toList = .value → (∀ c ∈ comment.toList, endsValue c = false) →
      ∀ tail, (∀ c ∈ tail.toList, endsValue c = false) → ∀ after,
        (parse (before ++ "/*" ++ comment ++ "*/" ++ (tail ++ "\x7d" ++ after))).1 ≠
          (parse (before ++ " " ++ (tail ++ "\x7d" ++ after))).1) := by
  constructor
  · intro hPlace after
    obtain ⟨hText, hText'⟩ := toList_comment before comment after
    rw [parse, parse, hText, hText']
    exact rules_read_comment hComment hPlace after.toList
  · intro hPlace hInside tail hTail after
    obtain ⟨hText, hText'⟩ := toList_comment before comment (tail ++ "\x7d" ++ after)
    have hEnd : (tail ++ "\x7d" ++ after).toList = tail.toList ++ '\x7d' :: after.toList := by
      have hBrace : ("\x7d" : String).toList = ['\x7d'] := by decide
      simp only [String.toList_append, hBrace, List.append_assoc, List.cons_append, List.nil_append]
    rw [parse, parse, hText, hText', hEnd]
    exact rules_read_comment_ne hPlace hInside hTail after.toList

/-- A comment that holds marks between two words of a selector, and one at the end of a value. -/
theorem rules_comment_samples :
    (parse ("ul" ++ "/*" ++ " \x7d; " ++ "*/" ++ "li \x7b color: red \x7d")).1 =
        (parse ("ul" ++ " " ++ "li \x7b color: red \x7d")).1 ∧
      (parse "ul li \x7b color: red \x7d").1.map (·.selector.words) = [["ul", "li"]] ∧
      (parse ("p \x7b color: red" ++ "/*" ++ " x " ++ "*/" ++ (" " ++ "\x7d" ++ "i \x7b\x7d"))).1 ≠
        (parse ("p \x7b color: red" ++ " " ++ (" " ++ "\x7d" ++ "i \x7b\x7d"))).1 := by
  have hPasses : (placeAfter "ul".toList).passes " \x7d; ".toList = true := by decide +kernel
  have hValue : placeAfter "p \x7b color: red".toList = .value := by decide +kernel
  exact ⟨(rules_comment "ul" " \x7d; " (by decide +kernel)).1 hPasses _, by decide +kernel,
    (rules_comment "p \x7b color: red" " x " (by decide +kernel)).2 hValue (by decide) " " (by decide) _⟩

/-- A comment in a value is a part of the value. -/
theorem rules_comment_in_value :
    (parse ("p \x7b color: red " ++ "/*" ++ " x " ++ "*/" ++ " \x7d")).1 ≠
      (parse ("p \x7b color: red " ++ " " ++ " \x7d")).1 := by
  intro hSame
  have hValues := congrArg (·.map (·.declarations.get? "color")) hSame
  revert hValues
  decide +kernel

end Stylesheet

end PageRender
