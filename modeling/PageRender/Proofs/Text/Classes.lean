import PageRender.Proofs.Text.Folding
import PageRender.Script.Lexer

/-! # Classes of characters that do not meet

A blank is no part of a name or a number, and no number begins as a name does. The classes are sets of code
points given by their boundaries; that two have no point in common is seen in one walk along both.
-/

namespace PageRender

namespace Text

/-- The boundaries of a set, less the ranges that end before a point. -/
def boundariesFrom (point : Nat) : List Nat → List Nat
  | first :: next :: rest => if next ≤ point then boundariesFrom point rest else first :: next :: rest
  | bs => bs

def areApart : List Nat → List Nat → Bool
  | first :: next :: rest, bs =>
    match boundariesFrom first bs with
    | [] => true
    | b :: bs => next ≤ b && areApart rest (b :: bs)
  | [], _ => true
  | [_], bs => bs.isEmpty

theorem inBoundaries_range {first next n : Nat} {rest : List Nat} (h : inBoundaries (first :: next :: rest) n = true) :
    first ≤ n ∧ (n < next ∨ next ≤ n ∧ inBoundaries rest n = true) := by
  by_cases hFirst : n < first
  · simp [inBoundaries, hFirst] at h
  · refine ⟨by omega, ?_⟩
    by_cases hNext : n < next
    · exact .inl hNext
    · exact .inr ⟨by omega, by simpa [inBoundaries, hFirst, hNext] using h⟩

theorem le_of_inBoundaries {b n : Nat} {bs : List Nat} (h : inBoundaries (b :: bs) n = true) : b ≤ n := by
  refine Nat.le_of_not_lt fun hLess => ?_
  simp [inBoundaries, hLess] at h

theorem inBoundaries_boundariesFrom {point n : Nat} (hPoint : point ≤ n) {bs : List Nat}
    (h : inBoundaries bs n = true) : inBoundaries (boundariesFrom point bs) n = true := by
  fun_induction boundariesFrom point bs with
  | case1 first next rest hNext ih =>
    obtain ⟨-, hLess | ⟨-, hRest⟩⟩ := inBoundaries_range h
    · omega
    · exact ih hRest
  | case2 | case3 => exact h

theorem not_inBoundaries_of_areApart (as : List Nat) {bs : List Nat} (hApart : areApart as bs = true) {n : Nat}
    (hMem : inBoundaries as n = true) : inBoundaries bs n = false := by
  rw [Bool.eq_false_iff]
  intro hBoth
  fun_induction areApart as bs with
  | case1 first next rest bs hFrom =>
    have hBehind := inBoundaries_boundariesFrom (inBoundaries_range hMem).1 hBoth
    rw [hFrom] at hBehind
    cases hBehind
  | case2 first next rest bs b more hFrom ih =>
    have hBehind := inBoundaries_boundariesFrom (inBoundaries_range hMem).1 hBoth
    rw [hFrom] at hBehind
    simp only [Bool.and_eq_true, decide_eq_true_eq] at hApart
    obtain ⟨-, hLess | ⟨-, hRest⟩⟩ := inBoundaries_range hMem
    · have hLe := le_of_inBoundaries hBehind
      omega
    · exact ih hApart.2 hRest hBehind
  | case3 => cases hMem
  | case4 first bs =>
    rw [List.isEmpty_iff] at hApart
    rw [hApart] at hBoth
    cases hBoth

theorem not_isLetter_of_isDigit {c : Char} (h : isDigit c = true) : isLetter c = false :=
  not_inBoundaries_of_areApart digitBoundaries (by decide +kernel) h

theorem not_isDigit_of_isBlank {c : Char} (h : isBlank c = true) : isDigit c = false :=
  not_inBoundaries_of_areApart blankBoundaries (by decide +kernel) h

theorem not_isNumeric_of_isBlank {c : Char} (h : isBlank c = true) : isNumeric c = false :=
  not_inBoundaries_of_areApart blankBoundaries (by decide +kernel) h

theorem not_isLetter_of_isBlank {c : Char} (h : isBlank c = true) : isLetter c = false :=
  not_inBoundaries_of_areApart blankBoundaries (by decide +kernel) h

theorem ne_of_isBlank {c d : Char} (h : isBlank c = true) (hOther : isBlank d = false) : c ≠ d := by
  rintro rfl
  rw [h] at hOther
  cases hOther

theorem toNat_of_ascii {c : Char} (h : c.isDigit = true) : 48 ≤ c.toNat ∧ c.toNat < 58 := by
  simp only [Char.isDigit, UInt32.le_iff_toNat_le, Bool.and_eq_true, decide_eq_true_eq] at h
  exact ⟨h.1, Nat.lt_succ_of_le h.2⟩

theorem isDigit_of_ascii {c : Char} (h : c.isDigit = true) : isDigit c = true := by
  obtain ⟨hFirst, hLast⟩ := toNat_of_ascii h
  rw [isDigit, digitBoundaries, inBoundaries, inBoundaries, if_neg (by omega), if_pos hLast]
  rfl

theorem isDecimal_of_ascii {c : Char} (h : c.isDigit = true) : isDecimal c = true := by
  obtain ⟨hFirst, hLast⟩ := toNat_of_ascii h
  rw [isDecimal, decimalValue?, decimalZeros, List.find?_cons_of_pos (by simpa using ⟨hFirst, hLast⟩)]
  rfl

end Text

namespace Script

open Text

theorem not_beginsName_of_isDigit {c : Char} (h : isDigit c = true) : beginsName c = false := by
  have hLetter := not_isLetter_of_isDigit h
  have hOther : c ≠ '_' ∧ c ≠ '$' := by
    constructor
    all_goals
      rintro rfl
      exact absurd h (by decide)
  simp [beginsName, hLetter, hOther]

theorem not_isNameChar_of_isBlank {c : Char} (h : isBlank c = true) : isNameChar c = false := by
  have hUnderscore := ne_of_isBlank h (d := '_') (by decide)
  have hDollar := ne_of_isBlank h (d := '$') (by decide)
  simp [isNameChar, beginsName, not_isLetter_of_isBlank h, not_isNumeric_of_isBlank h, hUnderscore, hDollar]

end Script

end PageRender
