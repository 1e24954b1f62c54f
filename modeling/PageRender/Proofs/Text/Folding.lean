import PageRender.Text.Unicode.Blank
import PageRender.Text.Unicode.CaseFold

/-! # Folded texts

Folding is done once: what it yields is folded already. It makes no blank and none of the characters
below the small letters, so a text that holds none of these holds none when it is folded. Both facts
are read off the tables, image by image.
-/

namespace PageRender.Text

def foldChar (c : Char) : List Char :=
  caseImages foldCaseRuns foldCaseExpansions c

theorem toList_foldCase (s : String) : (foldCase s).toList = s.toList.flatMap foldChar := by
  rw [foldCase, mapCase, String.toList_ofList]
  rfl

/-- The code points in a set that is given by its boundaries. -/
def boundaryPoints : List Nat → List Nat
  | first :: next :: rest => List.range' first (next - first) ++ boundaryPoints rest
  | _ => []

theorem mem_boundaryPoints {n : Nat} (bs : List Nat) (hEven : bs.length % 2 = 0)
    (h : inBoundaries bs n = true) : n ∈ boundaryPoints bs := by
  fun_induction boundaryPoints bs with
  | case1 first next rest ih =>
    simp only [List.length_cons] at hEven
    rw [List.mem_append, List.mem_range'_1]
    by_cases hFirst : n < first
    · simp [inBoundaries, hFirst] at h
    by_cases hNext : n < next
    · exact .inl (by omega)
    · refine .inr (ih (by omega) ?_)
      simpa [inBoundaries, hFirst, hNext] using h
  | case2 bs hShort =>
    match bs with
    | [] => cases h
    | [_] => simp at hEven
    | first :: next :: rest => exact absurd rfl (hShort first next rest)

def CaseRun.points (r : CaseRun) : List Nat :=
  (List.range ((r.last - r.first) / r.stride + 1)).map fun k => r.first + k * r.stride

/-- The code points that folding replaces. -/
def replacedPoints : List Nat :=
  foldCaseRuns.flatMap CaseRun.points ++ foldCaseExpansions.map Prod.fst

/-- A set of numbers as the bits of one number. -/
def bitSet (ns : List Nat) : Nat :=
  ns.foldr (fun n bits => 1 <<< n ||| bits) 0

theorem testBit_bitSet {n : Nat} {ns : List Nat} (h : n ∈ ns) : (bitSet ns).testBit n = true := by
  induction ns with
  | nil => cases h
  | cons m ns ih =>
    have hBits : bitSet (m :: ns) = 1 <<< m ||| bitSet ns := rfl
    rw [hBits, Nat.testBit_or, Bool.or_eq_true]
    rcases List.mem_cons.mp h with rfl | hMem
    · exact .inl (by simp)
    · exact .inr (ih hMem)

/-- The code points that no folded text holds anew: those that are replaced, and the blanks. -/
def unfoldedPoints : Nat :=
  bitSet (replacedPoints ++ boundaryPoints blankBoundaries)

/-- A code point that is folded to itself and is neither a blank nor below the small letters. -/
def isFoldedPoint (n : Nat) : Bool :=
  Nat.ble 97 n && !unfoldedPoints.testBit n &&
    (Nat.ble n 0xD7FF || (Nat.ble 0xE000 n && Nat.ble n 0x10FFFF))

theorem isFoldedPoint_of_mem_points :
    ∀ r ∈ foldCaseRuns, ∀ n ∈ r.points, isFoldedPoint (n + r.offset).toNat = true := by
  have hAll : (foldCaseRuns.all fun r => r.points.all fun n =>
      isFoldedPoint (n + r.offset).toNat) = true := by
    decide +kernel
  intro r hr n hn
  exact List.all_eq_true.mp (List.all_eq_true.mp hAll r hr) n hn

theorem isFoldedPoint_of_mem_expansions :
    ∀ e ∈ foldCaseExpansions, e.2 ≠ [] ∧ ∀ n ∈ e.2, isFoldedPoint n = true := by
  have hAll : (foldCaseExpansions.all fun e => !e.2.isEmpty && e.2.all isFoldedPoint) = true := by
    decide +kernel
  intro e he
  have hEntry := List.all_eq_true.mp hAll e he
  rw [Bool.and_eq_true] at hEntry
  exact ⟨by simpa using hEntry.1, List.all_eq_true.mp hEntry.2⟩

theorem caseImage?_eq_some {runs : List CaseRun} {c image : Nat} (h : caseImage? runs c = some image) :
    ∃ r ∈ runs, c ∈ r.points ∧ image = (c + r.offset).toNat := by
  induction runs with
  | nil => cases h
  | cons r runs ih =>
    rw [caseImage?] at h
    split at h
    · cases h
    · rename_i hFirst
      split at h
      · rename_i hLast
        simp only [Bool.and_eq_true, decide_eq_true_eq, beq_iff_eq] at hLast
        refine ⟨r, List.mem_cons_self, ?_, (Option.some.inj h).symm⟩
        have hDiv := Nat.div_mul_cancel (Nat.dvd_of_mod_eq_zero hLast.2)
        exact List.mem_map.mpr ⟨(c - r.first) / r.stride,
          List.mem_range.mpr (Nat.lt_succ_of_le (Nat.div_le_div_right (by omega))), by omega⟩
      · obtain ⟨r', hMem, hImage⟩ := ih h
        exact ⟨r', List.mem_cons_of_mem _ hMem, hImage⟩

theorem foldChar_eq_self_of_notMem {c : Char} (h : c.toNat ∉ replacedPoints) : foldChar c = [c] := by
  have hRuns : caseImage? foldCaseRuns c.toNat = none := by
    cases hImage : caseImage? foldCaseRuns c.toNat with
    | none => rfl
    | some image =>
      obtain ⟨r, hr, hc, -⟩ := caseImage?_eq_some hImage
      exact absurd (List.mem_append_left _ (List.mem_flatMap.mpr ⟨r, hr, hc⟩)) h
  have hExpansions : foldCaseExpansions.lookup c.toNat = none := by
    cases hLookup : foldCaseExpansions.lookup c.toNat with
    | none => rfl
    | some images =>
      obtain ⟨xs, ys, hSplit, -⟩ := List.lookup_eq_some_iff.mp hLookup
      have hMem : (c.toNat, images) ∈ foldCaseExpansions := by simp [hSplit]
      exact absurd (List.mem_append_right _ (List.mem_map.mpr ⟨_, hMem, rfl⟩)) h
  rw [foldChar, caseImages, hRuns, hExpansions]
  rfl

/-- A character that folding yields or leaves alone for good. -/
structure Folded (c : Char) : Prop where
  fixed : foldChar c = [c]
  ge : 97 ≤ c.toNat
  notBlank : isBlank c = false

theorem folded_ofNat {n : Nat} (h : isFoldedPoint n = true) : Folded (Char.ofNat n) := by
  simp only [isFoldedPoint, Bool.and_eq_true, Bool.or_eq_true, Bool.not_eq_true', Nat.ble_eq] at h
  obtain ⟨⟨hGe, hBits⟩, hScalar⟩ := h
  have hValid : n.isValidChar := by
    unfold Nat.isValidChar
    omega
  have hNat : (Char.ofNat n).toNat = n := by
    rw [Char.ofNat, dif_pos hValid]
    rfl
  have hNotMem : n ∉ replacedPoints ++ boundaryPoints blankBoundaries := by
    intro hMem
    have hBit : unfoldedPoints.testBit n = true := testBit_bitSet hMem
    rw [hBits] at hBit
    cases hBit
  rw [List.mem_append, not_or] at hNotMem
  refine ⟨foldChar_eq_self_of_notMem (by rw [hNat]; exact hNotMem.1), by rw [hNat]; exact hGe, ?_⟩
  rw [isBlank, hNat]
  cases hBlank : inBoundaries blankBoundaries n with
  | false => rfl
  | true => exact absurd (mem_boundaryPoints blankBoundaries rfl hBlank) hNotMem.2

/-- A character is its own only image, or all of its images are folded. -/
theorem foldChar_cases (c : Char) :
    foldChar c = [c] ∨ foldChar c ≠ [] ∧ ∀ d ∈ foldChar c, Folded d := by
  cases hRuns : caseImage? foldCaseRuns c.toNat with
  | some image =>
    right
    have hImages : foldChar c = [Char.ofNat image] := by rw [foldChar, caseImages, hRuns]
    rw [hImages]
    refine ⟨List.cons_ne_nil _ _, ?_⟩
    intro d hd
    obtain ⟨r, hr, hc, rfl⟩ := caseImage?_eq_some hRuns
    rw [List.mem_singleton.mp hd]
    exact folded_ofNat (isFoldedPoint_of_mem_points r hr c.toNat hc)
  | none =>
    have hImages : foldChar c =
        ((foldCaseExpansions.lookup c.toNat).map (·.map Char.ofNat)).getD [c] := by
      rw [foldChar, caseImages, hRuns]
    cases hLookup : foldCaseExpansions.lookup c.toNat with
    | none => exact .inl (by rw [hImages, hLookup]; rfl)
    | some images =>
      right
      obtain ⟨xs, ys, hSplit, -⟩ := List.lookup_eq_some_iff.mp hLookup
      have hMem : (c.toNat, images) ∈ foldCaseExpansions := by simp [hSplit]
      obtain ⟨hNonempty, hFolded⟩ := isFoldedPoint_of_mem_expansions _ hMem
      rw [hImages, hLookup]
      refine ⟨by simpa using hNonempty, ?_⟩
      intro d hd
      obtain ⟨n, hn, rfl⟩ := List.mem_map.mp hd
      exact folded_ofNat (hFolded n hn)

theorem foldChar_ne_nil (c : Char) : foldChar c ≠ [] := by
  rcases foldChar_cases c with h | h
  · simp [h]
  · exact h.1

theorem foldChar_of_mem {c d : Char} (h : d ∈ foldChar c) : foldChar d = [d] := by
  rcases foldChar_cases c with hSelf | ⟨-, hFolded⟩
  · rw [hSelf] at h
    rwa [List.mem_singleton.mp h]
  · exact (hFolded d h).fixed

theorem flatMap_foldChar_foldChar (cs : List Char) :
    (cs.flatMap foldChar).flatMap foldChar = cs.flatMap foldChar := by
  have hFixed : ∀ d ∈ cs.flatMap foldChar, foldChar d = [d] := by
    intro d hd
    obtain ⟨c, -, hd⟩ := List.mem_flatMap.mp hd
    exact foldChar_of_mem hd
  generalize cs.flatMap foldChar = ds at hFixed
  induction ds with
  | nil => rfl
  | cons d ds ih =>
    rw [List.flatMap_cons, hFixed d List.mem_cons_self, ih fun e he => hFixed e (List.mem_cons_of_mem _ he)]
    rfl

/-- Folding a text again changes nothing. -/
theorem foldCase_foldCase (s : String) : foldCase (foldCase s) = foldCase s := by
  apply String.toList_inj.mp
  rw [toList_foldCase (foldCase s), toList_foldCase s, flatMap_foldChar_foldChar]

theorem foldCase_ne_empty {s : String} (h : s ≠ "") : foldCase s ≠ "" := by
  intro hEmpty
  have hNil : s.toList.flatMap foldChar = [] := by rw [← toList_foldCase, hEmpty]; rfl
  cases hList : s.toList with
  | nil => exact h (String.toList_inj.mp hList)
  | cons c cs =>
    rw [hList, List.flatMap_cons, List.append_eq_nil_iff] at hNil
    exact foldChar_ne_nil c hNil.1

/-- A folded text holds a blank, or a character below the small letters, only if it did before. -/
theorem mem_of_mem_foldCase {s : String} {d : Char} (h : d ∈ (foldCase s).toList)
    (hLow : isBlank d = true ∨ d.toNat < 97) : d ∈ s.toList := by
  rw [toList_foldCase] at h
  obtain ⟨c, hc, hd⟩ := List.mem_flatMap.mp h
  rcases foldChar_cases c with hSelf | ⟨-, hFolded⟩
  · rw [hSelf] at hd
    rwa [List.mem_singleton.mp hd]
  · have hd := hFolded d hd
    rcases hLow with hBlank | hLt
    · rw [hd.notBlank] at hBlank
      cases hBlank
    · have hGe := hd.ge
      omega

end PageRender.Text
