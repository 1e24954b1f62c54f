import Mathlib.Data.List.Basic
import PageRender.Proofs.Sheet.Rows

/-! # Blocks as pieces between semicolons

Where no comment begins, a block is what stands before its first closing brace, cut at the semicolons. Each piece
that is a name and a value declares the value for the name, and what is wrong with another piece does not reach
over the semicolons around it.
-/

namespace PageRender.Sheet

/-- The name and the value of a text that is a name, a colon and a value, with blanks around them. -/
def pair? (piece : List Char) : Option (String × String) :=
  let text := Text.trimStart piece
  let name := text.takeWhile isWordChar
  match Text.trimStart (text.dropWhile isWordChar) with
  | ':' :: after =>
    let value := Text.trim after
    if name.isEmpty || value.isEmpty then none
    else some (Text.foldCase (String.ofList name), String.ofList value)
  | _ => none

/-- The pieces between semicolons of what stands before the first closing brace. -/
def pieces (cs : List Char) : List (List Char) :=
  (cs.takeWhile (· != '\x7d')).splitOn ';'

/-! ## Texts without comments -/

theorem plain_of_suffix {cs ds : List Char} (h : ¬ ['/', '*'] <:+: cs) (hSuffix : ds <:+ cs) :
    ¬ ['/', '*'] <:+: ds :=
  fun hComment => h (hComment.trans hSuffix.isInfix)

theorem skipBlank_of_plain {cs : List Char} (h : ¬ ['/', '*'] <:+: cs) : skipBlank cs = Text.trimStart cs := by
  fun_induction skipBlank cs with
  | case1 => rfl
  | case2 c cs hBlank ih =>
    rw [ih (plain_of_suffix h (List.suffix_cons c cs)), Text.trimStart, Text.trimStart,
      List.dropWhile_cons_of_pos hBlank]
  | case3 c cs hBlank hComment =>
    obtain ⟨ds, rfl, rfl⟩ := exists_of_beginsComment hComment
    exact absurd (List.prefix_append ['/', '*'] ds).isInfix h
  | case4 c cs hBlank => rw [Text.trimStart, List.dropWhile_cons_of_neg hBlank]

theorem trimStart_trimStart (cs : List Char) : Text.trimStart (Text.trimStart cs) = Text.trimStart cs :=
  (takeWhile_of_head? (head?_dropWhile cs)).2

theorem dropWhile_append_of_head? {p : Char → Bool} {tail : List Char} (h : ∀ c ∈ tail.head?, p c = false)
    (cs : List Char) : (cs ++ tail).dropWhile p = cs.dropWhile p ++ tail := by
  rw [List.dropWhile_append, (takeWhile_of_head? h).2]
  split
  · rename_i hEmpty
    rw [List.isEmpty_iff.mp hEmpty, List.nil_append]
  · rfl

theorem takeWhile_append_of_head? {p : Char → Bool} {tail : List Char} (h : ∀ c ∈ tail.head?, p c = false)
    (cs : List Char) : (cs ++ tail).takeWhile p = cs.takeWhile p := by
  rw [List.takeWhile_append, (takeWhile_of_head? h).1]
  split
  · rename_i hLength
    rw [List.append_nil, (List.takeWhile_prefix p).eq_of_length hLength]
  · rfl

theorem eq_of_endsValue {c : Char} (h : endsValue c = true) : c = ';' ∨ c = '\x7d' := by
  simpa [endsValue] using h

/-! ## One piece -/

/-- A piece up to the semicolon or the brace that ends it, or to the end of the text. -/
structure Cut (piece tail : List Char) : Prop where
  plain : ¬ ['/', '*'] <:+: piece ++ tail
  inside : ∀ c ∈ piece, endsValue c = false
  stop : ∀ c ∈ tail.head?, endsValue c = true

theorem word_eq_error {cs : List Char} (h : cs.takeWhile isWordChar = []) :
    ∃ f, word cs = .error f ∧ f.rest = cs := by
  cases cs with
  | nil => exact ⟨_, rfl, rfl⟩
  | cons c cs =>
    have hFirst : ¬ isWordChar c = true := by
      intro hWord
      rw [List.takeWhile_cons_of_pos hWord] at h
      cases h
    rw [word, if_neg hFirst]
    exact ⟨_, rfl, rfl⟩

theorem expect_eq_error {mark : Char} {cs : List Char} (h : ∀ rest, cs ≠ mark :: rest) :
    ∃ f, expect mark cs = .error f ∧ f.rest = cs := by
  cases cs with
  | nil => exact ⟨_, rfl, rfl⟩
  | cons c cs =>
    have hMark : ¬(c == mark) = true := by
      rw [beq_iff_eq]
      rintro rfl
      exact h cs rfl
    rw [expect, if_neg hMark]
    exact ⟨_, rfl, rfl⟩

theorem pair?_of_colon {piece after : List Char}
    (h : Text.trimStart ((Text.trimStart piece).dropWhile isWordChar) = ':' :: after) : pair? piece =
      if ((Text.trimStart piece).takeWhile isWordChar).isEmpty || (Text.trim after).isEmpty then none
      else some (Text.foldCase (String.ofList ((Text.trimStart piece).takeWhile isWordChar)),
        String.ofList (Text.trim after)) := by
  unfold pair?
  dsimp only
  rw [h]
  rfl

theorem pair?_of_no_colon {piece : List Char}
    (h : ∀ after, Text.trimStart ((Text.trimStart piece).dropWhile isWordChar) ≠ ':' :: after) :
    pair? piece = none := by
  unfold pair?
  dsimp only
  split
  · rename_i after hColon
    exact absurd hColon (h after)
  · rfl

theorem pair?_of_no_name {piece : List Char} (h : (Text.trimStart piece).takeWhile isWordChar = []) :
    pair? piece = none := by
  by_cases hColon : ∃ after, Text.trimStart ((Text.trimStart piece).dropWhile isWordChar) = ':' :: after
  · obtain ⟨after, hAfter⟩ := hColon
    rw [pair?_of_colon hAfter, h]
    rfl
  · exact pair?_of_no_colon (not_exists.mp hColon)

namespace Cut

variable {piece tail : List Char}

theorem of_suffix (h : Cut piece tail) {part : List Char} (hSuffix : part <:+ piece) : Cut part tail where
  plain := by
    obtain ⟨before, rfl⟩ := hSuffix
    refine plain_of_suffix h.plain ⟨before, ?_⟩
    rw [List.append_assoc]
  inside c hc := h.inside c (hSuffix.subset hc)
  stop := h.stop

theorem stop_of {p : Char → Bool} (h : Cut piece tail) (hp : p ';' = false ∧ p '\x7d' = false) :
    ∀ c ∈ tail.head?, p c = false := by
  intro c hc
  rcases eq_of_endsValue (h.stop c hc) with rfl | rfl
  · exact hp.1
  · exact hp.2

theorem skipBlank_append (h : Cut piece tail) : skipBlank (piece ++ tail) = Text.trimStart piece ++ tail := by
  rw [skipBlank_of_plain h.plain, Text.trimStart, dropWhile_append_of_head? (h.stop_of (by decide))]
  rfl

theorem trimStart (h : Cut piece tail) : Cut (Text.trimStart piece) tail :=
  h.of_suffix (List.dropWhile_suffix _)

theorem split (h : Cut piece tail) :
    (piece ++ tail).takeWhile (!endsValue ·) = piece ∧ (piece ++ tail).dropWhile (!endsValue ·) = tail := by
  have hInside : ∀ c ∈ piece, (!endsValue c) = true := fun c hc => by rw [h.inside c hc]; rfl
  obtain ⟨hTake, hDrop⟩ := takeWhile_of_head? (p := (!endsValue ·)) (h.stop_of (by decide))
  rw [List.takeWhile_append_of_pos hInside, List.dropWhile_append_of_pos hInside, hTake, hDrop, List.append_nil]
  exact ⟨rfl, rfl⟩

theorem word_eq (h : Cut piece tail) (hName : piece.takeWhile isWordChar ≠ []) :
    word (piece ++ tail) = .ok (Text.foldCase (String.ofList (piece.takeWhile isWordChar)),
      piece.dropWhile isWordChar ++ tail) := by
  have hEdge : ∀ c ∈ tail.head?, isWordChar c = false := h.stop_of (by decide)
  refine word_eq_ok_iff.mpr ⟨_, ⟨?_, ?_, ?_, ?_⟩, rfl⟩
  · rw [String.toList_ofList, ← List.append_assoc, List.takeWhile_append_dropWhile]
  · rwa [String.toList_ofList]
  · rw [String.toList_ofList]
    exact fun c hc => List.mem_takeWhile_imp hc
  · rw [← dropWhile_append_of_head? hEdge]
    exact head?_dropWhile _

theorem value_eq (h : Cut piece tail) : value (Text.trimStart piece ++ tail) =
    if (Text.trim piece).isEmpty then .error ⟨(Text.trimStart piece ++ tail).length, .emptyValue, tail⟩
    else .ok (String.ofList (Text.trim piece), tail) := by
  obtain ⟨hTake, hDrop⟩ := h.trimStart.split
  have hTrim : Text.trim (Text.trimStart piece) = Text.trim piece := by rw [Text.trim, trimStart_trimStart]; rfl
  rw [value, hTake, hDrop, hTrim]

theorem ne_mark {mark : Char} (h : Cut piece tail) (hMark : endsValue mark = false)
    (hFirst : ∀ rest, piece ≠ mark :: rest) : ∀ rest, piece ++ tail ≠ mark :: rest := by
  intro rest hSame
  cases piece with
  | nil =>
    have hStop := h.stop mark (by rw [← List.nil_append tail, hSame]; rfl)
    rw [hMark] at hStop
    cases hStop
  | cons c cs => exact hFirst cs (by rw [(List.cons.inj hSame).1])

/-- A declaration is read from a piece as it is from the piece alone, and what is wrong with it is stepped over to
the end of the piece. -/
theorem declaration_eq (h : Cut piece tail) :
    (∃ p, pair? piece = some p ∧ declaration (Text.trimStart piece ++ tail) = .ok (p, tail)) ∨
      pair? piece = none ∧ ∃ f, declaration (Text.trimStart piece ++ tail) = .error f ∧
        f.rest.dropWhile (!endsValue ·) = tail := by
  rw [Sheet.declaration_eq]
  by_cases hName : (Text.trimStart piece).takeWhile isWordChar = []
  · obtain ⟨f, hRead, hRest⟩ := @word_eq_error (Text.trimStart piece ++ tail)
      (by rw [takeWhile_append_of_head? (h.stop_of (by decide)), hName])
    rw [hRead]
    exact .inr ⟨pair?_of_no_name hName, f, rfl, hRest ▸ h.trimStart.split.2⟩
  · have hBehind := h.trimStart.of_suffix (List.dropWhile_suffix isWordChar)
    rw [h.trimStart.word_eq hName, andThen, hBehind.skipBlank_append]
    by_cases hColon : ∃ after, Text.trimStart ((Text.trimStart piece).dropWhile isWordChar) = ':' :: after
    · obtain ⟨after, hAfter⟩ := hColon
      have hValue : Cut after tail := hBehind.trimStart.of_suffix (hAfter ▸ List.suffix_cons ':' after)
      rw [pair?_of_colon hAfter, hAfter, List.cons_append, expect, if_pos (beq_self_eq_true ':'), andThen,
        hValue.skipBlank_append, hValue.value_eq]
      by_cases hEmpty : (Text.trim after).isEmpty = true
      · rw [if_pos hEmpty, if_pos (by rw [hEmpty, Bool.or_true])]
        exact .inr ⟨rfl, _, rfl, (takeWhile_of_head? (hValue.stop_of (by decide))).2⟩
      · rw [if_neg hEmpty, if_neg (by simp [hName, hEmpty])]
        exact .inl ⟨_, rfl, rfl⟩
    · obtain ⟨f, hRead, hRest⟩ := expect_eq_error
        (hBehind.trimStart.ne_mark (by decide) (not_exists.mp hColon))
      rw [hRead]
      exact .inr ⟨pair?_of_no_colon (not_exists.mp hColon), f, rfl, hRest ▸ hBehind.trimStart.split.2⟩

theorem notMem {c : Char} (h : Cut piece tail) (hEnds : endsValue c = true) : c ∉ piece := by
  intro hc
  rw [h.inside c hc] at hEnds
  cases hEnds

theorem unequal {c : Char} (h : Cut piece tail) (hEnds : endsValue c = true) : ∀ d ∈ piece, (d != c) = true := by
  intro d hd
  rw [bne_iff_ne]
  rintro rfl
  exact h.notMem hEnds hd

theorem pieces_last (h : Cut piece tail) (hEnd : ∀ c ∈ tail.head?, c = '\x7d') :
    pieces (piece ++ tail) = [piece] ∧ (piece ++ tail).dropWhile (· != '\x7d') = tail := by
  have hBrace : ∀ c ∈ tail.head?, (c != '\x7d') = false := fun c hc => by rw [hEnd c hc]; rfl
  have hInside := h.unequal (c := '\x7d') (by decide)
  obtain ⟨hTake, hDrop⟩ := takeWhile_of_head? hBrace
  constructor
  · rw [pieces, List.takeWhile_append_of_pos hInside, hTake, List.append_nil,
      List.splitOn_eq_singleton (h.notMem (by decide))]
  · rw [List.dropWhile_append_of_pos hInside, hDrop]

theorem pieces_more {next : List Char} (h : Cut piece (';' :: next)) :
    pieces (piece ++ ';' :: next) = piece :: pieces next ∧
      (piece ++ ';' :: next).dropWhile (· != '\x7d') = next.dropWhile (· != '\x7d') := by
  have hInside := h.unequal (c := '\x7d') (by decide)
  constructor
  · rw [pieces, List.takeWhile_append_of_pos hInside, List.takeWhile_cons_of_pos (by decide),
      List.splitOn_append_cons_self, List.splitOn_eq_singleton (h.notMem (by decide))]
    rfl
  · rw [List.dropWhile_append_of_pos hInside, List.dropWhile_cons_of_pos (by decide)]

end Cut

theorem exists_cut {cs : List Char} (h : ¬ ['/', '*'] <:+: cs) :
    ∃ piece tail, cs = piece ++ tail ∧ Cut piece tail := by
  refine ⟨cs.takeWhile (!endsValue ·), cs.dropWhile (!endsValue ·), List.takeWhile_append_dropWhile.symm,
    ?_, ?_, ?_⟩
  · rwa [List.takeWhile_append_dropWhile]
  · intro c hc
    simpa using List.mem_takeWhile_imp hc
  · intro c hc
    simpa using head?_dropWhile cs c hc

/-- A text without comments is a piece, and behind a semicolon perhaps more of them. -/
theorem cutInduction {motive : (cs : List Char) → ¬ ['/', '*'] <:+: cs → Prop}
    (last : ∀ piece tail (hCut : Cut piece tail), (∀ c ∈ tail.head?, c = '\x7d') →
      motive (piece ++ tail) hCut.plain)
    (more : ∀ piece next (hCut : Cut piece (';' :: next)) (hNext : ¬ ['/', '*'] <:+: next),
      motive next hNext → motive (piece ++ ';' :: next) hCut.plain)
    (cs : List Char) (h : ¬ ['/', '*'] <:+: cs) : motive cs h := by
  induction hLength : cs.length using Nat.strongRecOn generalizing cs with
  | ind n ih =>
    subst hLength
    obtain ⟨piece, tail, rfl, hCut⟩ := exists_cut h
    cases tail with
    | nil => exact last piece [] hCut (by simp)
    | cons c next =>
      rcases eq_of_endsValue (hCut.stop c rfl) with rfl | rfl
      · have hPlain : ¬ ['/', '*'] <:+: next := plain_of_suffix h ⟨piece ++ [';'], by simp⟩
        exact more piece next hCut hPlain (ih _ (by simp; omega) next hPlain rfl)
      · exact last piece _ hCut (by simp)

/-! ## The pieces of a block -/

theorem declared_nil (d : Declarations) : declared d [] = .ok (d, []) := by
  rw [declared, declarations_nil]

theorem declared_brace (d : Declarations) (cs : List Char) :
    declared d ('\x7d' :: cs) = .ok (d, '\x7d' :: cs) := by
  rw [declared, declarations_brace]

theorem recovered_of_end (d : Declarations) {tail : List Char} (hEnd : ∀ c ∈ tail.head?, c = '\x7d') :
    recovered d tail = .ok (d, tail) :=
  behindMark_of_ne fun next hSame => absurd (hEnd ';' (by rw [hSame]; rfl)) (by decide)

/-- Where a declaration ends, the block goes on in one way, whether the declaration was read or stepped over. -/
theorem resumed_of_stop (d : Declarations) (p : String × String) {tail : List Char}
    (hStop : ∀ c ∈ tail.head?, endsValue c = true) : resumed d p tail = recovered (d.insert p.1 p.2) tail := by
  cases tail with
  | nil =>
    rw [resumed, skipBlank_nil]
    exact declared_nil _
  | cons c next =>
    rcases eq_of_endsValue (hStop c rfl) with rfl | rfl
    · rw [resumed, skipBlank_mark (by decide), pastMark, recovered, behindMark_self]
    · rw [resumed, skipBlank_mark (by decide), pastMark, declared_brace, recovered_of_end _ (by simp)]
      simp

/-- The declarations with what a piece declares. -/
def withPiece (d : Declarations) (piece : List Char) : Declarations :=
  (pair? piece).elim d fun p => d.insert p.1 p.2

theorem declared_piece (d : Declarations) {piece tail : List Char} (h : Cut piece tail) :
    declared d (skipBlank (piece ++ tail)) = recovered (withPiece d piece) tail := by
  have hBlank : Text.trimStart piece = [] → withPiece d piece = d := by
    intro hNil
    rw [withPiece, pair?_of_no_name (by rw [hNil]; rfl), Option.elim_none]
  rw [h.skipBlank_append]
  cases hText : Text.trimStart piece ++ tail with
  | nil =>
    obtain ⟨hNil, rfl⟩ := List.append_eq_nil_iff.mp hText
    rw [hBlank hNil, declared_nil]
    rfl
  | cons c cs =>
    by_cases hBrace : c = '\x7d'
    · subst hBrace
      have hNil : Text.trimStart piece = [] := by
        cases hPiece : Text.trimStart piece with
        | nil => rfl
        | cons d ds =>
          rw [hPiece, List.cons_append] at hText
          exact absurd (hPiece ▸ (List.cons.inj hText).1 ▸ List.mem_cons_self)
            (h.trimStart.notMem (c := '\x7d') (by decide))
      rw [hNil, List.nil_append] at hText
      rw [hBlank hNil, hText, declared_brace, recovered_of_end _ (by simp)]
    · rw [declared_cons (by simpa using hBrace), ← hText, withPiece]
      obtain ⟨p, hPair, hRead⟩ | ⟨hPair, f, hRead, hRest⟩ := h.declaration_eq
      · rw [hRead, hPair, recovering, Option.elim_some, resumed_of_stop d p h.stop]
      · rw [hRead, hPair, recovering, Option.elim_none, hRest]

theorem declared_pieces (d : Declarations) {cs : List Char} (h : ¬ ['/', '*'] <:+: cs) :
    declared d (skipBlank cs) =
      .ok ((pieces cs).foldl withPiece d, cs.dropWhile (· != '\x7d')) := by
  induction cs, h using cutInduction generalizing d with
  | last piece tail hCut hEnd =>
    obtain ⟨hPieces, hRest⟩ := hCut.pieces_last hEnd
    rw [declared_piece d hCut, hPieces, hRest, recovered_of_end _ hEnd]
    rfl
  | more piece next hCut hNext ih =>
    obtain ⟨hPieces, hRest⟩ := hCut.pieces_more
    rw [declared_piece d hCut, hPieces, hRest, recovered, behindMark_self, ih, List.foldl_cons]

theorem foldl_withPiece (d : Declarations) (ps : List (List Char)) :
    ps.foldl withPiece d = (ps.filterMap pair?).foldl (fun d p => d.insert p.1 p.2) d := by
  induction ps generalizing d with
  | nil => rfl
  | cons piece ps ih =>
    rw [List.foldl_cons, ih, withPiece, List.filterMap_cons]
    cases pair? piece <;> rfl

theorem Cut.alone {piece tail : List Char} (h : Cut piece tail) : Cut piece [] where
  plain hComment := h.plain (hComment.trans (by simpa using (List.prefix_append piece tail).isInfix))
  inside := h.inside
  stop c hc := absurd hc (by simp)

theorem cut_of_mem_pieces {cs : List Char} (h : ¬ ['/', '*'] <:+: cs) : ∀ piece ∈ pieces cs, Cut piece [] := by
  induction cs, h using cutInduction with
  | last piece tail hCut hEnd =>
    rw [(hCut.pieces_last hEnd).1, List.forall_mem_singleton]
    exact hCut.alone
  | more piece next hCut hNext ih =>
    rw [hCut.pieces_more.1, List.forall_mem_cons]
    exact ⟨hCut.alone, ih⟩

/-- What a piece declares is what is read from it alone. -/
theorem Cut.pair?_eq_some_iff {piece : List Char} (h : Cut piece []) (p : String × String) :
    pair? piece = some p ↔ declaration (skipBlank piece) = .ok (p, []) := by
  have hText := h.skipBlank_append
  rw [List.append_nil, List.append_nil] at hText
  rw [hText]
  obtain ⟨q, hPair, hRead⟩ | ⟨hPair, f, hRead, -⟩ := h.declaration_eq
  · rw [List.append_nil] at hRead
    rw [hPair, hRead]
    simp
  · rw [List.append_nil] at hRead
    rw [hPair, hRead]
    simp

/-- In a text without comments a block declares what the pieces before the first closing brace declare that are a
name and a value, one after the other, and ends at that brace or with the text. A piece declares what is read from
it alone. -/
theorem block_pieces {cs : List Char} (h : ¬ ['/', '*'] <:+: cs) :
    (block cs).declarations =
        .ofList (((cs.takeWhile (· != '\x7d')).splitOn ';').filterMap pair?) ∧
      (block cs).rest = cs.dropWhile (· != '\x7d') ∧
      ∀ piece ∈ (cs.takeWhile (· != '\x7d')).splitOn ';', ∀ p,
        pair? piece = some p ↔ declaration (skipBlank piece) = .ok (p, []) := by
  have hRead := declared_pieces .empty h
  rw [foldl_withPiece, declared, Except.ok.injEq, Prod.mk.injEq] at hRead
  exact ⟨hRead.1, hRead.2, fun piece hPiece => (cut_of_mem_pieces h piece hPiece).pair?_eq_some_iff⟩

/-- Broken pieces of every kind between declarations, one of which replaces the value of an earlier one. -/
def brokenBlock : String :=
  "Color: red; 12px; b red: 1; : x; m :; color : a:b \x7b c ;; n:1\x7d p\x7bq:r;"

theorem block_pieces_brokenBlock : ¬ ['/', '*'] <:+: brokenBlock.toList ∧
    (block brokenBlock.toList).declarations.entries = [("color", "a:b \x7b c"), ("n", "1")] ∧
    (block brokenBlock.toList).rest = "\x7d p\x7bq:r;".toList := by
  have hPlain : ¬ ['/', '*'] <:+: brokenBlock.toList := by decide +kernel
  obtain ⟨hDeclarations, hRest, -⟩ := block_pieces hPlain
  refine ⟨hPlain, ?_, ?_⟩
  · rw [hDeclarations]
    decide +kernel
  · rw [hRest]
    decide +kernel

end PageRender.Sheet
