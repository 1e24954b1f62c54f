import PageRender.Proofs.Outcome
import PageRender.Proofs.Script.Writing

/-! # Written programs are read back

Each level of the grammar reads what holds together tightly enough for it, and then goes on with what
comes next. An expression is first read at the level of its own tightness. Whatever is read at some level
is read at all looser ones, and in parentheses at all levels.
-/

namespace PageRender.Script

open Outcome

/-! ## Where expressions stop -/

/-- One more than the tightness of an expression that a token can continue; 0 if it continues none. -/
def Token.reach : Token → Nat
  | .mark .assign => 1
  | .mark .equals | .mark .notEquals => 2
  | .mark .less | .mark .greater => 3
  | .mark .plus | .mark .minus => 4
  | .mark .times | .mark .divide => 5
  | .mark .increment | .mark .decrement => 7
  | .mark .openParen | .mark .openBracket | .mark .dot => 8
  | _ => 0

/-- No expression of some tightness goes on with these tokens. -/
def Stops (k : Nat) (ts : List Token) : Prop :=
  ∀ t ∈ ts.head?, t.reach ≤ k

@[simp] theorem stops_cons {k : Nat} {t : Token} {ts : List Token} : Stops k (t :: ts) ↔ t.reach ≤ k := by
  simp [Stops]

theorem Stops.mono {j k : Nat} {ts : List Token} (h : Stops j ts) (hLe : j ≤ k) : Stops k ts :=
  fun t ht => Nat.le_trans (h t ht) hLe

theorem Token.reach_le (t : Token) : t.reach ≤ 8 := by
  unfold Token.reach
  split <;> omega

theorem stops_all (ts : List Token) : Stops 8 ts :=
  fun t _ => t.reach_le

theorem reach_of_binaryOp? {level : Nat} {t : Token} {op : BinaryOp} (h : binaryOp? level t = some op) :
    t.reach = level + 2 := by
  unfold binaryOp? at h
  split at h <;> first | (split at h <;> simp_all [Token.reach]) | cases h

theorem reach_of_updateOp? {t : Token} {op : UpdateOp} (h : updateOp? t = some op) : t.reach = 7 := by
  unfold updateOp? at h
  split at h <;> first | rfl | cases h

theorem BinaryOp.level_lt (op : BinaryOp) : op.level < 4 := by
  cases op <;> decide

@[simp] theorem binaryOp?_mark (op : BinaryOp) : binaryOp? op.level (.mark op.mark) = some op := by
  cases op <;> rfl

@[simp] theorem updateOp?_mark (op : UpdateOp) : updateOp? (.mark op.mark) = some op := by
  cases op <;> rfl

@[simp] theorem unaryOp?_mark (op : UnaryOp) : unaryOp? (.mark op.mark) = some op := by
  cases op <;> rfl

@[simp] theorem unaryOp?_updateMark (op : UpdateOp) : unaryOp? (.mark op.mark) = none := by
  cases op <;> rfl

theorem reach_binaryMark (op : BinaryOp) : Token.reach (.mark op.mark) = op.level + 2 :=
  reach_of_binaryOp? (binaryOp?_mark op)

theorem reach_updateMark (op : UpdateOp) : Token.reach (.mark op.mark) = 7 :=
  reach_of_updateOp? (updateOp?_mark op)

@[simp] theorem memberName?_wordToken (name : String) : memberName? (wordToken name) = some name := by
  unfold wordToken
  split
  · next w hFound =>
    have hText := List.find?_some (p := fun v : Keyword => v.text == name) hFound
    exact congrArg some (beq_iff_eq.mp hText)
  · rfl

theorem toTarget?_toExpr (t : Target) : t.toExpr.toTarget? = some t := by
  cases t <;> rfl

/-! ## How expressions begin -/

/-- The beginnings of expressions of some tightness. -/
inductive Opens : Nat → List Token → Prop where
  | name {k : Nat} (n : String) (ts : List Token) : Opens k (.identifier n :: ts)
  | literal {k : Nat} (l : Literal) (ts : List Token) : Opens k (l.token :: ts)
  | function {k : Nat} (ts : List Token) : Opens k (.keyword .function :: .mark .openParen :: ts)
  | paren {k : Nat} (ts : List Token) : Opens k (.mark .openParen :: ts)
  | unary {k : Nat} (hLe : k ≤ 5) (op : UnaryOp) (ts : List Token) : Opens k (.mark op.mark :: ts)
  | update {k : Nat} (hLe : k ≤ 5) (op : UpdateOp) (ts : List Token) : Opens k (.mark op.mark :: ts)

namespace Opens

variable {j k : Nat} {ts : List Token}

theorem append (h : Opens k ts) (us : List Token) : Opens k (ts ++ us) := by
  cases h with
  | name n ts => exact .name n (ts ++ us)
  | literal l ts => exact .literal l (ts ++ us)
  | function ts => exact .function (ts ++ us)
  | paren ts => exact .paren (ts ++ us)
  | unary hLe op ts => exact .unary hLe op (ts ++ us)
  | update hLe op ts => exact .update hLe op (ts ++ us)

theorem length_pos (h : Opens k ts) : 0 < ts.length := by
  cases h <;> exact Nat.succ_pos _

theorem startsWith_eq_false {m : Mark} (h : Opens k ts)
    (hMark : m = .semicolon ∨ m = .closeParen ∨ m = .closeBrace) : startsWith m ts = false := by
  cases h with
  | name | function => rfl
  | literal l ts =>
    cases l with
    | boolean b => cases b <;> rfl
    | number | string | null | undefined => rfl
  | paren => rcases hMark with rfl | rfl | rfl <;> rfl
  | unary hLe op => rcases hMark with rfl | rfl | rfl <;> cases op <;> rfl
  | update hLe op => rcases hMark with rfl | rfl | rfl <;> cases op <;> rfl

theorem mono (h : Opens k ts) (hLe : j ≤ k) : Opens j ts := by
  cases h with
  | name n ts => exact .name n ts
  | literal l ts => exact .literal l ts
  | function ts => exact .function ts
  | paren ts => exact .paren ts
  | unary hLe' op ts => exact .unary (Nat.le_trans hLe hLe') op ts
  | update hLe' op ts => exact .update (Nat.le_trans hLe hLe') op ts

end Opens

/-! ## Reading at a level -/

/-- Reads what stands for itself and the calls and members after it. -/
def accessed (n : Nat) (ts : List Token) : Except ParseError (Expr × List Token) := do
  let (e, rest) ← primary n ts
  accesses n e rest

/-- Reads an expression of some tightness. -/
def readAt (k n : Nat) (ts : List Token) : Except ParseError (Expr × List Token) :=
  match k with
  | 0 => expression n ts
  | 6 => withSuffix n ts
  | 7 => accessed n ts
  | 8 => primary n ts
  | level + 1 => operation n level ts

/-- Goes on after an expression of some tightness where that can be repeated. -/
def goOnAt (k n : Nat) (e : Expr) (ts : List Token) : Except ParseError (Expr × List Token) :=
  match k with
  | 0 | 5 | 6 | 8 => .ok (e, ts)
  | 7 => accesses n e ts
  | level + 1 => operations n level e ts

/-- The reach of the tokens that may follow an expression of some tightness before going on. -/
def lasting : Nat → Nat
  | 0 => 0
  | 5 => 5
  | 6 => 6
  | k => k + 1

/-- Tokens are read as an expression of some tightness. -/
structure ReadsAt (k : Nat) (ts : List Token) (e : Expr) : Prop where
  opens : Opens k ts
  -- A level takes at most two steps to get to the next one, so sixteen are enough for each token.
  goesOn : ∀ n rest, Stops (lasting k) rest → 16 * ts.length + (16 - 2 * k) ≤ n →
    ∃ m, n ≤ m + 16 * ts.length ∧ readAt k n (ts ++ rest) = goOnAt k m e rest

theorem operations_stops {n level : Nat} {e : Expr} {ts : List Token} (h : Stops (level + 1) ts) :
    operations (n + 1) level e ts = .ok (e, ts) := by
  cases ts with
  | nil => rw [operations]
  | cons t ts =>
    have hNone : binaryOp? level t = none := by
      cases hOp : binaryOp? level t with
      | none => rfl
      | some op =>
        have hReach := reach_of_binaryOp? hOp
        have hLe := stops_cons.mp h
        omega
    rw [operations.eq_def]
    simp only [hNone]

@[simp] theorem takeMark_self (m : Mark) (ts : List Token) : takeMark m (.mark m :: ts) = .ok ((), ts) := by
  simp [takeMark]

theorem accesses_stops {n : Nat} {e : Expr} {ts : List Token} (h : Stops 7 ts) :
    accesses (n + 1) e ts = .ok (e, ts) := by
  unfold accesses
  split
  all_goals first | rfl | simp [Token.reach] at h

theorem lasting_le (k : Nat) : lasting k ≤ k + 1 := by
  unfold lasting
  split <;> omega

theorem le_lasting (k : Nat) : k ≤ lasting k := by
  unfold lasting
  split <;> omega

theorem goOnAt_stops {k n : Nat} {e : Expr} {ts : List Token} (h : Stops k ts) :
    goOnAt k (n + 1) e ts = .ok (e, ts) := by
  unfold goOnAt
  split
  · rfl
  · rfl
  · rfl
  · rfl
  · exact accesses_stops h
  · exact operations_stops h

theorem readAt_operation {level : Nat} (h : level < 5) (n : Nat) (ts : List Token) :
    readAt (level + 1) n ts = operation n level ts := by
  match level with
  | 0 | 1 | 2 | 3 | 4 => rfl

theorem goOnAt_operations {level : Nat} (h : level < 4) (n : Nat) (e : Expr) (ts : List Token) :
    goOnAt (level + 1) n e ts = operations n level e ts := by
  match level with
  | 0 | 1 | 2 | 3 => rfl

theorem operation_succ {level : Nat} (h : level < 4) (n : Nat) (ts : List Token) :
    operation (n + 1) level ts = (do
      let (e, rest) ← operation n (level + 1) ts
      operations n level e rest) := by
  rw [operation, if_pos h]

theorem expression_of_operation {n : Nat} {ts rest : List Token} {e : Expr}
    (h : operation n 0 ts = .ok (e, rest)) (hStops : Stops 0 rest) :
    expression (n + 1) ts = .ok (e, rest) := by
  rw [expression, ok_bind h]
  dsimp only
  split
  · simp [Token.reach] at hStops
  · rfl

theorem operation_four (n : Nat) (ts : List Token) : operation (n + 1) 4 ts = unary n ts := by
  rw [operation, if_neg (by omega)]

theorem unary_of_opens {n : Nat} {ts : List Token} (h : Opens 6 ts) :
    unary (n + 1) ts = withSuffix n ts := by
  cases h with
  | name | function | paren => rfl
  | literal l ts =>
    cases l with
    | boolean b => cases b <;> rfl
    | number | string | null | undefined => rfl
  | unary hLe | update hLe => omega

theorem withSuffix_of_accessed {n : Nat} {ts rest : List Token} {e : Expr}
    (h : accessed n ts = .ok (e, rest)) (hStops : Stops 6 rest) :
    withSuffix (n + 1) ts = .ok (e, rest) := by
  obtain ⟨⟨e', rest'⟩, hPrimary, hAccesses⟩ := bind_eq_ok_iff.mp h
  rw [withSuffix, ok_bind hPrimary]
  simp only [ok_bind hAccesses]
  cases rest with
  | nil => rfl
  | cons t rest =>
    have hNone : updateOp? t = none := by
      cases hOp : updateOp? t with
      | none => rfl
      | some op =>
        have hReach := reach_of_updateOp? hOp
        have hLe := stops_cons.mp hStops
        omega
    simp only [hNone]
    rfl

namespace ReadsAt

variable {k n : Nat} {ts rest : List Token} {e : Expr}

/-- A level reads what is written for it and nothing after it. -/
theorem reads (h : ReadsAt k ts e) (hk : k < 8) (hStops : Stops k rest)
    (hSteps : 16 * ts.length + (16 - 2 * k) ≤ n) : readAt k n (ts ++ rest) = .ok (e, rest) := by
  obtain ⟨m, hm, hRead⟩ := h.goesOn n rest (hStops.mono (le_lasting k)) hSteps
  obtain ⟨m, rfl⟩ : ∃ m', m = m' + 1 := ⟨m - 1, by omega⟩
  rw [hRead, goOnAt_stops hStops]

theorem expression (h : ReadsAt 0 ts e) (hStops : Stops 0 rest) (hSteps : 16 * ts.length + 16 ≤ n) :
    expression n (ts ++ rest) = .ok (e, rest) :=
  h.reads (by omega) hStops hSteps

theorem expression_before (h : ReadsAt 0 ts e) {m : Mark} (hMark : Token.reach (.mark m) = 0)
    (rest : List Token) (hSteps : 16 * ts.length + 16 ≤ n) :
    Script.expression n (ts ++ .mark m :: rest) = .ok (e, .mark m :: rest) :=
  h.expression (stops_cons.mpr (by omega)) hSteps

theorem loosen_operation {level : Nat} (h : ReadsAt (level + 2) ts e) (hLevel : level < 4) :
    ReadsAt (level + 1) ts e := by
  refine ⟨h.opens.mono (by omega), fun n rest hStops hSteps => ?_⟩
  have hPos := h.opens.length_pos
  obtain ⟨n, rfl⟩ : ∃ n', n = n' + 1 := ⟨n - 1, by omega⟩
  have hRead := h.reads (by omega) (hStops.mono (lasting_le _)) (by omega : _ ≤ n)
  rw [readAt_operation (by omega)] at hRead
  refine ⟨n, by omega, ?_⟩
  rw [readAt_operation (by omega), goOnAt_operations hLevel, operation_succ hLevel, ok_bind hRead]

/-- What is read at a level is read at the next looser one. -/
theorem loosen_succ (h : ReadsAt (k + 1) ts e) (hk : k < 8) : ReadsAt k ts e := by
  have hPos := h.opens.length_pos
  match k with
  | 0 =>
    refine ⟨h.opens.mono (by omega), fun n rest hStops hSteps => ?_⟩
    obtain ⟨n, rfl⟩ : ∃ n', n = n' + 1 := ⟨n - 1, by omega⟩
    exact ⟨n, by omega, expression_of_operation
      (h.reads (by omega) (hStops.mono (by decide)) (by omega)) hStops⟩
  | 1 | 2 | 3 | 4 => exact h.loosen_operation (by omega)
  | 5 =>
    refine ⟨h.opens.mono (by omega), fun n rest hStops hSteps => ?_⟩
    obtain ⟨n, rfl⟩ : ∃ n', n = n' + 2 := ⟨n - 2, by omega⟩
    refine ⟨n, by omega, ?_⟩
    calc readAt 5 (n + 2) (ts ++ rest)
      _ = unary (n + 1) (ts ++ rest) := by rw [readAt_operation (by omega), operation_four]
      _ = withSuffix n (ts ++ rest) := unary_of_opens (h.opens.append rest)
      _ = .ok (e, rest) := h.reads (by omega) (hStops.mono (by decide)) (by omega)
  | 6 =>
    refine ⟨h.opens.mono (by omega), fun n rest hStops hSteps => ?_⟩
    obtain ⟨n, rfl⟩ : ∃ n', n = n' + 1 := ⟨n - 1, by omega⟩
    exact ⟨n, by omega, withSuffix_of_accessed
      (h.reads (by omega) (hStops.mono (by decide)) (by omega)) hStops⟩
  | 7 =>
    refine ⟨h.opens.mono (by omega), fun n rest hStops hSteps => ⟨n, by omega, ?_⟩⟩
    obtain ⟨m, -, hRead⟩ := h.goesOn n rest ((stops_all rest).mono (by decide)) (by omega)
    exact ok_bind hRead _

theorem loosen {j : Nat} (h : ReadsAt j ts e) (hj : j ≤ 8) (hLe : k ≤ j) : ReadsAt k ts e := by
  induction j with
  | zero => exact Nat.le_zero.mp hLe ▸ h
  | succ j ih =>
    rcases Nat.lt_or_eq_of_le hLe with hLt | rfl
    · exact ih (h.loosen_succ (by omega)) (by omega) (by omega)
    · exact h

/-- Where nothing can be repeated after an expression, it is read as it stands. -/
theorem whole (hEnds : ∀ m rest, goOnAt k m e rest = .ok (e, rest)) (hOpens : Opens k ts)
    (h : ∀ n rest, Stops (lasting k) rest → 16 * ts.length + (16 - 2 * k) ≤ n + 1 →
      readAt k (n + 1) (ts ++ rest) = .ok (e, rest)) : ReadsAt k ts e := by
  refine ⟨hOpens, fun n rest hStops hSteps => ⟨n, by omega, ?_⟩⟩
  have hPos := hOpens.length_pos
  obtain ⟨n, rfl⟩ : ∃ n', n = n' + 1 := ⟨n - 1, by omega⟩
  rw [hEnds]
  exact h n rest hStops hSteps

/-- A call or a member is read as one step of going on after what it is taken of. -/
theorem access {us : List Token} {f : Expr} (h : ReadsAt 7 ts e) (hPos : 0 < us.length)
    (hStep : ∀ m rest, 16 * us.length ≤ m → accesses (m + 1) e (us ++ rest) = accesses m f rest) :
    ReadsAt 7 (ts ++ us) f := by
  refine ⟨h.opens.append us, fun n rest _ hSteps => ?_⟩
  rw [List.length_append] at hSteps ⊢
  obtain ⟨m, hm, hRead⟩ := h.goesOn n (us ++ rest) (stops_all _) (by omega)
  obtain ⟨m, rfl⟩ : ∃ m', m = m' + 1 := ⟨m - 1, by omega⟩
  refine ⟨m, by omega, ?_⟩
  rw [List.append_assoc]
  exact hRead.trans (hStep m rest (by omega))

theorem parenthesized (h : ReadsAt 0 ts e) :
    ReadsAt 8 (.mark .openParen :: (ts ++ [.mark .closeParen])) e := by
  apply ReadsAt.whole (fun _ _ => rfl) (.paren _)
  intro n rest _ hSteps
  simp only [List.length_cons, List.length_append, List.length_nil] at hSteps
  have hRead := h.expression_before (n := n) (m := .closeParen) rfl rest (by omega)
  rw [List.cons_append, List.append_assoc, List.singleton_append, readAt, primary, ok_bind hRead]
  rfl

theorem placed {j : Nat} (h : ReadsAt j ts e) (hj : j ≤ 8) (hk : k ≤ 8) :
    ReadsAt k (inPlace k j ts) e := by
  rw [inPlace]
  split
  · exact (h.loosen hj (Nat.zero_le j)).parenthesized.loosen (Nat.le_refl 8) hk
  · exact h.loosen hj (by omega)

/-! ### Expressions at their own level -/

theorem name (s : String) : ReadsAt 8 [.identifier s] (.name s) := by
  apply ReadsAt.whole (fun _ _ => rfl) (.name s [])
  intro n rest _ _
  rw [List.singleton_append, readAt, primary]

theorem literal (l : Literal) : ReadsAt 8 [l.token] (.literal l) := by
  apply ReadsAt.whole (fun _ _ => rfl) (.literal l [])
  intro n rest _ _
  rw [List.singleton_append, readAt]
  cases l with
  | boolean b => cases b <;> rfl
  | number | string | null | undefined => rfl

theorem member (h : ReadsAt 7 ts e) (s : String) :
    ReadsAt 7 (ts ++ [.mark .dot, wordToken s]) (.member e s) := by
  apply h.access (by simp)
  intro m rest _
  simp [accesses]

theorem index {us : List Token} {key : Expr} (h : ReadsAt 7 ts e) (hKey : ReadsAt 0 us key) :
    ReadsAt 7 (ts ++ .mark .openBracket :: (us ++ [.mark .closeBracket])) (.index e key) := by
  apply h.access (by simp)
  intro m rest hSteps
  simp only [List.length_append, List.length_cons, List.length_nil] at hSteps
  have hKeyRead := hKey.expression_before (n := m) (m := .closeBracket) rfl rest (by omega)
  rw [List.cons_append, List.append_assoc, List.singleton_append, accesses, ok_bind hKeyRead]
  rfl

theorem unary_reads (h : ReadsAt 5 ts e) (hStops : Stops 5 rest) (hSteps : 16 * ts.length + 5 ≤ n) :
    Script.unary n (ts ++ rest) = .ok (e, rest) := by
  rw [← operation_four, ← readAt_operation (by omega)]
  exact h.reads (by omega) hStops (by omega)

theorem unary (h : ReadsAt 5 ts e) (op : UnaryOp) : ReadsAt 5 (.mark op.mark :: ts) (.unary op e) := by
  apply ReadsAt.whole (fun _ _ => rfl) (.unary (by omega) op ts)
  intro n rest hStops hSteps
  rw [List.length_cons] at hSteps
  obtain ⟨n, rfl⟩ : ∃ n', n = n' + 1 := ⟨n - 1, by omega⟩
  have hRead := h.unary_reads (n := n) hStops (by omega)
  show operation (n + 2) 4 _ = .ok _
  rw [operation_four, List.cons_append, Script.unary]
  simp only [unaryOp?_mark, ok_bind hRead]
  rfl

theorem update_before {t : Target} (h : ReadsAt 5 ts t.toExpr) (op : UpdateOp) :
    ReadsAt 5 (.mark op.mark :: ts) (.update op t true) := by
  apply ReadsAt.whole (fun _ _ => rfl) (.update (by omega) op ts)
  intro n rest hStops hSteps
  rw [List.length_cons] at hSteps
  obtain ⟨n, rfl⟩ : ∃ n', n = n' + 1 := ⟨n - 1, by omega⟩
  have hRead := h.unary_reads (n := n) hStops (by omega)
  show operation (n + 2) 4 _ = .ok _
  rw [operation_four, List.cons_append, Script.unary]
  simp only [unaryOp?_updateMark, updateOp?_mark, ok_bind hRead, targetOf, toTarget?_toExpr]
  rfl

theorem update_after {t : Target} (h : ReadsAt 7 ts t.toExpr) (op : UpdateOp) :
    ReadsAt 6 (ts ++ [.mark op.mark]) (.update op t false) := by
  apply ReadsAt.whole (fun _ _ => rfl) ((h.opens.mono (by omega)).append _)
  intro n rest _ hSteps
  simp only [List.length_append, List.length_cons, List.length_nil] at hSteps
  have hReach : Stops 7 (.mark op.mark :: rest) := stops_cons.mpr (reach_updateMark op ▸ Nat.le_refl 7)
  obtain ⟨⟨e', rest'⟩, hPrimary, hAccesses⟩ := bind_eq_ok_iff.mp
    (h.reads (by omega) hReach (by omega) : accessed n (ts ++ .mark op.mark :: rest) = _)
  rw [List.append_assoc, List.singleton_append, readAt, withSuffix, ok_bind hPrimary]
  simp only [ok_bind hAccesses, updateOp?_mark, targetOf, toTarget?_toExpr]
  rfl

theorem binary {us : List Token} {right : Expr} (op : BinaryOp) (h : ReadsAt (op.level + 1) ts e)
    (hRight : ReadsAt (op.level + 2) us right) :
    ReadsAt (op.level + 1) (ts ++ .mark op.mark :: us) (.binary op e right) := by
  have hLevel := op.level_lt
  refine ⟨h.opens.append _, fun n rest hStops hSteps => ?_⟩
  simp only [List.length_append, List.length_cons] at hSteps ⊢
  have hReach : Stops (lasting (op.level + 1)) (.mark op.mark :: (us ++ rest)) := by
    rw [stops_cons, reach_binaryMark]
    cases op <;> decide
  obtain ⟨m, hm, hRead⟩ := h.goesOn n (.mark op.mark :: (us ++ rest)) hReach (by omega)
  obtain ⟨m, rfl⟩ : ∃ m', m = m' + 1 := ⟨m - 1, by omega⟩
  have hRightRead : operation m (op.level + 1) (us ++ rest) = .ok (right, rest) := by
    rw [← readAt_operation (by omega)]
    exact hRight.reads (by omega) (hStops.mono (lasting_le _)) (by omega)
  refine ⟨m, by omega, ?_⟩
  rw [List.append_assoc, List.cons_append, hRead, goOnAt_operations hLevel, goOnAt_operations hLevel,
    operations]
  simp only [binaryOp?_mark, ok_bind hRightRead]

theorem assign {us : List Token} {t : Target} {value : Expr} (h : ReadsAt 1 ts t.toExpr)
    (hValue : ReadsAt 0 us value) : ReadsAt 0 (ts ++ .mark .assign :: us) (.assign t value) := by
  apply ReadsAt.whole (fun _ _ => rfl) ((h.opens.mono (by omega)).append _)
  intro n rest hStops hSteps
  simp only [List.length_append, List.length_cons] at hSteps
  have hRead : operation n 0 (ts ++ .mark .assign :: (us ++ rest)) =
      .ok (t.toExpr, .mark .assign :: (us ++ rest)) :=
    h.reads (by omega) (stops_cons.mpr (by decide)) (by omega)
  have hValueRead : Script.expression n (us ++ rest) = .ok (value, rest) :=
    hValue.expression hStops (by omega)
  rw [List.append_assoc, List.cons_append, readAt, Script.expression, ok_bind hRead]
  simp only [toTarget?_toExpr, ok_bind hValueRead]
  rfl

end ReadsAt

/-! ## Expressions -/

theorem Expr.tightness_le (e : Expr) : e.tightness ≤ 8 := by
  cases e with
  | binary op =>
    have hLevel := op.level_lt
    rw [Expr.tightness]
    omega
  | update op target before => cases before <;> simp [Expr.tightness]
  | _ => simp [Expr.tightness]

/-- An expression is read back at the level of its own tightness. -/
def Expr.ReadsBack (e : Expr) : Prop :=
  ReadsAt e.tightness e.tokens e

/-- A target is read back as the expression that it is. -/
def Target.ReadsBack (t : Target) : Prop :=
  ReadsAt 7 t.tokens t.toExpr

namespace Expr.ReadsBack

variable {e : Expr}

theorem loose (h : e.ReadsBack) : ReadsAt 0 e.tokens e :=
  ReadsAt.loosen h e.tightness_le (Nat.zero_le _)

theorem placed {k : Nat} (h : e.ReadsBack) (hk : k ≤ 8) : ReadsAt k (inPlace k e.tightness e.tokens) e :=
  ReadsAt.placed h e.tightness_le hk

end Expr.ReadsBack

/-! ## Lists of names, arguments and statements -/

/-- Arguments are read back up to the parenthesis behind them. -/
def ReadsArguments (es : List Expr) : Prop :=
  ∀ n rest, 16 * (separated (Expr.allTokens es)).length + 17 ≤ n →
    arguments n (separated (Expr.allTokens es) ++ .mark .closeParen :: rest) = .ok (es, rest)

/-- Statements are read back up to the brace behind them. -/
def ReadsBody (ss : List Stmt) : Prop :=
  ∀ n rest, 16 * ((Stmt.allTokens ss).length + 1) ≤ n →
    statements n (Stmt.allTokens ss ++ .mark .closeBrace :: rest) = .ok (ss, rest)

theorem paramNames_separated (names : List String) (rest : List Token) :
    paramNames (separated (names.map fun s => [.identifier s]) ++ .mark .closeParen :: rest) =
      .ok (names, rest) := by
  induction names with
  | nil => rfl
  | cons s names ih =>
    cases names with
    | nil => rfl
    | cons s' names =>
      simp only [List.map_cons, separated, List.append_assoc, List.cons_append] at ih ⊢
      exact map_eq_ok_iff.mpr ⟨(s' :: names, rest), ih, rfl⟩

theorem params_paramTokens (names : List String) (rest : List Token) :
    params (paramTokens names ++ rest) = .ok (names, rest) := by
  rw [paramTokens, List.cons_append, List.append_assoc, List.singleton_append, params,
    ok_bind (takeMark_self _ _)]
  exact paramNames_separated names rest

theorem readsArguments_nil : ReadsArguments [] := by
  intro n rest hSteps
  obtain ⟨n, rfl⟩ : ∃ n', n = n' + 1 := ⟨n - 1, by omega⟩
  rfl

theorem ReadsArguments.cons {e : Expr} {es : List Expr} (h : e.ReadsBack)
    (hRest : ReadsArguments es) : ReadsArguments (e :: es) := by
  intro n rest hSteps
  obtain ⟨n, rfl⟩ : ∃ n', n = n' + 1 := ⟨n - 1, by omega⟩
  cases es with
  | nil =>
    rw [Expr.allTokens, Expr.allTokens, separated] at hSteps ⊢
    have hRead := h.loose.expression_before (n := n) (m := .closeParen) rfl rest (by omega)
    rw [arguments, if_neg, ok_bind hRead]
    · rfl
    · simp [(h.loose.opens.append (.mark .closeParen :: rest)).startsWith_eq_false]
  | cons e' es =>
    rw [Expr.allTokens, Expr.allTokens, separated, ← Expr.allTokens] at hSteps ⊢
    simp only [List.length_append, List.length_cons] at hSteps
    rw [List.append_assoc, List.cons_append]
    have hRead := fun us => h.loose.expression_before (n := n) (m := .comma) rfl us (by omega)
    rw [arguments, if_neg, ok_bind (hRead _)]
    · dsimp only
      rw [if_neg (by simp [startsWith])]
      simp only [ok_bind (takeMark_self _ _), ok_bind (hRest n rest (by omega))]
      rfl
    · simp [(h.loose.opens.append _).startsWith_eq_false]

theorem block_braces {ss : List Stmt} {n : Nat} (h : ReadsBody ss) (rest : List Token)
    (hSteps : 16 * ((Stmt.allTokens ss).length + 2) ≤ n) :
    block n (.mark .openBrace :: (Stmt.allTokens ss ++ .mark .closeBrace :: rest)) = .ok (ss, rest) := by
  obtain ⟨n, rfl⟩ : ∃ n', n = n' + 1 := ⟨n - 1, by omega⟩
  rw [block, ok_bind (takeMark_self _ _)]
  exact h n rest (by omega)

namespace ReadsAt

variable {ts : List Token} {e : Expr}

theorem call {args : List Expr} (h : ReadsAt 7 ts e) (hArgs : ReadsArguments args) :
    ReadsAt 7 (ts ++ .mark .openParen :: (separated (Expr.allTokens args) ++ [.mark .closeParen]))
      (.call e args) := by
  apply h.access (by simp)
  intro m rest hSteps
  simp only [List.length_append, List.length_cons, List.length_nil] at hSteps
  rw [List.cons_append, List.append_assoc, List.singleton_append, accesses,
    ok_bind (hArgs m rest (by omega))]

theorem function {body : List Stmt} (names : List String) (h : ReadsBody body) :
    ReadsAt 8 (.keyword .function :: (paramTokens names ++
      .mark .openBrace :: (Stmt.allTokens body ++ [.mark .closeBrace]))) (.function names body) := by
  refine ReadsAt.whole (fun _ _ => rfl) (.function _) ?_
  intro n rest _ hSteps
  simp only [List.length_append, List.length_cons, List.length_nil] at hSteps
  have hBody := block_braces h rest (n := n) (by omega)
  have hSkip : ∀ us, skipName (paramTokens names ++ us) = paramTokens names ++ us := fun us => rfl
  rw [List.cons_append, List.append_assoc, List.cons_append, List.append_assoc, List.singleton_append,
    readAt, primary, hSkip]
  simp only [ok_bind (params_paramTokens names _), ok_bind hBody]
  rfl

end ReadsAt

/-! ## Statements -/

/-- Neither the end of a block nor what an `if` goes on with. -/
def Token.beginsStatement : Token → Bool
  | .mark .closeBrace | .keyword .elseWord => false
  | _ => true

/-- Whether an `else` comes next. -/
def elseFollows : List Token → Bool
  | .keyword .elseWord :: _ => true
  | _ => false

/-- A statement is read back, unless it ends in an `if` that takes an `else` after it; if a loop can
begin with it, then it is read there as well. -/
structure Stmt.ReadsBack (s : Stmt) : Prop where
  begins : ∃ t ts, s.tokens = t :: ts ∧ t.beginsStatement = true
  reads : ∀ n rest, (s.endsOpen = true → elseFollows rest = false) → 16 * s.tokens.length + 1 ≤ n →
    statement n (s.tokens ++ rest) = .ok (s, rest)
  readsFirst : s.canBegin = true → ∀ n rest, 16 * s.tokens.length + 1 ≤ n →
    forInit n (s.tokens ++ rest) = .ok (some s, .mark .semicolon :: rest)

theorem statement_of_opens {n : Nat} {ts : List Token} (h : Opens 0 ts) :
    statement (n + 1) ts = (do
      let (e, rest) ← expression n ts
      let ((), rest) ← takeTerminator rest
      return (.expression e, rest)) := by
  cases h with
  | name | function | paren => rfl
  | literal l ts =>
    cases l with
    | boolean b => cases b <;> rfl
    | number | string | null | undefined => rfl
  | unary _ op | update _ op => cases op <;> rfl

theorem forInit_of_opens {n : Nat} {ts : List Token} (h : Opens 0 ts) :
    forInit (n + 1) ts = (expression n ts).map fun (e, rest) => (some (.expression e), rest) := by
  cases h with
  | name | function | paren => rfl
  | literal l ts =>
    cases l with
    | boolean b => cases b <;> rfl
    | number | string | null | undefined => rfl
  | unary _ op | update _ op => cases op <;> rfl

theorem beginsStatement_of_opens {ts : List Token} (h : Opens 0 ts) :
    ∃ t us, ts = t :: us ∧ t.beginsStatement = true := by
  cases h with
  | name | function | paren => exact ⟨_, _, rfl, rfl⟩
  | literal l ts =>
    cases l with
    | boolean b => cases b <;> exact ⟨_, _, rfl, rfl⟩
    | number | string | null | undefined => exact ⟨_, _, rfl, rfl⟩
  | unary _ op | update _ op => cases op <;> exact ⟨_, _, rfl, rfl⟩

theorem optionalExpression_reads {o : Option Expr} {m : Mark} {n : Nat} (h : ∀ e ∈ o, e.ReadsBack)
    (hMark : m = .semicolon ∨ m = .closeParen) (rest : List Token)
    (hSteps : 16 * (Expr.optionTokens o).length + 17 ≤ n) :
    optionalExpression n m (Expr.optionTokens o ++ .mark m :: rest) = .ok (o, .mark m :: rest) := by
  obtain ⟨n, rfl⟩ : ∃ n', n = n' + 1 := ⟨n - 1, by omega⟩
  cases o with
  | none =>
    rw [Expr.optionTokens, List.nil_append, optionalExpression, if_pos (by simp [startsWith])]
  | some e =>
    rw [Expr.optionTokens] at hSteps ⊢
    have hReads := (h e rfl).loose
    have hReach : Token.reach (.mark m) = 0 := by rcases hMark with rfl | rfl <;> rfl
    have hRead := hReads.expression_before (n := n) hReach rest (by omega)
    have hNot := (hReads.opens.append (.mark m :: rest)).startsWith_eq_false (m := m)
      (hMark.imp_right .inl)
    rw [optionalExpression, if_neg (by simp [hNot]), hRead]
    rfl

theorem declaration_reads {init : Option Expr} {n : Nat} (h : ∀ e ∈ init, e.ReadsBack)
    (kind : DeclarationKind) (name : String) (rest : List Token)
    (hSteps : 16 * (Expr.initialTokens init).length + 1 ≤ n) :
    declaration n kind (.identifier name :: (Expr.initialTokens init ++ .mark .semicolon :: rest)) =
      .ok (.declare kind name init, .mark .semicolon :: rest) := by
  obtain ⟨n, rfl⟩ : ∃ n', n = n' + 1 := ⟨n - 1, by omega⟩
  cases init with
  | none => rfl
  | some e =>
    rw [Expr.initialTokens] at hSteps ⊢
    rw [List.length_cons] at hSteps
    have hRead := (h e rfl).loose.expression_before (n := n) (m := .semicolon) rfl rest (by omega)
    rw [List.cons_append, declaration]
    exact ok_bind hRead _

namespace Stmt.ReadsBack

/-- A statement that no loop begins with is read back if it is read from the token that it begins with. -/
theorem marked {s : Stmt} {t : Token} {ts : List Token} (hTokens : s.tokens = t :: ts)
    (hBegins : t.beginsStatement = true) (hInside : s.canBegin = false)
    (h : ∀ n rest, (s.endsOpen = true → elseFollows rest = false) → 16 * ts.length + 16 ≤ n →
      statement (n + 1) (t :: (ts ++ rest)) = .ok (s, rest)) : s.ReadsBack := by
  refine ⟨⟨t, ts, hTokens, hBegins⟩, fun n rest hElse hSteps => ?_, fun hFirst => ?_⟩
  · rw [hTokens, List.length_cons] at hSteps
    obtain ⟨n, rfl⟩ : ∃ n', n = n' + 1 := ⟨n - 1, by omega⟩
    rw [hTokens]
    exact h n rest hElse (by omega)
  · rw [hInside] at hFirst
    cases hFirst

theorem declare {init : Option Expr} (h : ∀ e ∈ init, e.ReadsBack) (kind : DeclarationKind)
    (name : String) : (Stmt.declare kind name init).ReadsBack := by
  have hKind : declarationKind? (.keyword kind.keyword) = some kind := by cases kind <;> rfl
  refine ⟨?_, fun n rest _ hSteps => ?_, fun _ n rest hSteps => ?_⟩
  · rw [Stmt.tokens]
    exact ⟨_, _, rfl, by cases kind <;> rfl⟩
  all_goals
    rw [Stmt.tokens] at hSteps ⊢
    simp only [List.length_append, List.length_cons, List.length_nil] at hSteps
    obtain ⟨n, rfl⟩ : ∃ n', n = n' + 1 := ⟨n - 1, by omega⟩
    have hRead := declaration_reads h kind name rest (n := n) (by omega)
    simp only [List.cons_append, List.append_assoc, List.nil_append]
  · have hStatement : statement (n + 1) (.keyword kind.keyword :: .identifier name ::
        (Expr.initialTokens init ++ .mark .semicolon :: rest)) =
        declaration n kind (.identifier name :: (Expr.initialTokens init ++ .mark .semicolon :: rest)) >>=
          fun p => takeTerminator p.2 >>= fun q => pure (p.1, q.2) := by
      cases kind <;> rfl
    rw [hStatement, ok_bind hRead]
    rfl
  · rw [forInit]
    simp only [List.head?_cons, Option.bind_some, hKind, List.tail_cons, hRead]
    rfl

theorem expression {e : Expr} (h : e.ReadsBack) : (Stmt.expression e).ReadsBack := by
  have hOpens := h.loose.opens.append
  refine ⟨?_, fun n rest _ hSteps => ?_, fun _ n rest hSteps => ?_⟩
  · rw [Stmt.tokens]
    exact beginsStatement_of_opens (hOpens _)
  all_goals
    rw [Stmt.tokens] at hSteps ⊢
    simp only [List.length_append, List.length_cons, List.length_nil] at hSteps
    obtain ⟨n, rfl⟩ : ∃ n', n = n' + 1 := ⟨n - 1, by omega⟩
    have hRead := h.loose.expression_before (n := n) (m := .semicolon) rfl rest (by omega)
    rw [List.append_assoc, List.singleton_append]
  · rw [statement_of_opens (hOpens _), ok_bind hRead]
    rfl
  · rw [forInit_of_opens (hOpens _), hRead]
    rfl

theorem function {body : List Stmt} (h : ReadsBody body) (name : String) (names : List String) :
    (Stmt.function name names body).ReadsBack := by
  refine marked rfl rfl rfl ?_
  intro n rest _ hSteps
  simp only [List.length_append, List.length_cons, List.length_nil] at hSteps
  simp only [List.cons_append, List.append_assoc, List.nil_append]
  have hBody := block_braces h rest (n := n) (by omega)
  rw [statement]
  simp only [ok_bind (params_paramTokens names _), ok_bind hBody]
  rfl

theorem block {body : List Stmt} (h : ReadsBody body) : (Stmt.block body).ReadsBack := by
  refine marked rfl rfl rfl ?_
  intro n rest _ hSteps
  simp only [List.length_append, List.length_cons, List.length_nil] at hSteps
  simp only [List.cons_append, List.append_assoc, List.nil_append]
  rw [statement, ok_bind (block_braces h rest (by omega))]
  rfl

theorem returns {argument : Option Expr} (h : ∀ e ∈ argument, e.ReadsBack) :
    (Stmt.returns argument).ReadsBack := by
  refine marked rfl rfl rfl ?_
  intro n rest _ hSteps
  simp only [List.length_append, List.length_cons, List.length_nil] at hSteps
  simp only [List.cons_append, List.append_assoc, List.nil_append]
  cases argument with
  | none =>
    rw [Expr.optionTokens, statement]
    rfl
  | some e =>
    rw [Expr.optionTokens] at hSteps ⊢
    have hOpens := (h e rfl).loose.opens.append (.mark .semicolon :: rest)
    have hRead := (h e rfl).loose.expression_before (n := n) (m := .semicolon) rfl rest (by omega)
    rw [statement]
    simp [hOpens.startsWith_eq_false, hRead, Except.map]
    rfl

theorem ifElse {test : Expr} {consequent : Stmt} {alternate : Option Stmt} (h : test.ReadsBack)
    (hConsequent : consequent.ReadsBack) (hAlternate : ∀ s ∈ alternate, s.ReadsBack)
    (hClosed : alternate.isNone = true ∨ consequent.endsOpen = false) :
    (Stmt.ifElse test consequent alternate).ReadsBack := by
  refine marked rfl rfl rfl ?_
  intro n rest hElse hSteps
  simp only [List.length_append, List.length_cons] at hSteps
  simp only [List.cons_append, List.append_assoc]
  have hTest := fun us => h.loose.expression_before (n := n) (m := .closeParen) rfl us (by omega)
  rw [statement]
  simp only [ok_bind (takeMark_self _ _), ok_bind (hTest _)]
  cases alternate with
  | none =>
    rw [Stmt.alternateTokens, List.nil_append]
    have hNone : elseFollows rest = false := hElse rfl
    rw [ok_bind (hConsequent.reads n rest (fun _ => hNone) (by omega))]
    dsimp only
    split
    · cases hNone
    · rfl
  | some s =>
    rw [Stmt.alternateTokens] at hSteps ⊢
    rw [List.length_cons] at hSteps
    have hOpen : ∀ us, consequent.endsOpen = true → elseFollows us = false := by
      intro us hOpen
      simp [hOpen] at hClosed
    have hConsequentRead := hConsequent.reads n (.keyword .elseWord :: (s.tokens ++ rest))
      (hOpen _) (by omega)
    have hLast := (hAlternate s rfl).reads n rest
      (fun hOpen => hElse (by rw [Stmt.endsOpen, Stmt.alternateEndsOpen, hOpen])) (by omega)
    simp only [List.cons_append, ok_bind hConsequentRead, ok_bind hLast]
    rfl

theorem whileLoop {test : Expr} {body : Stmt} (h : test.ReadsBack) (hBody : body.ReadsBack) :
    (Stmt.whileLoop test body).ReadsBack := by
  refine marked rfl rfl rfl ?_
  intro n rest hElse hSteps
  simp only [List.length_append, List.length_cons] at hSteps
  simp only [List.cons_append, List.append_assoc]
  have hTest := fun us => h.loose.expression_before (n := n) (m := .closeParen) rfl us (by omega)
  have hBodyRead := hBody.reads n rest (fun hOpen => hElse (by rw [Stmt.endsOpen, hOpen])) (by omega)
  rw [statement]
  simp only [ok_bind (takeMark_self _ _), ok_bind (hTest _), ok_bind hBodyRead]
  rfl

theorem forLoop {init : Option Stmt} {test update : Option Expr} {body : Stmt}
    (hInit : ∀ s ∈ init, s.ReadsBack) (hFirst : init.all Stmt.canBegin = true)
    (hTest : ∀ e ∈ test, e.ReadsBack) (hUpdate : ∀ e ∈ update, e.ReadsBack)
    (hBody : body.ReadsBack) : (Stmt.forLoop init test update body).ReadsBack := by
  refine marked rfl rfl rfl ?_
  intro n rest hElse hSteps
  simp only [List.length_append, List.length_cons] at hSteps
  simp only [List.cons_append, List.append_assoc]
  have hInitRead : ∀ us, forInit n (Stmt.firstTokens init ++ us) = .ok (init, .mark .semicolon :: us) := by
    intro us
    cases init with
    | none =>
      obtain ⟨n, rfl⟩ : ∃ n', n = n' + 1 := ⟨n - 1, by omega⟩
      rw [Stmt.firstTokens]
      rfl
    | some s =>
      rw [Stmt.firstTokens] at hSteps ⊢
      exact (hInit s rfl).readsFirst hFirst n us (by omega)
  have hTestRead := fun us => optionalExpression_reads (n := n) hTest (.inl rfl) us (by omega)
  have hUpdateRead := fun us => optionalExpression_reads (n := n) hUpdate (.inr rfl) us (by omega)
  have hBodyRead := hBody.reads n rest (fun hOpen => hElse (by rw [Stmt.endsOpen, hOpen])) (by omega)
  rw [statement]
  simp only [ok_bind (takeMark_self _ _), ok_bind (hInitRead _), ok_bind (hTestRead _),
    ok_bind (hUpdateRead _), ok_bind hBodyRead]
  rfl

end Stmt.ReadsBack

theorem elseFollows_allTokens {ss : List Stmt} (h : ∀ s ∈ ss, s.ReadsBack) {rest : List Token}
    (hRest : elseFollows rest = false) : elseFollows (Stmt.allTokens ss ++ rest) = false := by
  cases ss with
  | nil => exact hRest
  | cons s ss =>
    obtain ⟨t, ts, hTokens, hBegins⟩ := (h s (.head ss)).begins
    rw [Stmt.allTokens, hTokens, List.cons_append, List.cons_append]
    unfold elseFollows
    split
    · next hEq =>
      cases hEq
      cases hBegins
    · rfl

theorem readsBody_of_all {ss : List Stmt} (h : ∀ s ∈ ss, s.ReadsBack) : ReadsBody ss := by
  induction ss with
  | nil =>
    intro n rest hSteps
    obtain ⟨n, rfl⟩ : ∃ n', n = n' + 1 := ⟨n - 1, by omega⟩
    rfl
  | cons s ss ih =>
    intro n rest hSteps
    have hTail : ∀ s ∈ ss, s.ReadsBack := fun s hs => h s (.tail _ hs)
    obtain ⟨hBegins, hReads, -⟩ := h s (.head ss)
    obtain ⟨n, rfl⟩ : ∃ n', n = n' + 1 := ⟨n - 1, by omega⟩
    rw [Stmt.allTokens, List.length_append] at hSteps
    rw [Stmt.allTokens, List.append_assoc]
    have hRead := hReads n (Stmt.allTokens ss ++ .mark .closeBrace :: rest)
      (fun _ => elseFollows_allTokens hTail rfl) (by omega)
    obtain ⟨t, ts, hTokens, hBegins⟩ := hBegins
    rw [hTokens] at hRead hSteps ⊢
    rw [List.length_cons] at hSteps
    rw [List.cons_append] at hRead ⊢
    rw [statements]
    · simp only [ok_bind hRead, ok_bind (ih hTail n rest (by omega))]
      rfl
    · rintro us ⟨⟩
      cases hBegins
    · exact List.cons_ne_nil _ _

theorem readsArguments_of_all {es : List Expr} (h : ∀ e ∈ es, e.ReadsBack) : ReadsArguments es := by
  induction es with
  | nil => exact readsArguments_nil
  | cons e es ih => exact (ih fun e he => h e (.tail _ he)).cons (h e (.head es))

theorem program_reads {p : Program} (h : ∀ s ∈ p, s.ReadsBack) {n : Nat} (hSteps : 16 * p.tokens.length + 2 ≤ n) :
    program n p.tokens = .ok p := by
  induction p generalizing n with
  | nil =>
    obtain ⟨n, rfl⟩ : ∃ n', n = n' + 1 := ⟨n - 1, by omega⟩
    rfl
  | cons s p ih =>
    have hTail : ∀ s ∈ p, s.ReadsBack := fun s hs => h s (.tail _ hs)
    obtain ⟨hBegins, hReads, -⟩ := h s (.head p)
    obtain ⟨n, rfl⟩ : ∃ n', n = n' + 1 := ⟨n - 1, by omega⟩
    rw [Program.tokens, Stmt.allTokens] at hSteps ⊢
    rw [List.length_append] at hSteps
    have hElse : elseFollows (Stmt.allTokens p ++ []) = false := elseFollows_allTokens hTail rfl
    rw [List.append_nil] at hElse
    have hRead := hReads n (Stmt.allTokens p) (fun _ => hElse) (by omega)
    obtain ⟨t, ts, hTokens, -⟩ := hBegins
    have hNonempty : (s.tokens ++ Stmt.allTokens p).isEmpty = false := by rw [hTokens]; rfl
    have hLength : 0 < s.tokens.length := by rw [hTokens]; exact Nat.succ_pos _
    have hRest : program n (Stmt.allTokens p) = .ok p := ih hTail (by rw [Program.tokens]; omega)
    rw [program, if_neg (by simp [hNonempty])]
    simp only [ok_bind hRead, ok_bind hRest]
    rfl

/-! ## Whole programs -/

mutual

theorem Expr.readsBack : (e : Expr) → e.isWritable = true → e.ReadsBack
  | .literal l, _ => by
    rw [Expr.ReadsBack, Expr.tokens]
    exact .literal l
  | .name s, _ => by
    rw [Expr.ReadsBack, Expr.tokens]
    exact .name s
  | .member object s, h => by
    rw [Expr.isWritable] at h
    rw [Expr.ReadsBack, Expr.tokens]
    exact ((object.readsBack h).placed (by decide)).member s
  | .index object key, h => by
    rw [Expr.isWritable, Bool.and_eq_true] at h
    rw [Expr.ReadsBack, Expr.tokens]
    exact ((object.readsBack h.1).placed (by decide)).index (key.readsBack h.2).loose
  | .call callee args, h => by
    rw [Expr.isWritable, Bool.and_eq_true] at h
    rw [Expr.ReadsBack, Expr.tokens]
    exact ((callee.readsBack h.1).placed (by decide)).call
      (readsArguments_of_all (Expr.allReadBack args h.2))
  | .function names body, h => by
    rw [Expr.isWritable] at h
    rw [Expr.ReadsBack, Expr.tokens]
    exact .function names (readsBody_of_all (Stmt.allReadBack body h))
  | .unary op operand, h => by
    rw [Expr.isWritable] at h
    rw [Expr.ReadsBack, Expr.tokens]
    exact ((operand.readsBack h).placed (by decide)).unary op
  | .binary op left right, h => by
    rw [Expr.isWritable, Bool.and_eq_true] at h
    have hLevel := op.level_lt
    rw [Expr.ReadsBack, Expr.tokens]
    exact .binary op ((left.readsBack h.1).placed (by omega)) ((right.readsBack h.2).placed (by omega))
  | .update op target true, h => by
    rw [Expr.isWritable] at h
    rw [Expr.ReadsBack, Expr.tokens]
    exact ((target.readsBack h).loosen (by decide) (by decide)).update_before op
  | .update op target false, h => by
    rw [Expr.isWritable] at h
    rw [Expr.ReadsBack, Expr.tokens]
    exact (target.readsBack h).update_after op
  | .assign target value, h => by
    rw [Expr.isWritable, Bool.and_eq_true] at h
    rw [Expr.ReadsBack, Expr.tokens]
    exact ((target.readsBack h.1).loosen (by decide) (by decide)).assign (value.readsBack h.2).loose

theorem Expr.allReadBack : (es : List Expr) → Expr.allWritable es = true → ∀ e ∈ es, e.ReadsBack
  | [], _ => by simp
  | e :: es, h => by
    rw [Expr.allWritable, Bool.and_eq_true] at h
    exact List.forall_mem_cons.mpr ⟨e.readsBack h.1, Expr.allReadBack es h.2⟩

theorem Expr.optionReadsBack : (o : Option Expr) → Expr.optionWritable o = true → ∀ e ∈ o, e.ReadsBack
  | none, _ => by simp
  | some e, h => by
    rw [Expr.optionWritable] at h
    rintro _ ⟨⟩
    exact e.readsBack h

theorem Target.readsBack : (t : Target) → t.isWritable = true → t.ReadsBack
  | .name s, _ => by
    rw [Target.ReadsBack, Target.tokens]
    exact (ReadsAt.name s).loosen_succ (by decide)
  | .member object s, h => by
    rw [Target.isWritable] at h
    rw [Target.ReadsBack, Target.tokens]
    exact ((object.readsBack h).placed (by decide)).member s
  | .index object key, h => by
    rw [Target.isWritable, Bool.and_eq_true] at h
    rw [Target.ReadsBack, Target.tokens]
    exact ((object.readsBack h.1).placed (by decide)).index (key.readsBack h.2).loose

theorem Stmt.readsBack : (s : Stmt) → s.isWritable = true → s.ReadsBack
  | .declare kind name init, h => by
    rw [Stmt.isWritable] at h
    exact .declare (Expr.optionReadsBack init h) kind name
  | .function name names body, h => by
    rw [Stmt.isWritable] at h
    exact .function (readsBody_of_all (Stmt.allReadBack body h)) name names
  | .ifElse test consequent alternate, h => by
    simp only [Stmt.isWritable, Bool.and_eq_true, Bool.or_eq_true, Bool.not_eq_true'] at h
    obtain ⟨⟨⟨hTest, hConsequent⟩, hAlternate⟩, hClosed⟩ := h
    exact .ifElse (test.readsBack hTest) (consequent.readsBack hConsequent)
      (Stmt.optionReadsBack alternate hAlternate) hClosed
  | .forLoop init test update body, h => by
    simp only [Stmt.isWritable, Bool.and_eq_true] at h
    obtain ⟨⟨⟨⟨hInit, hFirst⟩, hTest⟩, hUpdate⟩, hBody⟩ := h
    exact .forLoop (Stmt.optionReadsBack init hInit) hFirst (Expr.optionReadsBack test hTest)
      (Expr.optionReadsBack update hUpdate) (body.readsBack hBody)
  | .whileLoop test body, h => by
    rw [Stmt.isWritable, Bool.and_eq_true] at h
    exact .whileLoop (test.readsBack h.1) (body.readsBack h.2)
  | .returns argument, h => by
    rw [Stmt.isWritable] at h
    exact .returns (Expr.optionReadsBack argument h)
  | .block body, h => by
    rw [Stmt.isWritable] at h
    exact .block (readsBody_of_all (Stmt.allReadBack body h))
  | .expression e, h => by
    rw [Stmt.isWritable] at h
    exact .expression (e.readsBack h)

theorem Stmt.allReadBack : (ss : List Stmt) → Stmt.allWritable ss = true → ∀ s ∈ ss, s.ReadsBack
  | [], _ => by simp
  | s :: ss, h => by
    rw [Stmt.allWritable, Bool.and_eq_true] at h
    exact List.forall_mem_cons.mpr ⟨s.readsBack h.1, Stmt.allReadBack ss h.2⟩

theorem Stmt.optionReadsBack : (o : Option Stmt) → Stmt.optionWritable o = true → ∀ s ∈ o, s.ReadsBack
  | none, _ => by simp
  | some s, h => by
    rw [Stmt.optionWritable] at h
    rintro _ ⟨⟩
    exact s.readsBack h

end

/-- A program that can be written is read back from its tokens. -/
theorem parse_tokens (p : Program) (h : p.isWritable = true) : parse p.tokens = .ok p := by
  rw [parse, stepsFor]
  exact program_reads (Stmt.allReadBack p h) (by omega)

/-- The program `if (a) { if (b) function (x) { return -(x + 1) * x; }(c.if++, !(d = e = f)); } else
for (;; g - (h - i) - j) while (k == l < m) (n = o)[p = null] = q;` -/
def deepProgram : Program := [
  .ifElse (.name "a")
    (.block [.ifElse (.name "b")
      (.expression (.call
        (.function ["x"] [.returns (some (.binary .multiply
          (.unary .negate (.binary .add (.name "x") (.literal (.number 1)))) (.name "x")))])
        [.update .increment (.member (.name "c") "if") false,
          .unary .not (.assign (.name "d") (.assign (.name "e") (.name "f")))]))
      none])
    (some (.forLoop none none
      (some (.binary .subtract
        (.binary .subtract (.name "g") (.binary .subtract (.name "h") (.name "i"))) (.name "j")))
      (.whileLoop (.binary .equal (.name "k") (.binary .less (.name "l") (.name "m")))
        (.expression (.assign
          (.index (.assign (.name "n") (.name "o")) (.assign (.name "p") (.literal .null)))
          (.name "q"))))))]

theorem parse_tokens_deepProgram :
    deepProgram.isWritable = true ∧ parse deepProgram.tokens = .ok deepProgram :=
  ⟨by decide, parse_tokens deepProgram (by decide)⟩

end PageRender.Script
