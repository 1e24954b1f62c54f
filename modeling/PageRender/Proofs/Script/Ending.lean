import PageRender.Script.Parser

/-! # How reading ends

The readers of programs take tokens from the front, and they have steps enough for all tokens there are.
They come to the end of a program, or to a token that they do not expect and that they name along with its
place. A statement is missing at the end of the tokens only if these end behind the head of a condition or a
loop, or behind an `else`.
-/

namespace PageRender.Script

/-- The tokens end where a statement has to follow. -/
def AwaitsStatement (ts : List Token) : Prop :=
  ts.getLast? = some (.mark .closeParen) ∨ ts.getLast? = some (.keyword .elseWord)

/-- The head of a condition or of a loop, up to the closing parenthesis. -/
inductive IsHead : List Token → Prop
  | ifElse {n : Nat} {inner : List Token} {test : Expr}
      (hTest : expression n (inner ++ [.mark .closeParen]) = .ok (test, [.mark .closeParen])) :
      IsHead (.keyword .ifWord :: .mark .openParen :: (inner ++ [.mark .closeParen]))
  | whileLoop {n : Nat} {inner : List Token} {test : Expr}
      (hTest : expression n (inner ++ [.mark .closeParen]) = .ok (test, [.mark .closeParen])) :
      IsHead (.keyword .whileWord :: .mark .openParen :: (inner ++ [.mark .closeParen]))
  | forLoop {n : Nat} {inner afterInit afterTest : List Token} {init : Option Stmt}
      {test update : Option Expr}
      (hInit : forInit n (inner ++ [.mark .closeParen]) = .ok (init, .mark .semicolon :: afterInit))
      (hTest : optionalExpression n .semicolon afterInit = .ok (test, .mark .semicolon :: afterTest))
      (hUpdate : optionalExpression n .closeParen afterTest = .ok (update, [.mark .closeParen])) :
      IsHead (.keyword .forWord :: .mark .openParen :: (inner ++ [.mark .closeParen]))

/-- The tokens end where the body of a condition or a loop has to follow. -/
def AwaitsBody (ts : List Token) : Prop :=
  (∃ head, IsHead head ∧ head <:+ ts) ∨ [.keyword .elseWord] <:+ ts

/-- What an error says of tokens it comes from, with the number of those that are left: what was found is
the next one of these, or it is an expression in front of them that cannot be assigned to. -/
inductive Notices (ts : List Token) : Expected → Found → Nat → Prop
  | token (expected : Expected) {left : List Token} (h : left <:+ ts) :
      Notices ts expected (foundAt left) left.length
  | target {e : Expr} {left : List Token} (hTarget : e.toTarget? = none) (h : left <:+ ts) :
      Notices ts .assignable (.named e.form) left.length

/-- How a reader of tokens ends that has steps enough: it takes some of them from the front, at least as
many as `taken`, or it meets a token that it does not expect, or the whole text misses a statement. -/
def Ends {α : Type} (all : List Token) (taken : Nat) (ts : List Token) :
    Except ParseError (α × List Token) → Prop
  | .ok (_, rest) => rest <:+ ts ∧ rest.length + taken ≤ ts.length
  | .error (.unexpected expected found left) => Notices ts expected found left
  | .error .statementExpected => AwaitsBody all
  | .error .outOfSteps => False

theorem AwaitsBody.awaitsStatement {ts : List Token} (h : AwaitsBody ts) : AwaitsStatement ts := by
  rcases h with ⟨head, hHead, before, rfl⟩ | ⟨before, rfl⟩
  · have hLast : [.mark .closeParen] <:+ head := by
      cases hHead <;> exact ⟨_ :: _ :: _, rfl⟩
    obtain ⟨start, rfl⟩ := hLast
    rw [← List.append_assoc]
    exact .inl List.getLast?_concat
  · exact .inr List.getLast?_concat

theorem Notices.mono {ts us : List Token} {expected : Expected} {found : Found} {left : Nat}
    (h : Notices us expected found left) (hSuffix : us <:+ ts) : Notices ts expected found left := by
  cases h with
  | token expected h => exact .token expected (h.trans hSuffix)
  | target hTarget h => exact .target hTarget (h.trans hSuffix)

theorem takeMark_eq_ok {m : Mark} {ts rest : List Token} (h : takeMark m ts = .ok ((), rest)) :
    ts = .mark m :: rest := by
  unfold takeMark at h
  split at h
  · split at h
    · rename_i hMark
      cases h
      rw [eq_of_beq hMark]
    · cases h
  · cases h

section

variable {α β : Type} {all ts : List Token} {taken : Nat}

namespace Ends

theorem ok (v : α) {rest : List Token} (h : rest <:+ ts) (hLength : rest.length + taken ≤ ts.length) :
    Ends all taken ts (.ok (v, rest)) :=
  ⟨h, hLength⟩

theorem here (v : α) : Ends all 0 ts (.ok (v, ts)) :=
  ⟨List.suffix_rfl, Nat.le_refl _⟩

theorem failAt (expected : Expected) (ts : List Token) :
    Ends (α := α) all taken ts (failAt expected ts) :=
  Notices.token expected List.suffix_rfl

section

variable {j k : Nat} {rest : List Token} {x : Except ParseError (α × List Token)}
  {f : α × List Token → Except ParseError (β × List Token)}

/-- What comes of the tokens behind some comes of all of them. -/
theorem behind (hx : Ends all k rest x) (h : rest <:+ ts) (hLength : rest.length + j ≤ ts.length)
    (hTaken : taken ≤ j + k) : Ends all taken ts x := by
  cases x with
  | ok found =>
    have hLeft := hx.2
    exact ⟨hx.1.trans h, by omega⟩
  | error e =>
    cases e with
    | unexpected => exact hx.mono h
    | statementExpected | outOfSteps => exact hx

theorem weaken (hx : Ends all k ts x) (hTaken : taken ≤ k) : Ends all taken ts x :=
  hx.behind List.suffix_rfl (Nat.le_refl _) (Nat.le_trans hTaken (Nat.le_add_left k 0))

theorem cons {t : Token} (hTaken : taken ≤ 1) (hx : Ends all 0 rest x) : Ends all taken (t :: rest) x :=
  hx.behind (List.suffix_cons t rest) (Nat.le_refl _) hTaken

theorem bind_eq (hx : Ends all j ts x)
    (hf : ∀ v rest, x = .ok (v, rest) → rest <:+ ts → rest.length + j ≤ ts.length →
      Ends all k rest (f (v, rest)))
    (hTaken : taken ≤ j + k) : Ends all taken ts (x >>= f) := by
  cases x with
  | ok found => exact (hf found.1 found.2 rfl hx.1 hx.2).behind hx.1 hx.2 hTaken
  | error e => cases e <;> exact hx

theorem bind (hx : Ends all j ts x)
    (hf : ∀ v rest, rest <:+ ts → rest.length + j ≤ ts.length → Ends all k rest (f (v, rest)))
    (hTaken : taken ≤ j + k) : Ends all taken ts (x >>= f) :=
  hx.bind_eq (fun v rest _ => hf v rest) hTaken

theorem andThen (hx : Ends all j ts x) (hTaken : taken ≤ j)
    (hf : ∀ v rest, rest <:+ ts → rest.length + j ≤ ts.length → Ends all 0 rest (f (v, rest))) :
    Ends all taken ts (x >>= f) :=
  hx.bind hf hTaken

theorem map (g : α → β) (hx : Ends all taken ts x) :
    Ends all taken ts (x.map fun (v, rest) => (g v, rest)) := by
  cases x with
  | ok found => exact hx
  | error e => cases e <;> exact hx

end

theorem takeMark (m : Mark) (ts : List Token) : Ends all 1 ts (takeMark m ts) := by
  unfold Script.takeMark
  split
  · split
    · exact .ok _ (List.suffix_cons _ _) (Nat.le_refl _)
    · exact .failAt _ _
  · exact .failAt _ _

theorem takeName (ts : List Token) : Ends all 1 ts (takeName ts) := by
  unfold Script.takeName
  split
  · exact .ok _ (List.suffix_cons _ _) (Nat.le_refl _)
  · exact .failAt _ _

theorem takeTerminator (ts : List Token) : Ends all 0 ts (takeTerminator ts) := by
  unfold Script.takeTerminator
  split
  · exact .here _
  · exact .ok _ (List.suffix_cons _ _) (Nat.le_succ _)
  · exact .here _
  · exact .failAt _ _

theorem terminated (v : β) (ts : List Token) : Ends all 0 ts (do
    let ((), rest) ← Script.takeTerminator ts
    return (v, rest)) :=
  (takeTerminator ts).andThen (Nat.zero_le _) fun _ _ _ _ => .here _

theorem paramNames (ts : List Token) : Ends all 0 ts (paramNames ts) := by
  fun_induction Script.paramNames ts with
  | case1 rest => exact .ok _ (List.suffix_cons _ _) (Nat.le_succ _)
  | case2 n rest => exact .ok _ ⟨[_, _], rfl⟩ (Nat.le_add_right _ 2)
  | case3 n rest ih => exact .cons (Nat.zero_le _) (.cons (Nat.zero_le _) (ih.map (n :: ·)))
  | case4 => exact .cons (Nat.zero_le _) (.failAt _ _)
  | case5 => exact .failAt _ _

/-- Behind the closing parenthesis of a head something follows, or the tokens end where a body is awaited. -/
theorem closed {f : Unit × List Token → Except ParseError (α × List Token)} (hts : ts <:+ all)
    (hHead : ts = [.mark .closeParen] → AwaitsBody all)
    (hf : ∀ rest, rest <:+ all → (rest = [] → AwaitsBody all) → rest.length + 1 ≤ ts.length →
      Ends all 0 rest (f ((), rest))) : Ends all 0 ts (Script.takeMark .closeParen ts >>= f) := by
  refine (takeMark .closeParen ts).bind_eq (k := 0) (fun _ rest hTake hRest hLength => ?_) (Nat.zero_le _)
  refine hf rest (hRest.trans hts) ?_ hLength
  rintro rfl
  exact hHead (takeMark_eq_ok hTake)

theorem params (ts : List Token) : Ends all 0 ts (params ts) :=
  (takeMark .openParen ts).andThen (Nat.zero_le _) fun _ rest _ _ => paramNames rest

theorem targetOf (e : Expr) (g : Target → β) {rest : List Token} (h : rest <:+ ts) :
    Ends all 0 ts (do return (g (← targetOf e rest.length), rest)) := by
  unfold Script.targetOf
  cases hTarget : e.toTarget? with
  | some t => exact .ok _ h h.length_le
  | none => exact Notices.target hTarget h

end Ends

end

/-- All readers end that have at most `n` steps, at tokens at the end of `all` for which these are enough. -/
structure ReadersEnd (all : List Token) (n : Nat) : Prop where
  -- For each token 16 steps are enough. What is added counts the readers that call one another before
  -- the first token is taken.
  statement : ∀ {ts}, ts <:+ all → (ts = [] → AwaitsBody all) → 16 * ts.length + 10 ≤ n →
    Ends all 1 ts (statement n ts)
  declaration : ∀ kind {ts}, ts <:+ all → 16 * ts.length + 1 ≤ n → Ends all 1 ts (declaration n kind ts)
  forInit : ∀ {ts}, ts <:+ all → 16 * ts.length + 10 ≤ n → Ends all 0 ts (forInit n ts)
  optionalExpression : ∀ m {ts}, ts <:+ all → 16 * ts.length + 10 ≤ n →
    Ends all 0 ts (optionalExpression n m ts)
  block : ∀ {ts}, ts <:+ all → 16 * ts.length + 1 ≤ n → Ends all 1 ts (block n ts)
  statements : ∀ {ts}, ts <:+ all → 16 * ts.length + 11 ≤ n → Ends all 1 ts (statements n ts)
  expression : ∀ {ts}, ts <:+ all → 16 * ts.length + 9 ≤ n → Ends all 1 ts (expression n ts)
  operation : ∀ {level ts}, level ≤ 4 → ts <:+ all → 16 * ts.length + (8 - level) ≤ n →
    Ends all 1 ts (operation n level ts)
  operations : ∀ {level ts} e, level < 4 → ts <:+ all → 16 * ts.length + 1 ≤ n →
    Ends all 0 ts (operations n level e ts)
  unary : ∀ {ts}, ts <:+ all → 16 * ts.length + 3 ≤ n → Ends all 1 ts (unary n ts)
  withSuffix : ∀ {ts}, ts <:+ all → 16 * ts.length + 2 ≤ n → Ends all 1 ts (withSuffix n ts)
  accesses : ∀ e {ts}, ts <:+ all → 16 * ts.length + 1 ≤ n → Ends all 0 ts (accesses n e ts)
  arguments : ∀ {ts}, ts <:+ all → 16 * ts.length + 10 ≤ n → Ends all 1 ts (arguments n ts)
  primary : ∀ {ts}, ts <:+ all → 16 * ts.length + 1 ≤ n → Ends all 1 ts (primary n ts)

namespace ReadersEnd

variable {all ts : List Token} {n : Nat} (h : ReadersEnd all n)

include h

theorem primary_succ (hts : ts <:+ all) (hSteps : 16 * ts.length + 1 ≤ n + 1) :
    Ends all 1 ts (Script.primary (n + 1) ts) := by
  rw [Script.primary.eq_def]
  dsimp only
  split
  · exact .ok _ (List.suffix_cons _ _) (Nat.le_refl _)
  · rename_i rest
    have hName : skipName rest <:+ rest := by
      unfold skipName
      split
      · exact List.suffix_cons _ _
      · exact List.suffix_rfl
    have hLe := hName.length_le
    have hIn := hName.trans ((List.suffix_cons _ rest).trans hts)
    rw [List.length_cons] at hSteps
    refine Ends.cons (Nat.le_refl 1) (Ends.behind (j := 0) (k := 0) ?_ hName hLe (Nat.le_refl 0))
    refine (Ends.params _).andThen (Nat.le_refl 0) fun names after hAfter hLength => ?_
    refine (h.block (hAfter.trans hIn) (by omega)).andThen (Nat.zero_le _) fun body left _ _ => ?_
    exact .here _
  · rename_i rest
    have hIn := (List.suffix_cons _ rest).trans hts
    rw [List.length_cons] at hSteps
    refine Ends.cons (Nat.le_refl 1) ?_
    refine (h.expression hIn (by omega)).andThen (Nat.zero_le _) fun e after _ _ => ?_
    exact (Ends.takeMark _ _).andThen (Nat.zero_le _) fun _ left _ _ => .here _
  · cases ts with
    | nil => exact .failAt _ _
    | cons t rest =>
      simp only [List.head?_cons, Option.bind_some, List.tail_cons]
      split
      · exact .ok _ (List.suffix_cons t rest) (Nat.le_refl _)
      · exact .failAt _ _

theorem arguments_succ (hts : ts <:+ all) (hSteps : 16 * ts.length + 10 ≤ n + 1) :
    Ends all 1 ts (Script.arguments (n + 1) ts) := by
  have hClosed : ∀ {us : List Token} {m : Mark} {as : List Expr}, startsWith m us = true →
      Ends all 1 us (.ok (as, us.tail)) := by
    intro us m as hStarts
    cases us with
    | nil => cases hStarts
    | cons t rest => exact .ok _ (List.suffix_cons t rest) (Nat.le_refl _)
  rw [Script.arguments]
  split
  · rename_i hStarts
    exact hClosed hStarts
  · refine (h.expression hts (by omega)).andThen (Nat.le_refl 1) fun e rest hRest hLength => ?_
    dsimp only
    split
    · rename_i hStarts
      exact (hClosed hStarts).weaken (Nat.zero_le _)
    · refine (Ends.takeMark _ _).andThen (Nat.zero_le _) fun _ after hAfter hLength' => ?_
      have hIn := hAfter.trans (hRest.trans hts)
      exact (h.arguments hIn (by omega)).andThen (Nat.zero_le _) fun es left _ _ => .here _

theorem accesses_succ (e : Expr) (hts : ts <:+ all) (hSteps : 16 * ts.length + 1 ≤ n + 1) :
    Ends all 0 ts (Script.accesses (n + 1) e ts) := by
  rw [Script.accesses.eq_def]
  dsimp only
  split
  · rename_i rest
    have hIn := (List.suffix_cons _ rest).trans hts
    rw [List.length_cons] at hSteps
    refine Ends.cons (Nat.zero_le _) ?_
    refine (h.arguments hIn (by omega)).andThen (Nat.zero_le _) fun args after hAfter _ => ?_
    exact h.accesses _ (hAfter.trans hIn) (by omega)
  · rename_i rest
    have hIn := (List.suffix_cons _ rest).trans hts
    rw [List.length_cons] at hSteps
    refine Ends.cons (Nat.zero_le _) ?_
    refine (h.expression hIn (by omega)).andThen (Nat.zero_le _) fun key after hAfter _ => ?_
    refine (Ends.takeMark _ _).andThen (Nat.zero_le _) fun _ left hLeft _ => ?_
    exact h.accesses _ (hLeft.trans (hAfter.trans hIn)) (by omega)
  · rename_i rest
    have hIn := (List.suffix_cons _ rest).trans hts
    rw [List.length_cons] at hSteps
    refine Ends.cons (Nat.zero_le _) ?_
    cases rest with
    | nil => exact .failAt _ _
    | cons t rest =>
      simp only [List.head?_cons, Option.bind_some, List.tail_cons, List.length_cons] at hSteps ⊢
      split
      · exact .cons (Nat.zero_le _) (h.accesses _ ((List.suffix_cons t rest).trans hIn) (by omega))
      · exact .failAt _ _
  · exact .here _

theorem withSuffix_succ (hts : ts <:+ all) (hSteps : 16 * ts.length + 2 ≤ n + 1) :
    Ends all 1 ts (Script.withSuffix (n + 1) ts) := by
  rw [Script.withSuffix]
  refine (h.primary hts (by omega)).andThen (Nat.le_refl 1) fun e rest hRest hLength => ?_
  refine (h.accesses e (hRest.trans hts) (by omega)).andThen (Nat.le_refl 0) fun e after hAfter _ => ?_
  dsimp only
  cases after with
  | nil => exact .here _
  | cons t after =>
    dsimp only
    cases updateOp? t with
    | none => exact .here _
    | some op => exact .targetOf e (fun target => Expr.update op target false) (List.suffix_cons t after)

theorem unary_succ (hts : ts <:+ all) (hSteps : 16 * ts.length + 3 ≤ n + 1) :
    Ends all 1 ts (Script.unary (n + 1) ts) := by
  rw [Script.unary.eq_def]
  cases ts with
  | nil => exact h.withSuffix hts (by simpa using hSteps)
  | cons t rest =>
    have hIn := (List.suffix_cons t rest).trans hts
    have hSuffix : Ends all 1 (t :: rest) (Script.withSuffix n (t :: rest)) := h.withSuffix hts (by omega)
    rw [List.length_cons] at hSteps
    dsimp only
    split
    · refine Ends.cons (Nat.le_refl 1) ?_
      exact (h.unary hIn (by omega)).andThen (Nat.zero_le _) fun e after _ _ => .here _
    · rename_i op _ _
      refine Ends.cons (Nat.le_refl 1) ?_
      refine (h.unary hIn (by omega)).andThen (Nat.zero_le _) fun e after _ _ => ?_
      exact .targetOf e (fun target => Expr.update op target true) List.suffix_rfl
    · exact hSuffix

theorem operations_succ {level : Nat} (e : Expr) (hLevel : level < 4) (hts : ts <:+ all)
    (hSteps : 16 * ts.length + 1 ≤ n + 1) : Ends all 0 ts (Script.operations (n + 1) level e ts) := by
  rw [Script.operations.eq_def]
  cases ts with
  | nil => exact .here _
  | cons t rest =>
    have hIn := (List.suffix_cons t rest).trans hts
    rw [List.length_cons] at hSteps
    dsimp only
    split
    · exact .here _
    · refine Ends.cons (Nat.zero_le _) ?_
      refine (h.operation (by omega) hIn (by omega)).andThen (Nat.zero_le _) fun right after hAfter _ => ?_
      exact h.operations _ hLevel (hAfter.trans hIn) (by omega)

theorem operation_succ {level : Nat} (hLevel : level ≤ 4) (hts : ts <:+ all)
    (hSteps : 16 * ts.length + (8 - level) ≤ n + 1) :
    Ends all 1 ts (Script.operation (n + 1) level ts) := by
  rw [Script.operation]
  split
  · rename_i hLoose
    refine (h.operation (by omega) hts (by omega)).andThen (Nat.le_refl 1) fun e rest hRest hLength => ?_
    exact h.operations e hLoose (hRest.trans hts) (by omega)
  · exact h.unary hts (by omega)

theorem expression_succ (hts : ts <:+ all) (hSteps : 16 * ts.length + 9 ≤ n + 1) :
    Ends all 1 ts (Script.expression (n + 1) ts) := by
  rw [Script.expression]
  refine (h.operation (Nat.zero_le 4) hts (by omega)).andThen (Nat.le_refl 1) fun e rest hRest hLength => ?_
  dsimp only
  split
  · rename_i after
    rw [List.length_cons] at hLength
    have hIn := (List.suffix_cons _ after).trans (hRest.trans hts)
    cases e.toTarget? with
    | none => exact .failAt _ _
    | some target =>
      refine Ends.cons (Nat.zero_le _) ?_
      exact (h.expression hIn (by omega)).andThen (Nat.zero_le _) fun value left _ _ => .here _
  · exact .here _

theorem optionalExpression_succ (m : Mark) (hts : ts <:+ all) (hSteps : 16 * ts.length + 10 ≤ n + 1) :
    Ends all 0 ts (Script.optionalExpression (n + 1) m ts) := by
  rw [Script.optionalExpression]
  split
  · exact .here _
  · exact ((h.expression hts (by omega)).map some).weaken (Nat.zero_le _)

theorem declaration_succ (kind : DeclarationKind) (hts : ts <:+ all)
    (hSteps : 16 * ts.length + 1 ≤ n + 1) : Ends all 1 ts (Script.declaration (n + 1) kind ts) := by
  rw [Script.declaration]
  refine (Ends.takeName ts).andThen (Nat.le_refl 1) fun name rest hRest hLength => ?_
  dsimp only
  split
  · rename_i after
    rw [List.length_cons] at hLength
    have hIn := (List.suffix_cons _ after).trans (hRest.trans hts)
    refine Ends.cons (Nat.zero_le _) ?_
    exact (h.expression hIn (by omega)).andThen (Nat.zero_le _) fun init left _ _ => .here _
  · exact .here _

theorem forInit_succ (hts : ts <:+ all) (hSteps : 16 * ts.length + 10 ≤ n + 1) :
    Ends all 0 ts (Script.forInit (n + 1) ts) := by
  rw [Script.forInit.eq_def]
  dsimp only
  split
  · rename_i kind hKind
    cases ts with
    | nil => cases hKind
    | cons t rest =>
      have hIn := (List.suffix_cons t rest).trans hts
      rw [List.length_cons] at hSteps
      have hInit := (h.declaration kind hIn (by omega)).map some
      exact .cons (Nat.zero_le _) (hInit.weaken (Nat.zero_le _))
  split
  · exact .here _
  · have hInit := (h.expression hts (by omega)).map fun e => some (Stmt.expression e)
    exact hInit.weaken (Nat.zero_le _)

theorem block_succ (hts : ts <:+ all) (hSteps : 16 * ts.length + 1 ≤ n + 1) :
    Ends all 1 ts (Script.block (n + 1) ts) := by
  rw [Script.block]
  refine (Ends.takeMark _ ts).bind (k := 1) (fun _ rest hRest hLength => ?_) (Nat.le_add_right 1 1)
  exact h.statements (hRest.trans hts) (by omega)

theorem statements_succ (hts : ts <:+ all) (hSteps : 16 * ts.length + 11 ≤ n + 1) :
    Ends all 1 ts (Script.statements (n + 1) ts) := by
  rw [Script.statements.eq_def]
  dsimp only
  split
  · exact .ok _ (List.suffix_cons _ _) (Nat.le_refl _)
  · exact .failAt _ _
  · rename_i hNotNil
    have hFirst : Ends all 1 ts (Script.statement n ts) :=
      h.statement hts (fun hNil => absurd hNil hNotNil) (by omega)
    refine hFirst.andThen (Nat.le_refl 1) fun s rest hRest hLength => ?_
    exact (h.statements (hRest.trans hts) (by omega)).andThen (Nat.zero_le _) fun ss left _ _ => .here _

theorem ifElse_succ {rest : List Token} (hts : .keyword .ifWord :: rest <:+ all)
    (hSteps : 16 * rest.length + 10 ≤ n) :
    Ends all 1 (.keyword .ifWord :: rest) (Script.statement (n + 1) (.keyword .ifWord :: rest)) := by
  rw [Script.statement.eq_def]
  refine Ends.cons (Nat.le_refl 1) ?_
  refine (Ends.takeMark _ rest).bind_eq (k := 0) (fun _ us hOpen hUs _ => ?_) (Nat.zero_le _)
  obtain rfl := takeMark_eq_ok hOpen
  have hIn := hUs.trans ((List.suffix_cons _ _).trans hts)
  refine (h.expression hIn (by omega)).bind_eq (k := 0) (fun test vs hTest hVs _ => ?_) (Nat.zero_le _)
  have hHead : vs = [.mark .closeParen] → AwaitsBody all := by
    rintro rfl
    obtain ⟨inner, rfl⟩ := hVs
    exact .inl ⟨_, .ifElse hTest, hts⟩
  refine Ends.closed (hVs.trans hIn) hHead fun ws hWs hAwaits _ => ?_
  refine (h.statement hWs hAwaits (by omega)).andThen (Nat.zero_le _) fun consequent left hLeft hLength => ?_
  dsimp only
  split
  · rename_i after
    rw [List.length_cons] at hLength
    have hElse := hLeft.trans hWs
    have hAwaits : after = [] → AwaitsBody all := by
      rintro rfl
      exact .inr hElse
    refine Ends.cons (Nat.zero_le _) ?_
    have hAlternate : Ends all 1 after (Script.statement n after) :=
      h.statement ((List.suffix_cons _ after).trans hElse) hAwaits (by omega)
    exact hAlternate.andThen (Nat.zero_le _) fun alternate left _ _ => .here _
  · exact .here _

theorem forLoop_succ {rest : List Token} (hts : .keyword .forWord :: rest <:+ all)
    (hSteps : 16 * rest.length + 10 ≤ n) :
    Ends all 1 (.keyword .forWord :: rest) (Script.statement (n + 1) (.keyword .forWord :: rest)) := by
  rw [Script.statement.eq_def]
  have hIn := (List.suffix_cons _ rest).trans hts
  refine Ends.cons (Nat.le_refl 1) ?_
  refine (Ends.takeMark _ rest).bind_eq (k := 0) (fun _ us hOpen hUs _ => ?_) (Nat.zero_le _)
  obtain rfl := takeMark_eq_ok hOpen
  have hIn := hUs.trans hIn
  refine (h.forInit hIn (by omega)).bind_eq (k := 0) (fun init vs hInit hVs _ => ?_) (Nat.zero_le _)
  refine (Ends.takeMark _ vs).bind_eq (k := 0) (fun _ ws hFirst hWs _ => ?_) (Nat.zero_le _)
  obtain rfl := takeMark_eq_ok hFirst
  have hIn := hWs.trans (hVs.trans hIn)
  refine (h.optionalExpression _ hIn (by omega)).bind_eq (k := 0) (fun test xs hTest hXs _ => ?_) (Nat.zero_le _)
  refine (Ends.takeMark _ xs).bind_eq (k := 0) (fun _ ys hSecond hYs _ => ?_) (Nat.zero_le _)
  obtain rfl := takeMark_eq_ok hSecond
  have hIn := hYs.trans (hXs.trans hIn)
  refine (h.optionalExpression _ hIn (by omega)).bind_eq (k := 0) (fun update zs hUpdate hZs _ => ?_)
    (Nat.zero_le _)
  have hHead : zs = [.mark .closeParen] → AwaitsBody all := by
    rintro rfl
    obtain ⟨inner, rfl⟩ := hZs.trans (hYs.trans (hXs.trans (hWs.trans hVs)))
    exact .inl ⟨_, .forLoop hInit hTest hUpdate, hts⟩
  refine Ends.closed (hZs.trans hIn) hHead fun after hAfter hAwaits _ => ?_
  exact (h.statement hAfter hAwaits (by omega)).andThen (Nat.zero_le _) fun body left _ _ => .here _

theorem whileLoop_succ {rest : List Token} (hts : .keyword .whileWord :: rest <:+ all)
    (hSteps : 16 * rest.length + 10 ≤ n) :
    Ends all 1 (.keyword .whileWord :: rest) (Script.statement (n + 1) (.keyword .whileWord :: rest)) := by
  rw [Script.statement.eq_def]
  refine Ends.cons (Nat.le_refl 1) ?_
  refine (Ends.takeMark _ rest).bind_eq (k := 0) (fun _ us hOpen hUs _ => ?_) (Nat.zero_le _)
  obtain rfl := takeMark_eq_ok hOpen
  have hIn := hUs.trans ((List.suffix_cons _ _).trans hts)
  refine (h.expression hIn (by omega)).bind_eq (k := 0) (fun test vs hTest hVs _ => ?_) (Nat.zero_le _)
  have hHead : vs = [.mark .closeParen] → AwaitsBody all := by
    rintro rfl
    obtain ⟨inner, rfl⟩ := hVs
    exact .inl ⟨_, .whileLoop hTest, hts⟩
  refine Ends.closed (hVs.trans hIn) hHead fun after hAfter hAwaits _ => ?_
  exact (h.statement hAfter hAwaits (by omega)).andThen (Nat.zero_le _) fun body left _ _ => .here _

theorem statement_succ (hts : ts <:+ all) (hAwaits : ts = [] → AwaitsBody all)
    (hSteps : 16 * ts.length + 10 ≤ n + 1) : Ends all 1 ts (Script.statement (n + 1) ts) := by
  rw [Script.statement.eq_def]
  dsimp only
  split
  · exact hAwaits rfl
  · rename_i name rest
    have hIn := ((List.suffix_cons _ rest).trans (List.suffix_cons _ _)).trans hts
    simp only [List.length_cons] at hSteps
    refine Ends.cons (Nat.le_refl 1) (Ends.cons (Nat.zero_le _) ?_)
    refine (Ends.params rest).andThen (Nat.le_refl 0) fun ps after hAfter hLength => ?_
    exact (h.block (hAfter.trans hIn) (by omega)).andThen (Nat.zero_le _) fun body left _ _ => .here _
  · rename_i rest
    rw [List.length_cons] at hSteps
    have hIf := h.ifElse_succ hts (by omega)
    rwa [Script.statement.eq_def] at hIf
  · rename_i rest
    rw [List.length_cons] at hSteps
    have hFor := h.forLoop_succ hts (by omega)
    rwa [Script.statement.eq_def] at hFor
  · rename_i rest
    rw [List.length_cons] at hSteps
    have hWhile := h.whileLoop_succ hts (by omega)
    rwa [Script.statement.eq_def] at hWhile
  · rename_i rest
    have hIn := (List.suffix_cons _ rest).trans hts
    rw [List.length_cons] at hSteps
    refine Ends.cons (Nat.le_refl 1) ?_
    split
    · exact .terminated _ rest
    · refine ((h.expression hIn (by omega)).map some).andThen (Nat.zero_le _) fun argument left _ _ => ?_
      exact .terminated _ left
  · exact (h.block hts (by omega)).andThen (Nat.le_refl 1) fun body left _ _ => .here _
  · exact .ok _ (List.suffix_cons _ _) (Nat.le_refl _)
  · rename_i t rest _ _ _ _ _ _ _
    have hIn := (List.suffix_cons t rest).trans hts
    split
    · rw [List.length_cons] at hSteps
      refine Ends.cons (Nat.le_refl 1) ?_
      exact (h.declaration _ hIn (by omega)).andThen (Nat.zero_le _) fun s left _ _ => .terminated s left
    · exact (h.expression hts (by omega)).andThen (Nat.le_refl 1) fun e left _ _ => .terminated _ left

end ReadersEnd

theorem readersEnd (all : List Token) (n : Nat) : ReadersEnd all n := by
  induction n with
  | zero => constructor <;> intros <;> omega
  | succ n ih =>
    exact ⟨ih.statement_succ, fun kind _ => ih.declaration_succ kind, ih.forInit_succ,
      fun m _ => ih.optionalExpression_succ m, ih.block_succ, ih.statements_succ, ih.expression_succ,
      ih.operation_succ, ih.operations_succ, ih.unary_succ, ih.withSuffix_succ,
      fun e _ => ih.accesses_succ e, ih.arguments_succ, ih.primary_succ⟩

/-- How a reader of programs ends. -/
def ProgramEnds (all : List Token) : Except ParseError Program → Prop
  | .ok _ => True
  | .error (.unexpected expected found left) => Notices all expected found left
  | .error .statementExpected => AwaitsBody all
  | .error .outOfSteps => False

theorem program_ends {all : List Token} (n : Nat) {ts : List Token} (hts : ts <:+ all)
    (hSteps : 16 * ts.length + 11 ≤ n) : ProgramEnds all (program n ts) := by
  induction n generalizing ts with
  | zero => omega
  | succ n ih =>
    rw [program]
    split
    · trivial
    · rename_i hNotEmpty
      have hStatement := (readersEnd all n).statement hts (by rintro rfl; simp at hNotEmpty) (by omega)
      cases hResult : statement n ts with
      | error e =>
        rw [hResult] at hStatement
        cases e with
        | unexpected => exact Notices.mono hStatement hts
        | statementExpected | outOfSteps => exact hStatement
      | ok found =>
        obtain ⟨s, rest⟩ := found
        rw [hResult] at hStatement
        have hLength := hStatement.2
        have hRest := ih (hStatement.1.trans hts) (by omega)
        change ProgramEnds all (program n rest >>= fun ss => pure (s :: ss))
        cases hProgram : program n rest with
        | ok ss => trivial
        | error e =>
          rw [hProgram] at hRest
          cases e <;> exact hRest

/-- To read a program never takes more steps than there are. If a statement is missing at the end, the
tokens end where one has to follow. -/
theorem parse_ends (ts : List Token) : ProgramEnds ts (parse ts) :=
  program_ends _ List.suffix_rfl (by rw [stepsFor]; omega)

/-- Reading comes to a program, to an error whose place is one of the tokens or their end, or to the missing
body of a condition or a loop. An error names what stands at its place, or what in front of it cannot be
assigned to. -/
theorem parse_cases (ts : List Token) :
    (∃ program, parse ts = .ok program) ∨
    (∃ expected found place, place ≤ ts.length ∧
      parse ts = .error (.unexpected expected found (ts.length - place)) ∧
      (found = foundAt (ts.drop place) ∨
        expected = .assignable ∧ ∃ e : Expr, e.toTarget? = none ∧ found = .named e.form)) ∨
    (parse ts = .error .statementExpected ∧ AwaitsBody ts) := by
  have hEnds := parse_ends ts
  cases hParse : parse ts with
  | ok program => exact .inl ⟨program, rfl⟩
  | error e =>
    rw [hParse] at hEnds
    cases e with
    | unexpected expected found left =>
      refine .inr (.inl ?_)
      cases hEnds with
      | @token expected rest h =>
        obtain ⟨before, rfl⟩ := h
        have hFound : foundAt rest = foundAt ((before ++ rest).drop before.length) := by rw [List.drop_left]
        exact ⟨expected, _, before.length, by simp, by simp, .inl hFound⟩
      | target hTarget h =>
        obtain ⟨before, rfl⟩ := h
        exact ⟨_, _, before.length, by simp, by simp, .inr ⟨rfl, _, hTarget, rfl⟩⟩
    | statementExpected => exact .inr (.inr ⟨rfl, hEnds⟩)
    | outOfSteps => exact hEnds.elim

example (a : String) :
    parse [.keyword .ifWord, .mark .openParen, .identifier a, .mark .closeParen] =
      .error .statementExpected := rfl

end PageRender.Script
