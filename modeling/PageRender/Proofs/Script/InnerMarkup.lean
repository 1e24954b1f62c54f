import PageRender.Proofs.Document.Replacing
import PageRender.Proofs.Leading
import PageRender.Proofs.Markup.Sinking
import PageRender.Script.Session

/-! # The markup inside an element

A script that assigns the markup inside an element to itself has it read again. The document stays the
same if the content of the element comes back as it was.
-/

namespace PageRender.Script

open Markup Node

/-- The statement that assigns the markup inside an element, which has a name, to itself. -/
def rewriting (name : String) : Stmt :=
  .expression (.assign (.member (.name name) "innerHTML") (.member (.name name) "innerHTML"))

/-- Programs have no equality that is decided, but this one can be told from all others. -/
def isRewriting : Except Interrupt Program → Bool
  | .ok [.expression (.assign (.member (.name x) s) (.member (.name y) t))] =>
    x == "e" && s == "innerHTML" && y == "e" && t == "innerHTML"
  | _ => false

theorem eq_of_isRewriting {p : Except Interrupt Program} (h : isRewriting p = true) :
    p = .ok [rewriting "e"] := by
  unfold isRewriting at h
  split at h
  · simp only [Bool.and_eq_true, beq_iff_eq] at h
    obtain ⟨⟨⟨rfl, rfl⟩, rfl⟩, rfl⟩ := h
    rfl
  · cases h

theorem readProgram_rewriting : readProgram "e.innerHTML = e.innerHTML" = .ok [rewriting "e"] :=
  eq_of_isRewriting (by decide +kernel)

section

variable {r : Realm} {o : Expr} {id n : Nat}

theorem eval_name {name : String} {v : Value} (h : r.lookup? name = some v) (n : Nat) :
    eval (n + 1) (.name name) r = .ok v r := by
  rw [eval, readName, get_bind, h]
  rfl

theorem eval_innerMarkup (h : eval n o r = .ok (.element id) r) :
    eval (n + 1) (.member o "innerHTML") r = .ok (.string (r.page.dom.tree id).innerMarkup) r := by
  rw [eval, bind_ok h]
  rfl

theorem store_innerMarkup (h : eval n o r = .ok (.element id) r) (s : String) :
    store (n + 1) (.member o "innerHTML") (.string s) r =
      .ok () (r.onPage (·.changed (r.page.dom.replaceChildren id (parseFragment s)))) := by
  rw [store, bind_ok h]
  rfl

theorem exec_rewriting {name : String} (h : r.lookup? name = some (.element id)) (n : Nat) :
    exec (n + 4) (rewriting name) r =
      .ok (.value (.string (r.page.dom.tree id).innerMarkup)) (r.onPage (·.changed
        (r.page.dom.replaceChildren id (parseFragment (r.page.dom.tree id).innerMarkup)))) := by
  have hName := eval_name h n
  have hRead := eval_innerMarkup hName
  have hStore := store_innerMarkup hName (r.page.dom.tree id).innerMarkup
  have hAssign : eval (n + 3)
      (.assign (.member (.name name) "innerHTML") (.member (.name name) "innerHTML")) r =
        .ok (.string (r.page.dom.tree id).innerMarkup) (r.onPage (·.changed
          (r.page.dom.replaceChildren id (parseFragment (r.page.dom.tree id).innerMarkup)))) := by
    rw [eval, bind_ok hRead, bind_ok hStore]
    rfl
  rw [rewriting, exec, bind_ok hAssign]
  rfl

theorem runSource_rewriting (h : r.lookup? "e" = some (.element id)) :
    runSource "e.innerHTML = e.innerHTML" r =
      .ok (.string (r.page.dom.tree id).innerMarkup) (r.onPage (·.changed
        (r.page.dom.replaceChildren id (parseFragment (r.page.dom.tree id).innerMarkup)))) := by
  have hAll : execAll stepSupply .undefined [rewriting "e"] r =
      .ok (.value (.string (r.page.dom.tree id).innerMarkup)) (r.onPage (·.changed
        (r.page.dom.replaceChildren id (parseFragment (r.page.dom.tree id).innerMarkup)))) := by
    have hSteps : stepSupply = 999999995 + 4 + 1 := rfl
    rw [hSteps, execAll, bind_ok (exec_rewriting h 999999995)]
    rfl
  rw [runSource, readProgram_rewriting]
  simp only
  rw [evaluate, bind_ok hAll]
  rfl

end

/-- The content of an element comes back as it was if it is reversible, and then the document is the
same after its markup was assigned to itself. Among legible contents no others come back. -/
theorem innerMarkup_rewritten (source : String) {id : Nat} {e : Node Unit}
    (hNode : (Markup.parse source).root.descendants[id]? = some e) :
    (Dom.ofTree (Markup.parse source).root).tree id = (e.numberFrom id).1 ∧
    (e.Reversible → parseFragment e.innerMarkup = joinedForest e.children ∧
      ∀ r : Realm, r.page.dom = Dom.ofTree (Markup.parse source).root →
        r.lookup? "e" = some (.element id) →
          ∃ v r', runSource "e.innerHTML = e.innerHTML" r = .ok v r' ∧
            (r'.page.dom.tree 0).joined = (r.page.dom.tree 0).joined) ∧
    (AreLegible e.children → (parseFragment e.innerMarkup = joinedForest e.children ↔ e.Reversible)) := by
  have hLawful : e.All Node.Lawful :=
    (isDocument_parse source).lawful.of_mem (List.mem_of_getElem? hNode)
  have hTree := Dom.tree_of_getElem? hNode
  refine ⟨hTree, ?_, parseFragment_innerMarkup_iff hLawful⟩
  intro hReversible
  have hFragment := parseFragment_innerMarkup hLawful hReversible
  refine ⟨hFragment, ?_⟩
  intro r hDom hName
  refine ⟨_, _, runSource_rewriting hName, ?_⟩
  rw [hDom, hTree, innerMarkup_numberFrom, hFragment]
  have hSame := Dom.joined_tree_replaceChildren hNode (joinedForest_joinedForest e.children)
  rw [Dom.tree_ofTree, Node.numbered, joined_numberFrom]
  exact hSame

theorem innerMarkup_rewritten_sample :
    let source := "<div id='d'><p class='k l'>a<br></p></div>"
    let e := Node.element () "div" ⟨[("id", "d")]⟩
      [.element () "p" ⟨[("class", "k l")]⟩ [.text () "a", .element () "br" .empty []]]
    let r := Realm.setName { page := { dom := Dom.ofTree (Markup.parse source).root } } "e" (.element 3)
    (Markup.parse source).root.descendants[3]? = some e ∧ e.Reversible ∧
      parseFragment e.innerMarkup = joinedForest e.children ∧
      ∃ v r', runSource "e.innerHTML = e.innerHTML" r = .ok v r' ∧
        (r'.page.dom.tree 0).joined = (r.page.dom.tree 0).joined := by
  intro source e r
  have hRoot : (Markup.parse source).root =
      .element () "html" .empty [.bare "head", .element () "body" .empty [e]] := by decide +kernel
  have hNode : (Markup.parse source).root.descendants[3]? = some e := by
    have hHead : (Node.bare "head").descendants = [.bare "head"] := by
      rw [descendants_eq_cons]
      rfl
    rw [hRoot, descendants_eq_cons, Node.children, List.flatMap_cons, hHead, List.flatMap_cons,
      descendants_eq_cons (.element () "body" _ _), Node.children, List.flatMap_cons,
      descendants_eq_cons e]
    rfl
  have hLegible : AreLegible e.children :=
    ⟨by simp [e, Node.children], fun c hc => (isDocument_parse source).lawful.of_mem
      (mem_descendants_trans (mem_descendants_iff.mpr (.inr ⟨c, hc, c.mem_descendants_self⟩))
        (List.mem_of_getElem? hNode)), by decide +kernel⟩
  have hReversible : e.Reversible := hLegible.reversible (by decide +kernel) (by decide +kernel)
  obtain ⟨-, hRewritten, -⟩ := innerMarkup_rewritten source hNode
  obtain ⟨hFragment, hRun⟩ := hRewritten hReversible
  exact ⟨hNode, hReversible, hFragment, hRun r rfl rfl⟩

/-- The content of a node of a document, the node being told by its number, comes back as it was. -/
def ComesBack (source : String) (id : Nat) : Prop :=
  ∀ e, (Markup.parse source).root.descendants[id]? = some e →
    parseFragment e.innerMarkup = joinedForest e.children

theorem not_comesBack {source : String} {id : Nat}
    (h : ∃ e ∈ (Markup.parse source).root.descendants[id]?,
      parseFragment e.innerMarkup ≠ joinedForest e.children) : ¬ComesBack source id := by
  obtain ⟨e, he, hDiffers⟩ := h
  intro hSame
  exact hDiffers (hSame e he)

/-- Contents that do not come back: a void element with something behind it, one with an element of the
head behind it, a quotation mark in a value, a slash at the end of a tag, an element in plain content, a
bracket in plain content, and a head with attributes behind a body. -/
theorem innerMarkup_lost :
    ¬ComesBack "<p>a<br>b</p>" 2 ∧ ¬ComesBack "<body><br><link>" 2 ∧ ¬ComesBack "<b x='\"'></b>" 2 ∧
      ¬ComesBack "<b x//></b>" 2 ∧ ¬ComesBack "<script>a</script<b></b>" 1 ∧
      ¬ComesBack "<script>a<b</script>" 2 ∧
      ¬ComesBack "<body><html><head k></head><body></body><head></html>" 2 := by
  refine ⟨?_, ?_, ?_, ?_, ?_, ?_, ?_⟩
  all_goals
    apply not_comesBack
    decide +kernel

end PageRender.Script
