import PageRender.Proofs.Document.Lasting
import PageRender.Proofs.Script.Hosting

/-! # What scripts leave of the document

Of all that scripts do to a document, nothing takes a node away, moves one that was there or moves the focus,
and no attribute is taken away. What is no longer below an element is not put back there.
-/

namespace PageRender.Script

/-- The nodes of the page last, and the same ones have the focus. -/
structure Page.Lasts (p q : Page) : Prop where
  dom : p.dom.Lasts q.dom
  focus : q.dom.isFocused = p.dom.isFocused

theorem Page.Lasts.of_dom {p q : Page} (h : q.dom = p.dom) : p.Lasts q := by
  constructor
  · rw [h]
    exact refl_of Dom.Lasts p.dom
  · rw [h]

instance : IsPreorder Page Page.Lasts where
  refl _ := .of_dom rfl
  trans _ _ _ h k := ⟨trans_of Dom.Lasts h.dom k.dom, k.focus.trans h.focus⟩

theorem PageChange.lasts {p q : Page} (h : PageChange p q) : p.Lasts q := by
  cases h with
  | setAttribute node name value =>
    exact ⟨p.dom.lasts_setAttribute node name value, p.dom.isFocused_setAttribute node name value⟩
  | replaceChildren node nodes =>
    exact ⟨p.dom.lasts_replaceChildren node nodes, p.dom.isFocused_replaceChildren node nodes⟩
  | handle node =>
    rw [Page.withHandle]
    split <;> exact .of_dom rfl
  | dispatch | prevented | listener | timer | console | alert | journal => exact .of_dom rfl

theorem holdsAcross_lasts : HoldsAcross (Order.Preimage Realm.page Page.Lasts) where
  effects := Effects.onPage PageChange.lasts
  takeTask _ _ := .of_dom rfl

end PageRender.Script
