import PageRender.Proofs.Frame.Passing
import PageRender.Proofs.Script.Hosting

/-! # What follows in a frame

Whatever scripts, listeners and callbacks do to a page that is observed, its document is still the
same as long as the count of its changes is. All that is done with a frame between two drawings goes
this way, a change to another page included, and none of it touches what was drawn.
-/

namespace PageRender

namespace Script

/-- The second page comes from the first, and if that was observed, no change went uncounted. -/
structure Page.Follows (p q : Page) : Prop where
  observed : p.observed = true → q.observed = true
  generation_le : p.generation ≤ q.generation
  dom : p.observed = true → q.generation = p.generation → q.dom = p.dom

namespace Page.Follows

theorem of_same {p q : Page} (hObserved : q.observed = p.observed)
    (hGeneration : q.generation = p.generation) (hDom : q.dom = p.dom) : p.Follows q :=
  ⟨fun h => hObserved.trans h, Nat.le_of_eq hGeneration.symm, fun _ _ => hDom⟩

theorem refl (p : Page) : p.Follows p :=
  of_same rfl rfl rfl

theorem trans {p q r : Page} (h : p.Follows q) (k : q.Follows r) : p.Follows r where
  observed hObserved := k.observed (h.observed hObserved)
  generation_le := Nat.le_trans h.generation_le k.generation_le
  dom hObserved hGeneration := by
    have hFirst := h.generation_le
    have hRest := k.generation_le
    rw [k.dom (h.observed hObserved) (by omega), h.dom hObserved (by omega)]

theorem changed (p : Page) (d : Dom) : p.Follows (p.changed d) := by
  refine ⟨id, ?_, fun hObserved hGeneration => ?_⟩
  · rw [Page.changed]
    dsimp only
    split <;> omega
  · simp only [Page.changed, hObserved, if_true] at hGeneration
    omega

theorem write (p : Page) (level : Level) (text : String) : p.Follows (p.write level text) :=
  of_same rfl rfl rfl

theorem fire (p : Page) (timer : Nat) : p.Follows (p.fire timer) := by
  rw [Page.fire]
  split
  · exact of_same rfl rfl rfl
  · exact refl p

end Page.Follows

theorem PageChange.follows {p q : Page} (h : PageChange p q) : p.Follows q := by
  cases h with
  | setAttribute | replaceChildren => exact .changed p _
  | handle node =>
    rw [Page.withHandle]
    split
    · exact .refl p
    · exact .of_same rfl rfl rfl
  | dispatch | prevented | listener | timer | console | alert | journal => exact .of_same rfl rfl rfl

/-- The page of the second realm follows that of the first. -/
def Realm.Follows (r s : Realm) : Prop :=
  r.page.Follows s.page

instance : IsPreorder Page Page.Follows where
  refl := .refl
  trans _ _ _ := .trans

instance : IsPreorder Realm Realm.Follows where
  refl r := .refl r.page
  trans _ _ _ h k := h.trans k

theorem Effects.follows {own : Bool} {r s : Realm} (h : Effects own r s) : r.Follows s :=
  h.onPage PageChange.follows

theorem holdsAcross_follows : HoldsAcross Realm.Follows where
  effects := Effects.follows
  takeTask _ _ := .of_same rfl rfl rfl

theorem Page.follows_forPage (p : Page) : p.Follows (Realm.forPage p).page :=
  (effects_forPage p).follows

end Script

open Script

namespace Frame

/-- What a frame was set up with. -/
def settings (f : Frame) : Option Float × FontSource Float × Option (FontShelf Float) × String :=
  (f.pageWidth, f.fonts, f.shelf, f.userSheet)

/-- What was last drawn, and the count of changes it was drawn at. -/
def drawn (f : Frame) : Option (DocumentBox Float) × List (Command Float) × Option Nat :=
  (f.document, f.display, f.rendered)

/-- The second frame comes from the first without a drawing. If no change was counted since then, it
has the same page. -/
structure Follows (f g : Frame) : Prop where
  settings : g.settings = f.settings
  drawn : g.drawn = f.drawn
  loaded : f.loaded = true → g.loaded = true
  observed : f.page.observed = true → g.page.observed = true
  generation_le : f.generation ≤ g.generation
  content : f.page.observed = true → g.generation = f.generation →
    g.authorSheet = f.authorSheet ∧ g.dom = f.dom

namespace Follows

variable {f g h : Frame}

theorem of_page (hSettings : g.settings = f.settings) (hDrawn : g.drawn = f.drawn)
    (hLoaded : g.loaded = f.loaded) (hSheet : g.authorSheet = f.authorSheet)
    (hPage : f.page.Follows g.page) : f.Follows g where
  settings := hSettings
  drawn := hDrawn
  loaded h := hLoaded.trans h
  observed := hPage.observed
  generation_le := hPage.generation_le
  content hObserved hGeneration := ⟨hSheet, hPage.dom hObserved hGeneration⟩

theorem refl (f : Frame) : f.Follows f :=
  of_page rfl rfl rfl rfl (.refl f.page)

theorem trans (hFirst : f.Follows g) (hRest : g.Follows h) : f.Follows h where
  settings := hRest.settings.trans hFirst.settings
  drawn := hRest.drawn.trans hFirst.drawn
  loaded hLoaded := hRest.loaded (hFirst.loaded hLoaded)
  observed hObserved := hRest.observed (hFirst.observed hObserved)
  generation_le := Nat.le_trans hFirst.generation_le hRest.generation_le
  content hObserved hGeneration := by
    have hLe := hFirst.generation_le
    have hLe' := hRest.generation_le
    obtain ⟨hSheet, hDom⟩ := hFirst.content hObserved (by omega)
    obtain ⟨hSheet', hDom'⟩ := hRest.content (hFirst.observed hObserved) (by omega)
    exact ⟨hSheet'.trans hSheet, hDom'.trans hDom⟩

end Follows

instance : IsPreorder Frame Follows where
  refl := .refl
  trans _ _ _ := .trans

theorem follows_onPage (f : Frame) {change : Page → Page} (h : f.page.Follows (change f.page)) :
    f.Follows (f.onPage change) :=
  .of_page rfl rfl rfl rfl h

theorem follows_record (e : TraceEvent String) (f : Frame) : f.Follows (f.record e) :=
  .of_page rfl rfl rfl rfl (.refl f.page)

theorem follows_write (f : Frame) (level : Level) (text : String) : f.Follows (f.write level text) :=
  f.follows_onPage (.write f.page level text)

theorem follows_changeDom (f : Frame) (change : Dom → Dom) : f.Follows (f.changeDom change) :=
  f.follows_onPage (.changed f.page _)

theorem follows_markChanged (f : Frame) : f.Follows f.markChanged :=
  f.follows_changeDom id

theorem follows_fire (f : Frame) (timer : Nat) : f.Follows (f.fire timer) := by
  rw [fire]
  split
  · exact .refl f
  · exact f.follows_onPage (.fire f.page _)

theorem follows_withoutFocus (f : Frame) : f.Follows f.withoutFocus := by
  rw [withoutFocus]
  split
  · exact .of_page rfl rfl rfl rfl (.changed f.page _)
  · exact .refl f

theorem follows_focusOn (f : Frame) (node : NodeId) : f.Follows (f.focusOn node) :=
  .of_page rfl rfl rfl rfl (.changed f.page _)

theorem follows_setValue (f : Frame) (node : NodeId) (value : String) :
    f.Follows (f.setValue node value) :=
  f.follows_changeDom _

theorem replacePage_page_follows (f : Frame) (document : Markup.Document) :
    Page.Follows
      { dom := .ofTree document.root, generation := f.generation + 1, journal := f.page.journal }
      (f.replacePage document).page := by
  simpa only [page, replacePage] using Page.follows_forPage _

/-- Another page counts as a change. -/
theorem follows_replacePage {f g : Frame} (hSettings : g.settings = f.settings)
    (hDrawn : g.drawn = f.drawn) (hGeneration : g.generation = f.generation)
    (document : Markup.Document) : f.Follows (g.replacePage document) := by
  have hPage := g.replacePage_page_follows document
  have hLt : f.generation < (g.replacePage document).generation :=
    Nat.lt_of_le_of_lt (Nat.le_of_eq hGeneration.symm) hPage.generation_le
  refine ⟨?_, ?_, fun _ => ?_, fun _ => hPage.observed rfl, Nat.le_of_lt hLt,
    fun _ hSame => absurd hSame (Nat.ne_of_gt hLt)⟩
  · rw [← hSettings]
    unfold settings replacePage
    rfl
  · rw [← hDrawn]
    unfold drawn replacePage
    rfl
  · unfold replacePage
    rfl

end Frame

section

variable {α : Type}

theorem stateAfter_inRealm (body : HostM α) (f : Frame) :
    stateAfter (inRealm body) f = { f with realm := stateAfter body f.realm } := by
  unfold stateAfter inRealm
  cases body f.realm <;> rfl

theorem leads_inRealm {body : HostM α} (hBody : Leads Realm.Follows body) :
    Leads Frame.Follows (inRealm body) := by
  intro f
  rw [stateAfter_inRealm]
  exact .of_page rfl rfl rfl rfl (hBody f.realm)

theorem leads_inCurrentRealm {body : HostM α} (hBody : Leads Realm.Follows body) :
    Leads Frame.Follows (inCurrentRealm body) :=
  leads_inRealm (.bind (.modify fun _ => .of_same rfl rfl rfl) fun _ => hBody)

end

/-- A page is opened in any frame, and no script has a part in it. -/
theorem openPage_ok (html address authorSheet : String) (f : Frame) :
    ∃ g, openPage html address authorSheet f = .ok () g ∧ f.Follows g ∧ g.loaded = true := by
  let g : Frame := { f with address, authorSheet, focus := none }
  let h := (g.record ⟨.start, "parse_html", "parse", []⟩).record ⟨.stop, "parse_html", "parse", []⟩
  let document := Markup.parse html
  have hParse : traced "parse_html" "parse" [] (pure document) g = .ok document h := rfl
  have hReplace : ∀ k : Frame, k.settings = f.settings → k.drawn = f.drawn →
      k.generation = f.generation → ∃ g, (modify (·.replacePage document) : FrameM Unit) k = .ok () g ∧
        f.Follows g ∧ g.loaded = true := by
    intro k hSettings hDrawn hGeneration
    refine ⟨_, rfl, Frame.follows_replacePage hSettings hDrawn hGeneration document, ?_⟩
    unfold Frame.replacePage
    rfl
  unfold openPage
  rw [modify_bind, bind_ok hParse, writeMarkupFindings]
  split
  · exact hReplace h rfl rfl rfl
  · exact hReplace (h.write _ _) rfl rfl rfl

theorem leads_openPage (html address authorSheet : String) :
    Leads Frame.Follows (openPage html address authorSheet) := by
  intro f
  obtain ⟨g, hOpen, hFollows, _⟩ := openPage_ok html address authorSheet f
  rwa [stateAfter_of_ok hOpen]

theorem passes_follows : Passes Frame.Follows where
  toPassesTrace := .of_record fun e f => f.follows_record e
  write := Frame.follows_write
  scripts f _ := .of_page rfl rfl rfl rfl (.refl f.page)
  markChanged := Frame.follows_markChanged
  withoutFocus := Frame.follows_withoutFocus
  focusOn := Frame.follows_focusOn
  setValue := Frame.follows_setValue
  fire := Frame.follows_fire
  openPage := leads_openPage
  runScript source name := leads_inCurrentRealm (holdsAcross_follows.leads (leads_runScript source name))
  dispatchEvent node type :=
    leads_inCurrentRealm (holdsAcross_follows.leads (leads_dispatchEvent node type))
  runPending := leads_inCurrentRealm holdsAcross_follows.leads_runPending

theorem leads_sendEvent (type : String) (node : NodeId) : Leads Frame.Follows (sendEvent type node) :=
  passes_follows.sendEvent type node

end PageRender
