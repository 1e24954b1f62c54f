import PageRender.Proofs.Document.Numbers
import PageRender.Proofs.Frame.Leaving
import PageRender.Proofs.Script.Faults
import PageRender.Proofs.Script.TopLevel

/-! # The scripts of a page

A load draws the page and gives each of its script elements a turn, in document order and in the frame that
the turns before it left. A script that cannot be read or that fails leaves its warning, and the next has its
turn. Only a fault stops the load, in the turn where it comes up.
-/

namespace PageRender

open Script

/-- The turn of a script element: the frame that it finds, and the one that it leaves. -/
structure ScriptTurn where
  node : NodeId
  before : Frame
  after : Frame

namespace ScriptTurn

/-- The script that stands in the element when its turn comes. -/
def source (t : ScriptTurn) : String :=
  (t.before.dom.tree t.node).textContent

/-- What becomes of the turn with a number, and the fault that stops the load if there is one. The script is
run in the realm of its page, and nothing else of the frame has a part in it. A script that stands elsewhere
is only noted. -/
inductive Ends (t : ScriptTurn) (index : Nat) : Option Fault → Prop
  | ran {v : Value} {r : Realm} (hInline : t.before.dom.attribute? t.node "src" = none)
      (hRun : ScriptEnds t.source ("inline script #" ++ toString index) t.before.realm.refreshIds (.ok v r))
      (hAfter : ∃ tracer, t.after = { t.before with tracer, realm := r }) : Ends t index none
  | stopped {f : Fault} {r : Realm} (hInline : t.before.dom.attribute? t.node "src" = none)
      (hRun : ScriptEnds t.source ("inline script #" ++ toString index) t.before.realm.refreshIds (.error f r))
      (hAfter : ∃ tracer, t.after = { t.before with tracer, realm := r }) : Ends t index (some f)
  | noted {address url : String} (hElsewhere : t.before.dom.attribute? t.node "src" = some address)
      (hUrl : Url.resolve t.before.address address = .ok url)
      (hAfter : ∃ tracer, t.after =
        { t.before with tracer, externalScripts := t.before.externalScripts ++ [url] }) : Ends t index none
  | unresolved {address : String} {f : Fault}
      (hElsewhere : t.before.dom.attribute? t.node "src" = some address)
      (hUrl : Url.resolve t.before.address address = .error f) (hAfter : t.after = t.before) :
      Ends t index (some f)

end ScriptTurn

/-- Turns that follow each other from a frame to another, numbered from `index`. The last one may stop them. -/
inductive ScriptTurns : Nat → Frame → List ScriptTurn → Frame → Option Fault → Prop
  | done (index : Nat) (f : Frame) : ScriptTurns index f [] f none
  | next {index : Nat} {t : ScriptTurn} {ts : List ScriptTurn} {last : Frame} {stop : Option Fault}
      (turn : t.Ends index none) (rest : ScriptTurns (index + 1) t.after ts last stop) :
      ScriptTurns index t.before (t :: ts) last stop
  | stop {index : Nat} {t : ScriptTurn} {f : Fault} (turn : t.Ends index (some f)) :
      ScriptTurns index t.before [t] t.after (some f)

/-- The result of an action that ends in a frame, or is stopped there. -/
def endsIn (g : Frame) : Option Fault → EStateM.Result Fault Frame Unit
  | none => .ok () g
  | some f => .error f g

theorem runNamedScript_eq {f : Frame} (hLoaded : f.loaded = true) (source name : String) :
    ∃ tracer, runNamedScript source name f =
      match runScript source name f.realm.refreshIds with
      | .ok v r => .ok v { f with tracer, realm := r }
      | .error e r => .error e { f with tracer, realm := r } := by
  let started := f.record ⟨.start, "script", "script", [("script", name)]⟩
  have hRealm : (do modify Realm.refreshIds; runScript source name : HostM Value) started.realm =
      runScript source name f.realm.refreshIds := modify_bind _ _ _
  refine ⟨(started.record ⟨.stop, "script", "script", []⟩).tracer, ?_⟩
  refine (congrFun (if_pos hLoaded) f).trans ?_
  unfold traced withStage inCurrentRealm inRealm
  rw [hRealm]
  cases runScript source name f.realm.refreshIds <;> rfl

/-- Every script element has its turn, and the load goes on behind it unless it is stopped there. -/
theorem loadScript_turn {f : Frame} (hLoaded : f.loaded = true) (index : Nat) (node : NodeId) :
    ∃ after stop, ScriptTurn.Ends ⟨node, f, after⟩ index stop ∧ after.loaded = true ∧
      loadScript index node f = endsIn after stop := by
  unfold loadScript
  rw [get_bind]
  cases hSource : f.dom.attribute? node "src" with
  | some address =>
    dsimp only
    cases hUrl : Url.resolve f.address address with
    | error e => exact ⟨f, some e, .unresolved hSource hUrl rfl, hLoaded, rfl⟩
    | ok url =>
      let noted : Frame := { f with externalScripts := f.externalScripts ++ [url] }
      exact ⟨noted.record ⟨.instant, "external_script", "script", [("url", url)]⟩, none,
        .noted hSource hUrl ⟨_, rfl⟩, hLoaded, rfl⟩
  | none =>
    let source := (f.dom.tree node).textContent
    let name := "inline script #" ++ toString index
    obtain ⟨tracer, hNamed⟩ := runNamedScript_eq hLoaded source name
    have hEnds := runScript_ends source name f.realm.refreshIds
    cases hRun : runScript source name f.realm.refreshIds with
    | ok v r =>
      rw [hRun] at hNamed hEnds
      exact ⟨{ f with tracer, realm := r }, none, .ran hSource hEnds ⟨_, rfl⟩, hLoaded, bind_ok hNamed _⟩
    | error e r =>
      rw [hRun] at hNamed hEnds
      exact ⟨{ f with tracer, realm := r }, some e, .stopped hSource hEnds ⟨_, rfl⟩, hLoaded,
        bind_error hNamed _⟩

theorem loadScripts_turns {f : Frame} (hLoaded : f.loaded = true) (index : Nat) (nodes : List NodeId) :
    ∃ turns last stop, ScriptTurns index f turns last stop ∧ turns.map (·.node) <+: nodes ∧
      (stop = none → turns.map (·.node) = nodes) ∧ last.loaded = true ∧
      loadScripts index nodes f = endsIn last stop := by
  induction nodes generalizing index f with
  | nil => exact ⟨[], f, none, .done index f, List.prefix_rfl, fun _ => rfl, hLoaded, rfl⟩
  | cons node nodes ih =>
    obtain ⟨after, stop, hTurn, hAfter, hRun⟩ := loadScript_turn hLoaded index node
    rw [loadScripts]
    cases stop with
    | some e =>
      exact ⟨[⟨node, f, after⟩], after, some e, .stop hTurn, ⟨nodes, rfl⟩, (nomatch ·), hAfter,
        bind_error hRun _⟩
    | none =>
      obtain ⟨turns, last, stop, hTurns, hPrefix, hAll, hLast, hRest⟩ := ih hAfter (index + 1)
      refine ⟨⟨node, f, after⟩ :: turns, last, stop, .next hTurn hTurns, ?_, ?_, hLast, ?_⟩
      · exact List.cons_prefix_cons.mpr ⟨rfl, hPrefix⟩
      · intro hStop
        rw [List.map_cons, hAll hStop]
      · rw [bind_ok hRun, hRest]

/-- A turn loses nothing that was set up before, and the realm is ready for the next one. -/
theorem ScriptTurn.Ends.keeps {t : ScriptTurn} {index : Nat} {stop : Option Fault} (h : t.Ends index stop)
    (hReady : t.before.realm.Ready) :
    t.before.realm.KeepsSetUp t.after.realm ∧ t.after.realm.Ready := by
  have hIds : t.before.realm.refreshIds.Ready := ⟨hReady.current, hReady.outer, hReady.depth, hReady.kept⟩
  -- Whether it stops or not, an inline script did nothing to the realm but evaluate.
  have hRealm : ∀ {r : Realm}, Effects true t.before.realm.refreshIds r →
      (∃ tracer, t.after = { t.before with tracer, realm := r }) →
      t.before.realm.KeepsSetUp t.after.realm ∧ t.after.realm.Ready := by
    intro r hEffects hAfter
    obtain ⟨tracer, hAfter⟩ := hAfter
    rw [hAfter]
    have hStart : t.before.realm.KeepsSetUp t.before.realm.refreshIds :=
      ⟨⟨rfl, rfl, List.prefix_rfl⟩, fun _ _ => List.prefix_rfl⟩
    exact ⟨trans_of Realm.KeepsSetUp hStart hEffects.keepsSetUp, hEffects.ready hIds⟩
  cases h with
  | ran hInline hRun hAfter => exact hRealm hRun.effects hAfter
  | stopped hInline hRun hAfter => exact hRealm hRun.effects hAfter
  | noted hElsewhere hUrl hAfter =>
    obtain ⟨tracer, hAfter⟩ := hAfter
    rw [hAfter]
    exact ⟨refl_of Realm.KeepsSetUp _, hReady⟩
  | unresolved hElsewhere hUrl hAfter =>
    rw [hAfter]
    exact ⟨refl_of Realm.KeepsSetUp _, hReady⟩

theorem ScriptTurns.keeps {index : Nat} {f last : Frame} {turns : List ScriptTurn} {stop : Option Fault}
    (h : ScriptTurns index f turns last stop) (hReady : f.realm.Ready) :
    last.realm.Ready ∧ ∀ t ∈ turns, t.before.realm.Ready ∧ t.before.realm.KeepsSetUp t.after.realm := by
  induction h with
  | done index f => exact ⟨hReady, by simp⟩
  | next turn rest ih =>
    obtain ⟨hKeeps, hAfter⟩ := turn.keeps hReady
    obtain ⟨hLast, hRest⟩ := ih hAfter
    exact ⟨hLast, List.forall_mem_cons.mpr ⟨⟨hReady, hKeeps⟩, hRest⟩⟩
  | stop turn =>
    obtain ⟨hKeeps, hAfter⟩ := turn.keeps hReady
    exact ⟨hAfter, by simpa using ⟨hReady, hKeeps⟩⟩

/-! ## Loads -/

namespace Frame

/-- The frame has drawn a page of which no script was run yet. -/
structure Presents (f : Frame) (html : String) : Prop where
  loaded : f.loaded = true
  dom : f.dom = .ofTree (Markup.parse html).root
  drawn : f.needsRender = false
  ready : f.realm.Ready
  console : f.page.console = []

theorem Presents.tree {f : Frame} {html : String} (h : f.Presents html) :
    f.tree = (Markup.parse html).root.numbered := by
  rw [Frame.tree, h.dom, Dom.tree_ofTree]

theorem Presents.nodup_scriptElements {f : Frame} {html : String} (h : f.Presents html) :
    f.scriptElements.Nodup := by
  have hIds : (f.tree.descendants.map (·.info.id)).Nodup := by
    rw [h.tree, Node.numbered, Dom.ids_numberFrom]
    exact List.nodup_range'
  exact hIds.sublist ((List.filter_sublist).map _)

theorem needsRender_of_rendered {f : Frame} (h : f.rendered = some f.generation) : f.needsRender = false := by
  simp [needsRender, h]

theorem renderIfNeeded_ok {f : Frame} (hLoaded : f.loaded = true) :
    ∃ g, renderIfNeeded f = .ok () g ∧ g.needsRender = false := by
  unfold renderIfNeeded
  rw [get_bind]
  split
  · obtain ⟨tracer, hRender⟩ := exists_render_eq hLoaded
    exact ⟨_, hRender, needsRender_of_rendered rfl⟩
  · rename_i hClean
    exact ⟨f, rfl, by simpa using hClean⟩

theorem page_opening (html address authorSheet : String) (f : Frame) :
    let p := (f.opening html address authorSheet).page
    p.dom = .ofTree (Markup.parse html).root ∧ p.console = [] := by
  unfold page opening
  dsimp only
  rw [Realm.page_forPage]
  exact ⟨rfl, rfl⟩

theorem ready_opening (html address authorSheet : String) (f : Frame) :
    (f.opening html address authorSheet).realm.Ready := by
  unfold opening
  dsimp only
  apply Realm.ready_forPage
  rfl

/-- The first drawing presents the page that was opened. -/
theorem exists_render_presents {f : Frame} {html : String} (hLoaded : f.loaded = true)
    (hPage : f.page.dom = .ofTree (Markup.parse html).root ∧ f.page.console = []) (hReady : f.realm.Ready) :
    ∃ g, render f = .ok () g ∧ Presents { g with externalScripts := [] } html := by
  obtain ⟨tracer, hRender⟩ := exists_render_eq hLoaded
  exact ⟨_, hRender, hLoaded, hPage.1, needsRender_of_rendered rfl,
    ⟨hReady.current, hReady.outer, hReady.depth, hReady.kept⟩, hPage.2⟩

/-- A page is opened and drawn before any of its scripts is run. -/
theorem exists_presents (html address authorSheet : String) (f : Frame) :
    ∃ page : Frame, page.Presents html ∧ load html address authorSheet f =
      changing (record ⟨.stop, "frame_load", "load", []⟩) (finishLoad page) := by
  let started := f.record ⟨.start, "frame_load", "load", []⟩
  obtain ⟨tracer, hOpen⟩ := openPage_eq html address authorSheet started
  have hPage := page_opening html address authorSheet started
  have hReady := ready_opening html address authorSheet started
  have hLoaded : (started.opening html address authorSheet).loaded = true := rfl
  generalize started.opening html address authorSheet = k at hOpen hPage hReady hLoaded
  obtain ⟨g, hRender, hPresents⟩ := exists_render_presents (f := { k with tracer }) hLoaded hPage hReady
  exact ⟨_, hPresents, load_eq_of_render hOpen hRender⟩

theorem readProgram_digit : readProgram "²" = .error (.fault (.malformedNumber "²")) := by
  have hBlank : skipBlank "²".toList = ['²'] := by
    rw [show "²".toList = ['²'] from rfl, skipBlank, if_neg (by decide), if_neg (by decide)]
  have hRead : Numeral.read? "²" = none := by decide +kernel
  have hToken : readToken '²' [] = .error (.malformedNumber "²") := by
    rw [readToken, if_neg (by decide), if_pos (by decide), readNumber]
    dsimp only
    rw [show String.ofList ['²'] = "²" from rfl, readDouble?, hRead]
    rfl
  rw [readProgram, tokenize, tokens_eq_error hBlank hToken]

end Frame

end PageRender
