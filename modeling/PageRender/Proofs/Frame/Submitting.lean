import Mathlib.Data.List.Basic
import PageRender.Proofs.Frame.Passing
import PageRender.Proofs.Markup.Descendants
import PageRender.Proofs.Url.Decoding

/-! # Submitting forms

The body of a request that submits a form can be read back: the marks between the fields, and between the name
of a field and its value, are not among the characters that texts are written with. What is read are the fields
of the form as it stands once its listeners were told.
-/

namespace PageRender

open Script

theorem Url.cutAt_append {mark : Char} {before : List Char} (h : mark ∉ before) (after : List Char) :
    cutAt mark (before ++ mark :: after) = (before, after) := by
  have hBefore : ∀ c ∈ before, (c != mark) = true :=
    fun c hMem => bne_iff_ne.mpr fun hEq => h (hEq ▸ hMem)
  rw [cutAt, List.takeWhile_append_of_pos hBefore, List.dropWhile_append_of_pos hBefore]
  simp

/-! ## Reading a body -/

/-- The name of a field is in front of the first equals sign, and its value behind it. -/
def decodedField? (part : List Char) : Option (String × String) := do
  let (name, value) := Url.cutAt '=' part
  return (← Url.percentDecoded? name, ← Url.percentDecoded? value)

/-- The fields of a body. An empty one has none. -/
def decodedForm? (body : String) : Option (List (String × String)) :=
  if body.isEmpty then some [] else (body.toList.splitOn '&').mapM decodedField?

def fieldText (field : String × String) : List Char :=
  (Url.percentEncoded field.1).toList ++ '=' :: (Url.percentEncoded field.2).toList

theorem toList_formBody (fields : List (String × String)) :
    (formBody fields).toList = ['&'].intercalate (fields.map fieldText) := by
  have hText : ∀ field : String × String,
      (Url.percentEncoded field.1 ++ "=" ++ Url.percentEncoded field.2).toList = fieldText field := by
    intro field
    rw [String.toList_append, String.toList_append, List.append_assoc]
    rfl
  rw [formBody, String.toList_intercalate, List.map_map]
  exact congrArg _ (List.map_congr_left fun field _ => hText field)

theorem notMem_fieldText (field : String × String) : '&' ∉ fieldText field := by
  rw [fieldText, List.mem_append, List.mem_cons]
  rintro (hName | hMark | hValue)
  · exact Url.notMem_percentEncoded rfl _ hName
  · cases hMark
  · exact Url.notMem_percentEncoded rfl _ hValue

theorem decodedField?_fieldText (field : String × String) : decodedField? (fieldText field) = some field := by
  rw [decodedField?, fieldText, Url.cutAt_append (Url.notMem_percentEncoded rfl _)]
  simp only [Url.percentDecoded?_percentEncoded, Option.bind_eq_bind, Option.bind_some, Option.pure_def]

theorem mapM_decodedField? (fields : List (String × String)) :
    (fields.map fieldText).mapM decodedField? = some fields := by
  induction fields with
  | nil => rfl
  | cons field fields ih =>
    rw [List.map_cons, List.mapM_cons, decodedField?_fieldText, ih]
    rfl

/-- Whatever the names and values of the fields are, the body tells them all. -/
theorem decodedForm?_formBody (fields : List (String × String)) :
    decodedForm? (formBody fields) = some fields := by
  cases fields with
  | nil => rfl
  | cons field fields =>
    have hParts : (formBody (field :: fields)).toList.splitOn '&' = (field :: fields).map fieldText := by
      rw [toList_formBody]
      refine List.splitOn_intercalate '&' (fun part hPart => ?_) (List.cons_ne_nil _ _)
      obtain ⟨f, -, rfl⟩ := List.mem_map.mp hPart
      exact notMem_fieldText f
    have hNonempty : ¬ (formBody (field :: fields)).isEmpty = true := by
      intro hEmpty
      rw [String.isEmpty_iff.mp hEmpty] at hParts
      have hField : fieldText field = [] := (List.cons.inj hParts).1.symm
      rw [fieldText] at hField
      simp at hField
    rw [decodedForm?, if_neg hNonempty, hParts]
    exact mapM_decodedField? (field :: fields)

example : decodedForm? "a%26b=100%25&%C3%A9=" = some [("a&b", "100%"), ("é", "")] := by
  decide +kernel

/-! ## The fields of a form -/

namespace Node

variable {α : Type}

/-- An input with a name is a field. Without a value of its own, that is empty. -/
def ownField? : Node α → Option (String × String)
  | .text .. => none
  | .element _ tag as _ =>
    if tag = "input" then (as.get? "name").map fun name => (name, (as.get? "value").getD "") else none

mutual

/-- The fields of a tree in document order. -/
def fields : Node α → List (String × String)
  | .text .. => []
  | .element i t a children => (ownField? (.element i t a children)).toList ++ forestFields children

def forestFields : List (Node α) → List (String × String)
  | [] => []
  | n :: ns => fields n ++ forestFields ns

end

theorem forestFields_eq_flatMap (ns : List (Node α)) : forestFields ns = ns.flatMap fields := by
  induction ns with
  | nil => rfl
  | cons n ns ih => rw [forestFields, ih, List.flatMap_cons]

theorem fields_eq_append (n : Node α) : n.fields = n.ownField?.toList ++ n.children.flatMap fields := by
  cases n with
  | text => rfl
  | element i t a cs => rw [fields, forestFields_eq_flatMap, children]

theorem fields_eq_filterMap (n : Node α) : n.fields = n.descendants.filterMap ownField? := by
  induction n using inductionOnChildren with
  | step n ih =>
    have hBelow : n.children.flatMap fields = n.children.flatMap fun c => c.descendants.filterMap ownField? :=
      List.flatMap_congr ih
    rw [fields_eq_append, descendants_eq_cons, hBelow, List.filterMap_cons, List.filterMap_flatMap]
    cases n.ownField? <;> rfl

end Node

theorem Frame.formFields_eq (f : Frame) (form : NodeId) : f.formFields form = (f.dom.tree form).fields := by
  rw [formFields, Node.fields_eq_filterMap]
  refine List.filterMap_congr fun n _ => ?_
  cases n with
  | text => rfl
  | element i t a cs => simp [Node.ownField?, Node.hasTag, Node.tag?, Node.attribute?, Node.attributes]

/-! ## The request -/

/-- How a form is submitted. If no listener prevents that, the body of the request is read as the fields of the
form, unless the form has no action by then or one that is no address. -/
def SubmitEnds (f : Frame) (form : NodeId) : EStateM.Result Fault Frame (Option Navigation) → Prop
  | .ok none g => sendEvent "submit" form f = .ok true g
  | .ok (some request) h => ∃ g, sendEvent "submit" form f = .ok false g ∧ h.dom = g.dom ∧
      request.method = "POST" ∧ request.body.bind decodedForm? = some (g.dom.tree form).fields
  | .error e g => sendEvent "submit" form f = .error e g ∨ sendEvent "submit" form f = .ok false g ∧
      match g.dom.attribute? form "action" with
      | none => e = .missingKey "action"
      | some action => Url.resolve g.address action = .error e

/-- The body of a request that submits a form is read back as the fields of the form in document order, each
with its name and its value, or the empty text where it has no value. -/
theorem submitForm_ends (f : Frame) (form : NodeId) : SubmitEnds f form (submitForm form f) := by
  rw [submitForm]
  cases hTold : sendEvent "submit" form f with
  | error e g =>
    rw [bind_error hTold]
    exact .inl hTold
  | ok prevented g =>
    rw [bind_ok hTold]
    cases prevented with
    | true => exact hTold
    | false =>
      rw [if_neg Bool.false_ne_true, get_bind]
      cases hAction : g.dom.attribute? form "action" with
      | none => exact .inr ⟨hTold, by rw [hAction]⟩
      | some action =>
        dsimp only
        cases hUrl : Url.resolve g.address action with
        | error e => exact .inr ⟨hTold, by rw [hAction]; exact hUrl⟩
        | ok url =>
          have hBody : decodedForm? (formBody (g.formFields form)) = some (g.dom.tree form).fields := by
            rw [decodedForm?_formBody, g.formFields_eq]
          exact ⟨g, hTold, rfl, rfl, hBody⟩

end PageRender
