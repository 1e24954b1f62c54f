import PageRender.Sheet.Reader

/-!
# Stylesheets

The rules of a whole stylesheet, in order. A rule that cannot be read is skipped up to and with the
next closing brace.
-/

namespace PageRender

/-- The rules of a stylesheet and what was stepped over while reading it. -/
structure Stylesheet where
  rules : List Rule := []
  findings : List (Nat × Finding) := []

namespace Stylesheet

def readRules (s : Stylesheet) (cs : List Char) : Stylesheet :=
  match cs with
  | [] => s
  | c :: rest =>
    let r := Sheet.rule (c :: rest)
    match _h : r.outcome with
    | .ok (rules, after) =>
      readRules ⟨s.rules ++ rules, s.findings ++ r.findings⟩ (Sheet.skipBlank after)
    | .error f =>
      let s := ⟨s.rules, s.findings ++ r.findings ++ [(f.left, f.finding)]⟩
      match _h' : f.rest.dropWhile (· != '\x7d') with
      | [] => s
      | _ :: after => readRules s (Sheet.skipBlank after)
termination_by cs.length
decreasing_by
  · have := Sheet.length_rule_lt _h
    have := Sheet.length_skipBlank_le after
    omega
  · have := Sheet.length_rule_failure _h
    have h₂ := Sheet.length_dropWhile_le (· != '\x7d') f.rest
    have := Sheet.length_skipBlank_le after
    rw [_h', List.length_cons] at h₂
    omega

def read (cs : List Char) : Stylesheet :=
  readRules {} (Sheet.skipBlank cs)

def diagnosticsOf (length : Nat) (findings : List (Nat × Finding)) : List Diagnostic :=
  findings.map fun (left, finding) => ⟨.stylesheet, length - left, finding⟩

def parse (source : String) : List Rule × List Diagnostic :=
  let s := read source.toList
  (s.rules, diagnosticsOf source.length s.findings)

/-- The rules ordered by priority, those of one priority in their order in the text. -/
def byPriority (rules : List Rule) : List Rule :=
  rules.mergeSort fun a b => a.selector.priority ≤ b.selector.priority

end Stylesheet

end PageRender
