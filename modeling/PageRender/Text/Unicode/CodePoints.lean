/-!
# Code point sets and case maps

A set of code points is the ascending list of the points at which membership changes. A case map
is an ascending list of runs that share one offset, beside the few code points that grow.
-/

namespace PageRender.Text

/-- Membership in the set that starts empty and changes at every listed point. -/
def inBoundaries : List Nat → Nat → Bool
  | [], _ => false
  | b :: bs, c => if c < b then false else !inBoundaries bs c

/-- Every `stride`-th code point from `first` to `last` maps to itself plus `offset`. -/
structure CaseRun where
  first : Nat
  last : Nat
  stride : Nat
  offset : Int

/-- The image of a code point under the first run that holds it. -/
def caseImage? : List CaseRun → Nat → Option Nat
  | [], _ => none
  | run :: runs, c =>
    if c < run.first then none
    else if c ≤ run.last && (c - run.first) % run.stride == 0 then some (c + run.offset).toNat
    else caseImage? runs c

def caseImages (runs : List CaseRun) (expansions : List (Nat × List Nat)) (c : Char) :
    List Char :=
  match caseImage? runs c.toNat with
  | some image => [Char.ofNat image]
  | none => ((expansions.lookup c.toNat).map (·.map Char.ofNat)).getD [c]

def mapCase (runs : List CaseRun) (expansions : List (Nat × List Nat)) (s : String) : String :=
  String.ofList (s.toList.flatMap (caseImages runs expansions))

end PageRender.Text
