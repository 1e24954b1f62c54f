/-!
# Maps in order of insertion

A key that is set again keeps its first place and takes the new value; a key that is erased and
set again moves to the end.
-/

namespace PageRender

/-- Pairs in the order in which their keys were first set. -/
structure OrderedMap (κ ν : Type) where
  entries : List (κ × ν) := []
deriving DecidableEq

namespace OrderedMap

variable {κ ν : Type} [BEq κ]

def setEntry (k : κ) (v : ν) : List (κ × ν) → List (κ × ν)
  | [] => [(k, v)]
  | (k', v') :: rest => if k' == k then (k', v) :: rest else (k', v') :: setEntry k v rest

def empty : OrderedMap κ ν := ⟨[]⟩

def get? (m : OrderedMap κ ν) (k : κ) : Option ν :=
  m.entries.lookup k

def getD (m : OrderedMap κ ν) (k : κ) (default : ν) : ν :=
  (m.get? k).getD default

def contains (m : OrderedMap κ ν) (k : κ) : Bool :=
  (m.get? k).isSome

def insert (m : OrderedMap κ ν) (k : κ) (v : ν) : OrderedMap κ ν :=
  ⟨setEntry k v m.entries⟩

def erase (m : OrderedMap κ ν) (k : κ) : OrderedMap κ ν :=
  ⟨m.entries.filter fun e => !(e.1 == k)⟩

def keys (m : OrderedMap κ ν) : List κ :=
  m.entries.map Prod.fst

def size (m : OrderedMap κ ν) : Nat :=
  m.entries.length

def ofList (pairs : List (κ × ν)) : OrderedMap κ ν :=
  pairs.foldl (fun m e => m.insert e.1 e.2) empty

end OrderedMap

end PageRender
