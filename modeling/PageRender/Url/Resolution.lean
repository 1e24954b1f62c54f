import PageRender.Url.Reference

/-!
# Resolution

A reference on a page stands for an address. What it leaves out is taken from the address of the
page, and the segments `.` and `..` of its path are carried out.
-/

namespace PageRender.Url

/-- The path that is left when the segments of a path are carried out one after another. -/
def carryOut (segments : List (List Char)) : List (List Char) :=
  segments.foldl (fun done s =>
    if s == ['.', '.'] then done.dropLast else if s == ['.'] then done else done ++ [s]) []

def isDots (s : List Char) : Bool :=
  s == ['.'] || s == ['.', '.']

/-- The segments with the empty ones left out, except the first and the last. -/
def compact (segments : List (List Char)) : List (List Char) :=
  match segments with
  | [] => []
  | first :: rest =>
    match rest.getLast? with
    | none => [first]
    | some last => first :: (rest.dropLast.filter (!·.isEmpty)) ++ [last]

/-- The segments of the path of a page without the name of the page. -/
def directory (path : List Char) : List (List Char) :=
  let segments := path.splitOn '/'
  match segments.getLast? with
  | some [] => segments
  | _ => segments.dropLast

def resolvePath (page path : List Char) : List Char :=
  let segments :=
    if path.head? == some '/' then path.splitOn '/'
    else compact (directory page ++ path.splitOn '/')
  let done := carryOut segments
  let done := if (segments.getLast?.map isDots).getD false then done ++ [[]] else done
  match ['/'].intercalate done with
  | [] => ['/']
  | cs => cs

/-- What a reference leaves out, taken from a page with the same scheme. -/
def complete (page u : Url) : Url :=
  if !u.authority.isEmpty then u
  else if u.path.isEmpty && u.params.isEmpty then
    { u with
      authority := page.authority
      path := page.path
      params := page.params
      query := if u.query.isEmpty then page.query else u.query }
  else { u with authority := page.authority, path := resolvePath page.path u.path }

/-- The address that a reference stands for on a page with the given address. A reference that is
not relative to the page is its own address. -/
def resolve (page reference : String) : Except Fault String :=
  if page.isEmpty then .ok reference
  else if reference.isEmpty then .ok page
  else do
    let base ← parse [] page.toList
    let u ← parse base.scheme reference.toList
    if u.scheme == base.scheme && relativeSchemes.contains (String.ofList u.scheme) then
      return String.ofList (base.complete u).write
    else return reference

end PageRender.Url
