import PageRender.Text.Quoted
import PageRender.Url.Percent

/-!
# Paths of files

A path is a list of segments below the working directory or below the root. Empty segments and
single dots are left out.
-/

namespace PageRender.CommandLine

/-- A path: what it starts with, and its segments. -/
structure Path where
  root : String
  segments : List String
deriving DecidableEq

namespace Path

/-- The path that a text stands for. A root of two slashes is not the same as one of another number
of them. -/
def parse (s : String) : Path :=
  let slashes := (s.toList.takeWhile (· == '/')).length
  let segments := (s.toList.splitOn '/').filter fun p => !p.isEmpty && p != ['.']
  ⟨if slashes == 0 then "" else if slashes == 2 then "//" else "/", segments.map String.ofList⟩

def text (p : Path) : String :=
  if p.root.isEmpty && p.segments.isEmpty then "." else p.root ++ "/".intercalate p.segments

/-- The segments below the root, seen from a working directory, after going up where a segment says
so. -/
def absolute (directory : List String) (p : Path) : List String :=
  ((if p.root.isEmpty then directory else []) ++ p.segments).foldl
    (fun done s => if s == ".." then done.dropLast else done ++ [s]) []

def url (directory : List String) (p : Path) : String :=
  Url.percentEncoded ("/" ++ "/".intercalate (p.absolute directory))

end Path

/-- Why a file cannot be read. -/
inductive FileProblem where
  | notFound
  | notDirectory
  | isDirectory
  | nameTooLong
  | other (description : String)
deriving DecidableEq

def FileProblem.message (p : FileProblem) (path : String) : String :=
  (match p with
    | notFound => "[Errno 2] No such file or directory"
    | notDirectory => "[Errno 20] Not a directory"
    | isDirectory => "[Errno 21] Is a directory"
    | nameTooLong => "[Errno 36] File name too long"
    | other description => description) ++ ": " ++ Text.quoted path

/-- Where the contents of files come from. -/
abbrev FileSource := Path → Except FileProblem ByteArray

/-- Files by their paths below a working directory that holds nothing else. -/
structure FileTree where
  files : List (String × ByteArray) := []

namespace FileTree

/-- What is at a place of a tree. -/
inductive Entry where
  | file (content : ByteArray)
  | directory

def entry? (t : FileTree) (place : List String) : Option Entry :=
  match t.files.find? fun f => (Path.parse f.1).segments == place with
  | some (_, content) => some (.file content)
  | none =>
    if place.isEmpty || t.files.any fun f => place.isPrefixOf (Path.parse f.1).segments then
      some .directory
    else none

/-- The most bytes that the name of a file may have. -/
def maxNameSize : Nat := 255

def walk (t : FileTree) (place : List String) : List String → Except FileProblem Entry
  | [] =>
    match t.entry? place with
    | some e => .ok e
    | none => .error .notFound
  | s :: rest =>
    match t.entry? place with
    | none => .error .notFound
    | some (.file _) => .error .notDirectory
    | some .directory =>
      if maxNameSize < s.utf8ByteSize then .error .nameTooLong
      else if s == ".." then walk t place.dropLast rest
      else walk t (place ++ [s]) rest

def read (t : FileTree) : FileSource := fun p =>
  if !p.root.isEmpty then .error (if p.segments.isEmpty then .isDirectory else .notFound)
  else
    match t.walk [] p.segments with
    | .error e => .error e
    | .ok (.file content) => .ok content
    | .ok .directory => .error .isDirectory

end FileTree

end PageRender.CommandLine
