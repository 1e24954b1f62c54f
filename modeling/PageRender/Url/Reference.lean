import PageRender.Url.Authority

/-!
# References

An address, or a part of one that is completed by the address of the page it stands on. What a
scheme allows is known for a fixed list of schemes; the empty scheme stands for a reference without
one.
-/

namespace PageRender

/-- The parts of an address. A part that is missing is empty. -/
structure Url where
  scheme : List Char := []
  authority : List Char := []
  path : List Char := []
  params : List Char := []
  query : List Char := []
  fragment : List Char := []
deriving DecidableEq

namespace Url

def relativeSchemes : List String := [
  "", "ftp", "http", "gopher", "nntp", "imap", "wais", "file", "https", "shttp", "mms", "prospero",
  "rtsp", "rtspu", "sftp", "svn", "svn+ssh", "ws", "wss"]

def authoritySchemes : List String := [
  "", "ftp", "http", "gopher", "nntp", "telnet", "imap", "wais", "file", "mms", "https", "shttp",
  "snews", "prospero", "rtsp", "rtspu", "rsync", "svn", "svn+ssh", "sftp", "nfs", "git",
  "git+ssh", "ws", "wss"]

def paramSchemes : List String := [
  "", "ftp", "hdl", "prospero", "http", "imap", "https", "shttp", "rtsp", "rtspu", "sip",
  "sips", "mms", "sftp", "tel"]

def isSchemeChar (c : Char) : Bool :=
  c.isAlphanum || c == '+' || c == '-' || c == '.'

/-- A character that may not be in front of a reference. -/
def isPadding (c : Char) : Bool :=
  c ≤ ' '

/-- A character that is not a part of a reference wherever it stands. -/
def isIgnored (c : Char) : Bool :=
  c == '\t' || c == '\r' || c == '\n'

def significant (cs : List Char) : List Char :=
  (cs.dropWhile isPadding).filter (!isIgnored ·)

/-- What is before and after the first character of a kind; without one, all is before it. -/
def cutAt (mark : Char) (cs : List Char) : List Char × List Char :=
  (cs.takeWhile (· != mark), (cs.dropWhile (· != mark)).drop 1)

def scheme? (cs : List Char) : Option (List Char × List Char) :=
  match cs.takeWhile (· != ':'), cs.dropWhile (· != ':') with
  | c :: name, _ :: rest =>
    if c.isAlpha && name.all isSchemeChar then some ((c :: name).map Char.toLower, rest) else none
  | _, _ => none

def endsAuthority (c : Char) : Bool :=
  c == '/' || c == '?' || c == '#'

def cutAuthority : List Char → List Char × List Char
  | '/' :: '/' :: rest => (rest.takeWhile (!endsAuthority ·), rest.dropWhile (!endsAuthority ·))
  | cs => ([], cs)

def cutParams (path : List Char) : List Char × List Char :=
  let segment := afterLast '/' path
  let (name, params) := cutAt ';' segment
  (path.take (path.length - segment.length) ++ name, params)

/-- The parts of a reference. A scheme is assumed where none is written. -/
def parse (assumed cs : List Char) : Except Fault Url := do
  let cs := significant cs
  let (scheme, rest) := (scheme? cs).getD (assumed, cs)
  let (authority, rest) := cutAuthority rest
  checkAuthority authority
  let (rest, fragment) := cutAt '#' rest
  let (path, query) := cutAt '?' rest
  let (path, params) :=
    if paramSchemes.contains (String.ofList scheme) then cutParams path else (path, [])
  return { scheme, authority, path, params, query, fragment }

/-- A part with the mark in front of it, unless it is empty. -/
def marked (mark : Char) (part : List Char) : List Char :=
  if part.isEmpty then [] else mark :: part

def showsAuthority (u : Url) (path : List Char) : Bool :=
  !u.authority.isEmpty ||
    (!u.scheme.isEmpty && authoritySchemes.contains (String.ofList u.scheme) &&
      !(['/', '/'].isPrefixOf path))

/-- The path with what is in front of it after the scheme. -/
def place (u : Url) : List Char :=
  let path := u.path ++ marked ';' u.params
  if u.showsAuthority path then
    let path := if path.isEmpty || path.head? == some '/' then path else '/' :: path
    ['/', '/'] ++ u.authority ++ path
  else path

def write (u : Url) : List Char :=
  (if u.scheme.isEmpty then [] else u.scheme ++ [':']) ++ u.place ++ marked '?' u.query ++
    marked '#' u.fragment

end Url

end PageRender
