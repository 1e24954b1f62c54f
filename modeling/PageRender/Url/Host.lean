import PageRender.Fault

/-!
# Hosts in brackets

A host between square brackets is an address of eight groups of hexadecimal digits, in which one run
of zero groups may be left out and the last two may be written as four octets, or an address of a
form that is still to come.
-/

namespace PageRender.Url

def isHexDigit (c : Char) : Bool :=
  c.isDigit || ('a' ≤ c && c ≤ 'f') || ('A' ≤ c && c ≤ 'F')

def isOctet (cs : List Char) : Bool :=
  !cs.isEmpty && cs.all Char.isDigit && cs.length ≤ 3 && (cs.head? != some '0' || cs == ['0']) &&
    cs.foldl (fun n c => 10 * n + (c.toNat - '0'.toNat)) 0 ≤ 255

def isFourOctets (cs : List Char) : Bool :=
  let octets := cs.splitOn '.'
  octets.length == 4 && octets.all isOctet

def isGroup (cs : List Char) : Bool :=
  !cs.isEmpty && cs.length ≤ 4 && cs.all isHexDigit

/-- The number of groups that are written one after another, if they are well formed. Four octets
count as two groups and come last, where they are allowed at all. -/
def groupCount? (octets : Bool) : List (List Char) → Option Nat
  | [] => some 0
  | [g] => if isGroup g then some 1 else if octets && isFourOctets g then some 2 else none
  | g :: gs => if isGroup g then (groupCount? octets gs).map (· + 1) else none

def groupsOf (cs : List Char) : List (List Char) :=
  if cs.isEmpty then [] else cs.splitOn ':'

/-- What is before and after the first pair of colons. -/
def cutAtPair? : List Char → Option (List Char × List Char)
  | ':' :: ':' :: rest => some ([], rest)
  | c :: rest => (cutAtPair? rest).map fun (before, after) => (c :: before, after)
  | [] => none

def isGroupAddress (cs : List Char) : Bool :=
  match cutAtPair? cs with
  | none => groupCount? true (groupsOf cs) == some 8
  | some (before, after) =>
    match groupCount? false (groupsOf before), groupCount? true (groupsOf after) with
    | some m, some n => m + n < 8
    | _, _ => false

def isZone (cs : List Char) : Bool :=
  !cs.isEmpty && !cs.contains '%'

/-- Whether a text is an address of eight groups, with or without a zone. -/
def isZonedAddress (cs : List Char) : Bool :=
  match cs.dropWhile (· != '%') with
  | [] => isGroupAddress cs
  | _ :: zone => isGroupAddress (cs.takeWhile (· != '%')) && isZone zone

def isVersioned (cs : List Char) : Bool :=
  match cs.dropWhile isHexDigit with
  | '.' :: address => cs.head?.any isHexDigit && !address.isEmpty
  | _ => false

def checkHost (cs : List Char) : Except Fault Unit :=
  match cs with
  | 'v' :: version => if isVersioned version then .ok () else .error .malformedVersion
  | _ =>
    if isFourOctets cs then .error .bracketedOctets
    else if isZonedAddress cs then .ok ()
    else .error (.unknownHost (String.ofList cs))

end PageRender.Url
