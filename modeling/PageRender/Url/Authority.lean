import PageRender.Url.Host

/-!
# Authorities

The part of an address that names a host, with a user in front and a port behind it. Brackets only
stand around a whole host, and no character may look like one of the marks that end an authority or
divide it.
-/

namespace PageRender.Url

/-- Characters that stand for a text with one of the marks `/`, `?`, `#`, `@` and `:` in it. -/
def markLookalikes : List Nat := [
  0x2047, 0x2048, 0x2049, 0x2100, 0x2101, 0x2105, 0x2106, 0x2a74, 0xfe13, 0xfe16, 0xfe55, 0xfe56,
  0xfe5f, 0xfe6b, 0xff03, 0xff0f, 0xff1a, 0xff1f, 0xff20]

/-- What follows the last character of a kind, or the whole text without one. -/
def afterLast (mark : Char) (cs : List Char) : List Char :=
  (cs.reverse.takeWhile (· != mark)).reverse

/-- Lets what follows the user in an authority pass if its brackets stand around a whole host.
Without brackets its host has to be one that may stand in them. -/
def checkPlace (place : List Char) : Except Fault Unit :=
  match place.span (· != '[') with
  | (before, []) => checkHost (before.takeWhile (· != ':'))
  | (_ :: _, _) => .error .misplacedBracket
  | ([], _ :: inside) =>
    match (inside.dropWhile (· != ']')).drop 1 with
    | [] | ':' :: _ => checkHost (inside.takeWhile (· != ']'))
    | _ => .error .misplacedBracket

def checkBrackets (authority : List Char) : Except Fault Unit :=
  match authority.contains '[', authority.contains ']' with
  | false, false => .ok ()
  | true, true => checkPlace (afterLast '@' authority)
  | _, _ => .error .misplacedBracket

def hasLookalike (authority : List Char) : Bool :=
  authority.any fun c => markLookalikes.contains c.toNat

def checkAuthority (authority : List Char) : Except Fault Unit := do
  checkBrackets authority
  if hasLookalike authority then throw (.ambiguousAuthority (String.ofList authority))

end PageRender.Url
