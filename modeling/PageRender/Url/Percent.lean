/-!
# Percent encoding

Letters, digits and a few marks stand for themselves. Of every other character each byte is written
as a percent sign and two hexadecimal digits.
-/

namespace PageRender.Url

def isPlain (c : Char) : Bool :=
  c.isAlphanum || c == '_' || c == '.' || c == '-' || c == '~' || c == '/'

def upperHexDigit (n : Nat) : Char :=
  (Nat.digitChar n).toUpper

def encodeByte (b : UInt8) : List Char :=
  ['%', upperHexDigit (b.toNat / 16), upperHexDigit (b.toNat % 16)]

def encodeChar (c : Char) : List Char :=
  if isPlain c then [c] else (String.utf8EncodeChar c).flatMap encodeByte

def percentEncoded (s : String) : String :=
  String.ofList (s.toList.flatMap encodeChar)

end PageRender.Url
