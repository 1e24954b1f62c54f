import PageRender.Url.Percent

/-! # Reading percent encoding

A percent sign and two hexadecimal digits are a byte, and what does not begin in this way is the bytes that
encode it. A text that was written with percent signs is read back as it was, because what it is written with
does not look like anything else.
-/

namespace PageRender.Url

def hexValue? (c : Char) : Option Nat :=
  if '0' ≤ c ∧ c ≤ '9' then some (c.toNat - '0'.toNat)
  else if 'A' ≤ c ∧ c ≤ 'F' then some (c.toNat - 'A'.toNat + 10)
  else if 'a' ≤ c ∧ c ≤ 'f' then some (c.toNat - 'a'.toNat + 10)
  else none

/-- The byte of a percent sign with these characters behind it, if they are hexadecimal digits. -/
def hexByte? (high low : Char) : Option UInt8 := do
  return UInt8.ofNat (16 * (← hexValue? high) + (← hexValue? low))

/-- The bytes that a text stands for. A percent sign without two digits behind it stands for itself. -/
def decodedBytes : List Char → List UInt8
  | [] => []
  | c :: rest =>
    match c, rest with
    | '%', high :: low :: rest =>
      match hexByte? high low with
      | some b => b :: decodedBytes rest
      | none => String.utf8EncodeChar '%' ++ decodedBytes (high :: low :: rest)
    | c, rest => String.utf8EncodeChar c ++ decodedBytes rest

/-- The text that a text stands for, unless its bytes encode none. -/
def percentDecoded? (cs : List Char) : Option String :=
  String.fromUTF8? (decodedBytes cs).toByteArray

theorem hexValue?_upperHexDigit {n : Nat} (h : n < 16) : hexValue? (upperHexDigit n) = some n := by
  have hAll : ∀ n < 16, hexValue? (upperHexDigit n) = some n := by decide
  exact hAll n h

theorem hexByte?_encodeByte (b : UInt8) :
    hexByte? (upperHexDigit (b.toNat / 16)) (upperHexDigit (b.toNat % 16)) = some b := by
  have hSize : b.toNat < 256 := b.toNat_lt
  have hHigh : b.toNat / 16 < 16 := by omega
  have hLow : b.toNat % 16 < 16 := by omega
  rw [hexByte?, hexValue?_upperHexDigit hHigh, hexValue?_upperHexDigit hLow]
  change some (UInt8.ofNat (16 * (b.toNat / 16) + b.toNat % 16)) = some b
  rw [Nat.div_add_mod, UInt8.ofNat_toNat]

theorem decodedBytes_of_ne {c : Char} (h : c ≠ '%') (rest : List Char) :
    decodedBytes (c :: rest) = String.utf8EncodeChar c ++ decodedBytes rest := by
  rw [decodedBytes]
  intro _ _ _ hEq
  exact absurd hEq h

theorem decodedBytes_encodeByte (b : UInt8) (rest : List Char) :
    decodedBytes (encodeByte b ++ rest) = b :: decodedBytes rest := by
  change decodedBytes ('%' :: _ :: _ :: rest) = _
  rw [decodedBytes, hexByte?_encodeByte]

theorem decodedBytes_encodeBytes (bs : List UInt8) (rest : List Char) :
    decodedBytes (bs.flatMap encodeByte ++ rest) = bs ++ decodedBytes rest := by
  induction bs with
  | nil => rfl
  | cons b bs ih => rw [List.flatMap_cons, List.append_assoc, decodedBytes_encodeByte, ih, List.cons_append]

theorem decodedBytes_encodeChar (c : Char) (rest : List Char) :
    decodedBytes (encodeChar c ++ rest) = String.utf8EncodeChar c ++ decodedBytes rest := by
  rw [encodeChar]
  split
  · rename_i hPlain
    refine decodedBytes_of_ne (fun hEq => ?_) rest
    rw [hEq] at hPlain
    exact absurd hPlain (by decide)
  · exact decodedBytes_encodeBytes _ rest

theorem decodedBytes_encodeChars (cs : List Char) :
    decodedBytes (cs.flatMap encodeChar) = cs.flatMap String.utf8EncodeChar := by
  induction cs with
  | nil => rfl
  | cons c cs ih => rw [List.flatMap_cons, List.flatMap_cons, decodedBytes_encodeChar, ih]

theorem percentDecoded?_percentEncoded (s : String) :
    percentDecoded? (percentEncoded s).toList = some s := by
  have hBytes : (decodedBytes (percentEncoded s).toList).toByteArray = s.toByteArray := by
    rw [percentEncoded, String.toList_ofList, decodedBytes_encodeChars]
    exact s.utf8Encode_toList
  rw [percentDecoded?, hBytes, String.fromUTF8?, dif_pos s.isValidUTF8]
  rfl

/-! ## What is not written -/

/-- The characters that a text is written with: those that stand for themselves, and the percent sign. -/
def isWritten (c : Char) : Bool :=
  isPlain c || c == '%'

theorem isWritten_upperHexDigit {n : Nat} (h : n < 16) : isWritten (upperHexDigit n) = true := by
  have hAll : ∀ n < 16, isWritten (upperHexDigit n) = true := by decide
  exact hAll n h

theorem isWritten_of_mem_encodeByte {b : UInt8} {c : Char} (h : c ∈ encodeByte b) : isWritten c = true := by
  have hSize : b.toNat < 256 := b.toNat_lt
  simp only [encodeByte, List.mem_cons, List.not_mem_nil, or_false] at h
  rcases h with rfl | rfl | rfl
  · rfl
  · exact isWritten_upperHexDigit (by omega)
  · exact isWritten_upperHexDigit (by omega)

theorem isWritten_of_mem_percentEncoded {s : String} {c : Char} (h : c ∈ (percentEncoded s).toList) :
    isWritten c = true := by
  rw [percentEncoded, String.toList_ofList, List.mem_flatMap] at h
  obtain ⟨d, -, hMem⟩ := h
  rw [encodeChar] at hMem
  split at hMem
  · rename_i hPlain
    rw [List.mem_singleton.mp hMem, isWritten, hPlain, Bool.true_or]
  · obtain ⟨b, -, hByte⟩ := List.mem_flatMap.mp hMem
    exact isWritten_of_mem_encodeByte hByte

theorem notMem_percentEncoded {mark : Char} (h : isWritten mark = false) (s : String) :
    mark ∉ (percentEncoded s).toList := fun hMem => by
  rw [isWritten_of_mem_percentEncoded hMem] at h
  cases h

end PageRender.Url
