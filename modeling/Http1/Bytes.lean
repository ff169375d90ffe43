/-!
Bytes on the wire and the text they stand for.

Received bytes are read one character per byte; text is written in UTF-8. The two agree on
ASCII, so an ASCII field comes out as it came in.
-/

namespace Http1

/-- Wire data, one entry per byte. -/
abbrev Bytes := List UInt8

/-- Text, one entry per Unicode scalar value. -/
abbrev Text := List Char

/-- Received bytes as text: byte `b` is the character of code point `b`. -/
def latin1 (b : Bytes) : Text := b.map Char.ofUInt8

/-- Text as written to the wire. -/
def utf8 (t : Text) : Bytes := t.flatMap String.utf8EncodeChar

/-- The text that bytes encode in UTF-8, if they do. -/
def utf8? (b : Bytes) : Option Text := b.toByteArray.utf8Decode?.map Array.toList

/-- The line end. -/
def crlf : Bytes := [13, 10]

@[simp] theorem utf8_nil : utf8 [] = [] := rfl

@[simp] theorem utf8_append (s t : Text) : utf8 (s ++ t) = utf8 s ++ utf8 t := by
  simp [utf8, List.flatMap_append]

theorem toNat_ofUInt8 (a : UInt8) : (Char.ofUInt8 a).toNat = a.toNat := UInt8.toNat_toUInt32 a

@[simp] theorem length_latin1 (b : Bytes) : (latin1 b).length = b.length := by simp [latin1]

end Http1
