import Http1.Bytes

/-!
Comparison that ignores the case of ASCII letters, as header names and `Connection` tokens are
compared. Other letters keep their case.
-/

namespace Http1

/-- The text with its ASCII letters in lower case. -/
def foldCase (t : Text) : Text := t.map Char.toLower

/-- Equality up to the case of ASCII letters. -/
def sameFold (s t : Text) : Bool := foldCase s == foldCase t

theorem sameFold_iff {s t : Text} : sameFold s t = true ↔ foldCase s = foldCase t := by
  simp [sameFold]

@[simp] theorem sameFold_refl (t : Text) : sameFold t t = true := by simp [sameFold]

end Http1
