import Http1.Bytes

/-!
Text in a column of fixed width: short text is padded with spaces, long text is left whole.
-/

namespace Http1

def alignRight (width : Nat) (t : Text) : Text := List.replicate (width - t.length) ' ' ++ t

def alignLeft (width : Nat) (t : Text) : Text := t ++ List.replicate (width - t.length) ' '

@[simp] theorem length_alignRight (width : Nat) (t : Text) :
    (alignRight width t).length = max width t.length := by
  simp [alignRight]; omega

@[simp] theorem length_alignLeft (width : Nat) (t : Text) :
    (alignLeft width t).length = max width t.length := by
  simp [alignLeft]; omega

end Http1
