import Http1.Toml.Reader

/-!
Quoted text: on one line or on several, with escapes or taken to the letter.

A line end within quotes is a line feed, however it is written. In text on several lines one or
two quotes stand for themselves, also right before the closing three.
-/

namespace Http1.Toml

/-- The characters that a line may show: all but the controls, of which it may show the tab. -/
def isPlain (c : Char) : Bool := c = '\t' || (' ' ≤ c && c ≠ '\x7f')

def isHexDigit (c : Char) : Bool :=
  c.isDigit || ('a' ≤ c && c ≤ 'f') || ('A' ≤ c && c ≤ 'F')

/-- What a digit stands for, letters being digits past nine. -/
def digitValue (c : Char) : Nat :=
  if c.isDigit then c.toNat - 48 else c.toLower.toNat - 87

def digitsValue (base : Nat) (ds : Text) : Nat :=
  ds.foldl (fun n d => base * n + digitValue d) 0

/-- The character of a code point, in `n` hexadecimal digits. -/
def codePoint? (n : Nat) (t : Text) : Option (Char × Text) :=
  let ds := t.take n
  let v := digitsValue 16 ds
  if ds.length = n && ds.all isHexDigit && v.isValidChar then some (Char.ofNat v, t.drop n)
  else none

/-- What is escaped behind a backslash, and the text after it. -/
def escape? : Text → Option (Char × Text)
  | 'b' :: r => some ('\x08', r)
  | 't' :: r => some ('\t', r)
  | 'n' :: r => some ('\n', r)
  | 'f' :: r => some ('\x0c', r)
  | 'r' :: r => some ('\r', r)
  | '"' :: r => some ('"', r)
  | '\\' :: r => some ('\\', r)
  | 'u' :: r => codePoint? 4 r
  | 'U' :: r => codePoint? 8 r
  | _ => none

theorem length_codePoint?_le {n : Nat} {t r : Text} {c : Char}
    (h : codePoint? n t = some (c, r)) : r.length ≤ t.length := by
  unfold codePoint? at h
  dsimp only at h
  split at h
  · simp only [Option.some.injEq, Prod.mk.injEq] at h
    rw [← h.2, List.length_drop]
    omega
  · simp at h

theorem length_escape?_lt {t r : Text} {c : Char} (h : escape? t = some (c, r)) :
    r.length < t.length := by
  unfold escape? at h
  split at h <;>
    first
    | (simp only [Option.some.injEq, Prod.mk.injEq] at h
       simp [← h.2])
    | (have hle := length_codePoint?_le h
       simp only [List.length_cons]
       omega)
    | simp at h

/-- Text with escapes, up to the quote. -/
def basic? (t : Text) : Option (Text × Text) :=
  match t with
  | '"' :: r => some ([], r)
  | '\\' :: r =>
    match h : escape? r with
    | some (c, r') =>
      have := length_escape?_lt h
      (basic? r').map fun (s, r) => (c :: s, r)
    | none => none
  | c :: r => if isPlain c then (basic? r).map fun (s, r) => (c :: s, r) else none
  | [] => none
termination_by t.length

/-- Text to the letter, up to the quote. -/
def literal? : Text → Option (Text × Text)
  | '\x27' :: r => some ([], r)
  | c :: r => if isPlain c then (literal? r).map fun (s, r) => (c :: s, r) else none
  | [] => none

/-- The text behind a line end, if there is one. -/
def afterLineEnd? : Text → Option Text
  | '\n' :: r => some r
  | '\r' :: '\n' :: r => some r
  | _ => none

/-- The text without the gaps and line ends in front. -/
def skipLines : Text → Text
  | '\n' :: r => skipLines r
  | '\r' :: '\n' :: r => skipLines r
  | c :: r => if Reader.isGap c then skipLines r else c :: r
  | [] => []

theorem length_skipLines_le (t : Text) : (skipLines t).length ≤ t.length := by
  fun_induction skipLines t with
  | case1 r ih => exact Nat.le_succ_of_le ih
  | case2 r ih => exact Nat.le_succ_of_le (Nat.le_succ_of_le ih)
  | case3 c r _ _ hc ih => exact Nat.le_succ_of_le ih
  | case4 => exact Nat.le_refl _
  | case5 => exact Nat.le_refl _

theorem length_afterLineEnd?_lt {t r : Text} (h : afterLineEnd? t = some r) :
    r.length < t.length := by
  unfold afterLineEnd? at h
  split at h
  · cases h
    exact Nat.lt_succ_self _
  · cases h
    exact Nat.lt_succ_of_lt (Nat.lt_succ_self _)
  · cases h

/-- What follows a backslash at the end of a line: the rest of the line and all lines that show
nothing are left out. -/
def continued? (t : Text) : Option Text := (afterLineEnd? (t.dropWhile Reader.isGap)).map skipLines

theorem length_continued?_lt {t r : Text} (h : continued? t = some r) : r.length < t.length := by
  obtain ⟨u, hu, rfl⟩ := Option.map_eq_some_iff.1 h
  have h1 := length_afterLineEnd?_lt hu
  have h2 := length_skipLines_le u
  have h3 := (List.dropWhile_sublist (l := t) Reader.isGap).length_le
  omega

/-- Text with escapes on several lines, up to three quotes. -/
def basicLines? (t : Text) : Option (Text × Text) :=
  match t with
  | '"' :: '"' :: '"' :: '"' :: '"' :: r => some (['"', '"'], r)
  | '"' :: '"' :: '"' :: '"' :: r => some (['"'], r)
  | '"' :: '"' :: '"' :: r => some ([], r)
  | '\\' :: r =>
    match h : continued? r with
    | some r' =>
      have := length_continued?_lt h
      basicLines? r'
    | none =>
      match h : escape? r with
      | some (c, r') =>
        have := length_escape?_lt h
        (basicLines? r').map fun (s, r) => (c :: s, r)
      | none => none
  | '\r' :: '\n' :: r => (basicLines? r).map fun (s, r) => ('\n' :: s, r)
  | '\n' :: r => (basicLines? r).map fun (s, r) => ('\n' :: s, r)
  | c :: r => if isPlain c then (basicLines? r).map fun (s, r) => (c :: s, r) else none
  | [] => none
termination_by t.length

/-- Text to the letter on several lines, up to three quotes. -/
def literalLines? : Text → Option (Text × Text)
  | '\x27' :: '\x27' :: '\x27' :: '\x27' :: '\x27' :: r => some (['\x27', '\x27'], r)
  | '\x27' :: '\x27' :: '\x27' :: '\x27' :: r => some (['\x27'], r)
  | '\x27' :: '\x27' :: '\x27' :: r => some ([], r)
  | '\r' :: '\n' :: r => (literalLines? r).map fun (s, r) => ('\n' :: s, r)
  | '\n' :: r => (literalLines? r).map fun (s, r) => ('\n' :: s, r)
  | c :: r => if isPlain c then (literalLines? r).map fun (s, r) => (c :: s, r) else none
  | [] => none

namespace Reader

/-- Quoted text on one line. -/
def quotedLine : Reader Text := fun t =>
  match t with
  | '"' :: r => basic? r
  | '\x27' :: r => literal? r
  | _ => none

/-- Quoted text; a line end right behind three opening quotes does not count. -/
def quotedText : Reader Text := fun t =>
  match t with
  | '"' :: '"' :: '"' :: r => basicLines? ((afterLineEnd? r).getD r)
  | '\x27' :: '\x27' :: '\x27' :: r => literalLines? ((afterLineEnd? r).getD r)
  | _ => quotedLine t

end Reader

end Http1.Toml
