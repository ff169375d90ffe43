import Http1.Bytes

/-!
Blank characters, and text without them at its ends.

Method names, header fields and reason phrases are all kept trimmed and non-empty, which
`Trimmed` holds as proof fields. Main statement: trimming twice is trimming once.
-/

namespace Http1

/-- The Unicode property `White_Space`. -/
def isBlank (c : Char) : Bool :=
  let n := c.toNat
  (0x9 ≤ n && n ≤ 0xD) || n == 0x20 || n == 0x85 || n == 0xA0 || n == 0x1680 ||
    (0x2000 ≤ n && n ≤ 0x200A) || n == 0x2028 || n == 0x2029 || n == 0x202F || n == 0x205F ||
    n == 0x3000

def trimStart (t : Text) : Text := t.dropWhile isBlank

def trimEnd (t : Text) : Text := (trimStart t.reverse).reverse

/-- The text without the blanks at its two ends. -/
def trim (t : Text) : Text := trimEnd (trimStart t)

@[simp] theorem trim_nil : trim [] = [] := rfl

theorem trimStart_cons_of_not_blank {c : Char} {t : Text} (h : isBlank c = false) :
    trimStart (c :: t) = c :: t := by simp [trimStart, h]

theorem trimStart_trimStart (t : Text) : trimStart (trimStart t) = trimStart t := by
  induction t with
  | nil => rfl
  | cons c t ih =>
    by_cases h : isBlank c
    · simpa [trimStart, h] using ih
    · simp [trimStart, h]

theorem trimEnd_trimEnd (t : Text) : trimEnd (trimEnd t) = trimEnd t := by
  simp [trimEnd, trimStart_trimStart]

theorem trimStart_ends (t : Text) : trimStart t <:+ t := List.dropWhile_suffix _

theorem trimEnd_begins (t : Text) : trimEnd t <+: t := by
  have h := trimStart_ends t.reverse
  rwa [← List.reverse_prefix, List.reverse_reverse] at h

/-- Trimming takes off the ends only. -/
theorem trim_inside (t : Text) : trim t <:+: t :=
  (trimEnd_begins _).isInfix.trans (trimStart_ends t).isInfix

/-- A text that starts with a character in sight keeps that start when its end is trimmed. -/
theorem trimEnd_cons_of_not_blank {c : Char} {t : Text} (h : isBlank c = false) :
    ∃ u, trimEnd (c :: t) = c :: u := by
  have key : ∀ s : Text, ∃ u, trimStart (s ++ [c]) = u ++ [c] := by
    intro s
    induction s with
    | nil => exact ⟨[], by simp [trimStart, h]⟩
    | cons d s ih =>
      by_cases hd : isBlank d
      · obtain ⟨u, hu⟩ := ih
        exact ⟨u, by simpa [trimStart, hd] using hu⟩
      · exact ⟨d :: s, by simp [trimStart, hd]⟩
  obtain ⟨u, hu⟩ := key t.reverse
  exact ⟨u.reverse, by simp [trimEnd, hu]⟩

/-- Trimming twice is trimming once. -/
@[simp] theorem trim_trim (t : Text) : trim (trim t) = trim t := by
  have hs : trimStart (trim t) = trim t := by
    rcases h : trimStart t with _ | ⟨c, u⟩
    · rw [trim, h]; rfl
    · have hc : isBlank c = false := by
        have := List.head?_dropWhile_not isBlank t
        rw [show List.dropWhile isBlank t = c :: u from h] at this
        simpa using this
      obtain ⟨v, hv⟩ := trimEnd_cons_of_not_blank (t := u) hc
      rw [trim, h, hv, trimStart_cons_of_not_blank hc]
  have he : trimEnd (trim t) = trim t := trimEnd_trimEnd _
  show trimEnd (trimStart (trim t)) = trim t
  rw [hs, he]

/-- A text no character of which is blank is its own trimming. -/
theorem trim_of_no_blank {t : Text} (h : ∀ c ∈ t, isBlank c = false) : trim t = t := by
  have key : ∀ s : Text, (∀ c ∈ s, isBlank c = false) → trimStart s = s := by
    intro s hs
    cases s with
    | nil => rfl
    | cons c s => exact trimStart_cons_of_not_blank (hs c (by simp))
  simp [trim, trimEnd, key t h, key t.reverse (by simpa using h)]

/-- Text that is not empty and has no blank at either end. -/
structure Trimmed where
  text : Text
  ne_nil : text ≠ []
  trim_eq : trim text = text
  deriving DecidableEq

namespace Trimmed

/-- The trimmed form of a text, unless nothing is left of it. -/
def ofText? (t : Text) : Option Trimmed :=
  if h : trim t = [] then none else some ⟨trim t, h, trim_trim t⟩

theorem ofText?_eq_none_iff {t : Text} : ofText? t = none ↔ trim t = [] := by
  unfold ofText?; split <;> simp_all

theorem ofText?_eq_some_iff {t : Text} {s : Trimmed} : ofText? t = some s ↔ trim t = s.text := by
  obtain ⟨u, hu, hs⟩ := s
  unfold ofText?
  split
  · rename_i h
    simp only [reduceCtorEq, false_iff, h]
    exact fun hc => hu hc.symm
  · simp

/-- Trimmed text starts with a character in sight. -/
theorem exists_cons (s : Trimmed) : ∃ c t, s.text = c :: t ∧ isBlank c = false := by
  obtain ⟨text, hne, htrim⟩ := s
  cases text with
  | nil => exact absurd rfl hne
  | cons c t =>
    refine ⟨c, t, rfl, ?_⟩
    cases hc : isBlank c with
    | false => rfl
    | true =>
      -- a blank at the start would be gone
      have hstart : trimStart (c :: t) = trimStart t := by simp [trimStart, hc]
      have hle := (trimEnd_begins (trimStart t)).length_le
      have hle' := (trimStart_ends t).length_le
      rw [trim, hstart] at htrim
      rw [htrim, List.length_cons] at hle
      omega

@[simp] theorem ofText?_text (s : Trimmed) : ofText? s.text = some s :=
  ofText?_eq_some_iff.2 s.trim_eq

end Trimmed

end Http1
