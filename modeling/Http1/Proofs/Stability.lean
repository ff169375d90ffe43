import Mathlib.Tactic.Lemma
import Http1.Framing

/-!
Stability of the readers.

A scanner that has found its value, or has found fault, on the first bytes of an input does the
same on the whole of it: what comes later is only left behind. Only a scanner that is pending may
change its mind. This holds of a token, it is kept by every way of composing scanners, and so it
holds of the lines of a head. The empty line is the exception: a lone carriage return is no empty
line yet, and a header may be tried in its place. It comes to nothing as long as a name may have
one byte, which is so once a header has been read.
-/

namespace Http1

namespace Scanner

variable {α β ε : Type}

/-- A scanner is **stable** when more bytes behind those that settled it change nothing. -/
structure Stable (p : Scanner ε α) : Prop where
  done : ∀ {b a r} (c : Bytes), p b = .ok (.done a r) → p (b ++ c) = .ok (.done a (r ++ c))
  error : ∀ {b e} (c : Bytes), p b = .error e → p (b ++ c) = .error e

variable {p : Scanner ε α}

lemma Stable.tryMap (hp : p.Stable) (f : α → Except ε β) : (p.tryMap f).Stable := by
  constructor
  · intro b a r c h
    rcases hs : p b with e | ⟨a', r'⟩ | r' <;>
      simp only [Scanner.tryMap, hs, Scan.tryMap, Except.ok.injEq, reduceCtorEq] at h
    rw [Scanner.tryMap, hp.done c hs]
    rcases hf : f a' with e | a'' <;>
      simp only [hf, Except.map, Except.ok.injEq, Scan.done.injEq, reduceCtorEq] at h
    obtain ⟨rfl, rfl⟩ := h
    simp only [Scan.tryMap, hf, Except.map]
  · intro b e c h
    rcases hs : p b with e' | ⟨a', r'⟩ | r' <;>
      simp only [Scanner.tryMap, hs, Scan.tryMap, Except.error.injEq, reduceCtorEq] at h
    · rw [Scanner.tryMap, hp.error c hs, h]
    · rw [Scanner.tryMap, hp.done c hs]
      rcases hf : f a' with e' | a'' <;>
        simp only [hf, Except.map, Except.error.injEq, reduceCtorEq] at h
      simp only [Scan.tryMap, hf, Except.map, h]

lemma Stable.andThen (hp : p.Stable) {f : α → Scanner ε β} (hf : ∀ a, (f a).Stable) :
    (p.andThen f).Stable := by
  constructor
  · intro b a r c h
    rcases hs : p b with e | ⟨a', r'⟩ | r' <;>
      simp only [Scanner.andThen, hs, Scan.andThen, Except.ok.injEq, reduceCtorEq] at h
    rw [Scanner.andThen, hp.done c hs]
    exact (hf a').done c h
  · intro b e c h
    rcases hs : p b with e' | ⟨a', r'⟩ | r' <;>
      simp only [Scanner.andThen, hs, Scan.andThen, Except.error.injEq, reduceCtorEq] at h
    · rw [Scanner.andThen, hp.error c hs, h]
    · rw [Scanner.andThen, hp.done c hs]
      exact (hf a').error c h

lemma map_eq_tryMap (p : Scanner ε α) (f : α → β) :
    p.map f = p.tryMap fun a => .ok (f a) := by
  funext b
  rcases hs : p b with e | ⟨a, r⟩ | r <;>
    simp [Scanner.map, Scanner.tryMap, hs, Except.map, Scan.map, Scan.tryMap]

lemma Stable.map (hp : p.Stable) (f : α → β) : (p.map f).Stable :=
  map_eq_tryMap p f ▸ hp.tryMap _

lemma whole_eq_done_iff {b r : Bytes} {a : α} :
    p.whole b = .ok (.done a r) ↔ p b = .ok (.done a r) := by
  rcases hs : p b with e | ⟨a', r'⟩ | r' <;> simp [Scanner.whole, hs, Except.map, Scan.orRewind]

lemma whole_eq_error_iff {b : Bytes} {e : ε} : p.whole b = .error e ↔ p b = .error e := by
  rcases hs : p b with e' | ⟨a', r'⟩ | r' <;> simp [Scanner.whole, hs, Except.map, Scan.orRewind]

lemma Stable.whole (hp : p.Stable) : p.whole.Stable where
  done c h := whole_eq_done_iff.2 (hp.done c (whole_eq_done_iff.1 h))
  error c h := whole_eq_error_iff.2 (hp.error c (whole_eq_error_iff.1 h))

end Scanner

/-! ### Tokens -/

lemma le_offsetFrom? {sep b : Bytes} {i k : Nat} (h : offsetFrom? sep i b = some k) : i ≤ k := by
  induction b generalizing i with
  | nil =>
    unfold offsetFrom? at h
    split at h <;> simp_all
  | cons x r ih =>
    unfold offsetFrom? at h
    split at h
    · exact Nat.le_of_eq (Option.some.inj h)
    · exact Nat.le_of_succ_le (ih h)

lemma offsetFrom?_append {sep b : Bytes} {i k : Nat} (c : Bytes)
    (h : offsetFrom? sep i b = some k) : offsetFrom? sep i (b ++ c) = some k := by
  induction b generalizing i with
  | nil =>
    unfold offsetFrom? at h
    split at h
    · rename_i hp
      have hnil : sep = [] := List.prefix_nil.1 (List.isPrefixOf_iff_prefix.1 hp)
      unfold offsetFrom?
      simpa [hnil] using h
    · simp at h
  | cons x r ih =>
    unfold offsetFrom? at h ⊢
    by_cases hp : sep.isPrefixOf (x :: r)
    · have hq : sep.isPrefixOf (x :: r ++ c) := List.isPrefixOf_iff_prefix.2
        ((List.isPrefixOf_iff_prefix.1 hp).trans (List.prefix_append _ _))
      rw [if_pos hp] at h
      rw [if_pos hq, h]
    · rw [if_neg hp] at h
      -- the separator fits behind `x`, so it does not start at `x` in the longer input either
      have hlen := offsetFrom?_le h
      have hk := le_offsetFrom? h
      have hq : ¬ sep.isPrefixOf (x :: r ++ c) = true := fun hq =>
        hp (List.isPrefixOf_iff_prefix.2 (List.prefix_of_prefix_length_le
          (List.isPrefixOf_iff_prefix.1 hq) (List.prefix_append _ _)
          (by simp only [List.length_cons]; omega)))
      rw [if_neg hq]
      exact ih h

/-- **A token is stable**: the window that decides about it only fills up. -/
theorem token_stable (sep : Bytes) (maxLen : Nat) (dropSep : Bool) :
    (token sep maxLen dropSep).Stable := by
  constructor
  · intro b a r c h
    unfold token at h ⊢
    split at h
    · rename_i i hi
      have hle := offsetFrom?_le hi
      simp only [List.length_take] at hle
      have hi' : offset? sep ((b ++ c).take (window sep maxLen)) = some i := by
        rw [List.take_append]
        exact offsetFrom?_append _ hi
      simp only [Except.ok.injEq, Scan.done.injEq] at h
      obtain ⟨rfl, rfl⟩ := h
      rw [hi']
      simp only [Except.ok.injEq, Scan.done.injEq]
      refine ⟨List.take_append_of_le_length (by omega), List.drop_append_of_le_length ?_⟩
      split <;> omega
    · split at h <;> simp at h
  · intro b e c h
    unfold token at h ⊢
    split at h
    · simp at h
    · rename_i hnone
      split at h
      · rename_i hw
        rw [List.take_append_of_le_length hw, hnone]
        simpa only [List.length_append, if_pos (Nat.le_add_right_of_le hw)] using h
      · simp at h

namespace Line

theorem request_stable (l : Lexicon) : (request l).Stable :=
  (((token_stable _ _ _).tryMap _).andThen fun _ =>
    ((token_stable _ _ _).tryMap _).andThen fun _ => ((token_stable _ _ _).tryMap _).map _).whole

theorem header_stable (l : Limits) : (header l).Stable :=
  ((token_stable _ _ _).andThen fun _ => (token_stable _ _ _).tryMap _).whole

/-- A header costs a name, for which the limits must have room. -/
lemma headerName_pos {l : Limits} {b r : Bytes} {h : Header}
    (hh : header l b = .ok (.done h r)) : 0 < l.headerName := by
  rw [header, Scanner.whole_eq_done_iff, Scanner.andThen] at hh
  rcases hn : token colon l.headerName true b with e | ⟨name, r'⟩ | r' <;>
    simp only [hn, Scan.andThen, Except.ok.injEq, reduceCtorEq] at hh
  rcases hv : token crlf l.headerValue true r' with e | ⟨value, r''⟩ | r'' <;>
    simp only [Scanner.tryMap, hv, Scan.tryMap, Except.ok.injEq, reduceCtorEq] at hh
  refine Nat.pos_of_ne_zero fun hzero => ?_
  have hname : name = [] := by
    unfold token at hn
    split at hn
    · rename_i i hi
      have hle := offsetFrom?_le hi
      have hw : window colon l.headerName ≤ 1 := by
        simp only [window, colon, List.length_singleton]
        omega
      rw [List.length_take, show colon.length = 1 from rfl] at hle
      simp only [Except.ok.injEq, Scan.done.injEq] at hn
      rw [← hn.1, show i = 0 by omega, List.take_zero]
    · split at hn <;> simp at hn
  subst hname
  simp [Header.make, latin1, Trimmed.ofText?, Except.map] at hh

/-- A byte that begins neither an empty line nor a name leaves a header pending. -/
lemma header_return_pending {l : Limits} (hl : 0 < l.headerName) :
    header l [13] = .ok (.pending [13]) := by
  have hw : 2 ≤ window colon l.headerName := by
    simp only [window, colon, List.length_singleton, maxSize, UInt64.size]
    omega
  have ht : token colon l.headerName true [13] = .ok (.pending [13]) := by
    unfold token
    rw [List.take_of_length_le (by simp only [List.length_singleton]; omega),
      show offset? colon [13] = none by decide]
    simp only [List.length_singleton, show ¬ window colon l.headerName ≤ 1 by omega, if_false]
  simp [header, Scanner.whole, Scanner.andThen, ht, Scan.andThen, Except.map, Scan.orRewind]

lemma empty_done_append {b r : Bytes} {a : Unit} (h : empty b = .ok (.done a r)) (c : Bytes) :
    empty (b ++ c) = .ok (.done a (r ++ c)) := by
  unfold empty at h
  split at h <;> cases h <;> rfl

/-- Only a lone carriage return may still become an empty line. -/
lemma empty_error_append {b : Bytes} {e : ParseError} (h : empty b = .error e) (hb : b ≠ [13])
    (c : Bytes) : empty (b ++ c) = .error e := by
  unfold empty at h
  split at h
  · cases h
  · cases h
  · cases h
  · rename_i h1 h2 h3
    cases h
    unfold empty
    split
    · rename_i rest heq
      rcases b with _ | ⟨x, _ | ⟨y, b⟩⟩ <;> simp_all
    · rename_i rest heq
      rcases b with _ | ⟨x, b⟩ <;> simp_all
    · simp_all
    · rfl

end Line

end Http1
