import Http1.Proofs.Stability

/-!
Fields and the separators behind them.

A token is read up to the first occurrence of its separator. Said without the search: the input
is the token, the separator and the rest, and the separator occurs nowhere before. A separator of
one byte may not occur in the token at all; a line end may not occur in it, and cannot stand
across its end either. Main statements: the lines of a head are exactly their fields with the
separators between them.
-/

namespace Http1

/-- The separator behind `t` is the first one. -/
def Clears (sep t : Bytes) : Prop := ∀ i < t.length, ¬ sep <+: (t ++ sep).drop i

/-- A field that its separator ends, within its bound and within what a length can be. -/
structure Field (sep : Bytes) (k : Nat) (t : Bytes) : Prop where
  clears : Clears sep t
  length_le : t.length ≤ k
  size_le : t.length + sep.length ≤ maxSize

def Unbroken (b : Bytes) : Prop := ¬ crlf <:+: b

variable {sep t b r : Bytes} {i k : Nat}

/-! ### The first occurrence -/

lemma prefix_drop_of_le (h : i + sep.length ≤ b.length) :
    sep <+: (b ++ r).drop i ↔ sep <+: b.drop i := by
  rw [List.drop_append_of_le_length (by omega)]
  refine ⟨fun hp => ?_, fun hp => hp.trans (List.prefix_append ..)⟩
  refine List.prefix_of_prefix_length_le hp (List.prefix_append ..) ?_
  rw [List.length_drop]
  omega

lemma offsetFrom?_eq_some_iff {m : Nat} :
    offsetFrom? sep k b = some m ↔
      ∃ i, m = k + i ∧ sep <+: b.drop i ∧ ∀ j < i, ¬ sep <+: b.drop j := by
  induction b generalizing k with
  | nil =>
    unfold offsetFrom?
    by_cases hp : sep.isPrefixOf []
    · have hp' := List.isPrefixOf_iff_prefix.1 hp
      rw [if_pos hp]
      constructor
      · intro h
        exact ⟨0, (Option.some.inj h).symm, hp', by omega⟩
      · rintro ⟨i, rfl, -, hfirst⟩
        rcases i with _ | i
        · rfl
        · exact absurd hp' (hfirst 0 (by omega))
    · rw [if_neg hp]
      have hp' : ¬ sep <+: [] := fun h => hp (List.isPrefixOf_iff_prefix.2 h)
      refine ⟨fun h => by simp at h, ?_⟩
      rintro ⟨i, -, hi, -⟩
      exact absurd (by simpa using hi) hp'
  | cons x b ih =>
    unfold offsetFrom?
    by_cases hp : sep.isPrefixOf (x :: b)
    · have hp' := List.isPrefixOf_iff_prefix.1 hp
      rw [if_pos hp]
      constructor
      · intro h
        exact ⟨0, (Option.some.inj h).symm, hp', by omega⟩
      · rintro ⟨i, rfl, -, hfirst⟩
        rcases i with _ | i
        · rfl
        · exact absurd hp' (hfirst 0 (by omega))
    · have hp' := fun h => hp (List.isPrefixOf_iff_prefix.2 h)
      rw [if_neg hp, ih]
      constructor
      · rintro ⟨i, rfl, hi, hfirst⟩
        refine ⟨i + 1, by omega, hi, fun j hj => ?_⟩
        rcases j with _ | j
        · exact hp'
        · exact hfirst j (by omega)
      · rintro ⟨i, rfl, hi, hfirst⟩
        rcases i with _ | i
        · exact absurd hi hp'
        · exact ⟨i, by omega, hi, fun j hj => hfirst (j + 1) (by omega)⟩

/-- The search finds the first occurrence. -/
theorem offset?_eq_some_iff :
    offset? sep b = some i ↔ sep <+: b.drop i ∧ ∀ j < i, ¬ sep <+: b.drop j := by
  simp [offset?, offsetFrom?_eq_some_iff]

lemma offset?_take_eq_some_iff {w : Nat} :
    offset? sep (b.take w) = some i ↔ offset? sep b = some i ∧ i + sep.length ≤ w := by
  constructor
  · intro h
    have hle := offsetFrom?_le h
    have hfirst := offsetFrom?_append (b.drop w) h
    rw [List.take_append_drop] at hfirst
    rw [List.length_take] at hle
    exact ⟨hfirst, by omega⟩
  · rintro ⟨h, hw⟩
    have hle := offsetFrom?_le h
    -- up to there the window and the input have the same occurrences
    have hin : ∀ j ≤ i, sep <+: b.drop j ↔ sep <+: (b.take w).drop j := by
      intro j hj
      have hj : sep <+: (b.take w ++ b.drop w).drop j ↔ sep <+: (b.take w).drop j :=
        prefix_drop_of_le (by rw [List.length_take]; omega)
      rwa [List.take_append_drop] at hj
    obtain ⟨hi, hfirst⟩ := offset?_eq_some_iff.1 h
    exact offset?_eq_some_iff.2
      ⟨(hin i (Nat.le_refl i)).1 hi, fun j hj hocc => hfirst j hj ((hin j (by omega)).2 hocc)⟩

lemma offset?_append_eq_some_iff :
    offset? sep b = some i ↔ ∃ t r, b = t ++ sep ++ r ∧ t.length = i ∧ Clears sep t := by
  rw [offset?_eq_some_iff]
  constructor
  · rintro ⟨⟨r, hr⟩, hfirst⟩
    have hb : b = b.take i ++ sep ++ r := by rw [List.append_assoc, hr, List.take_append_drop]
    have hlen : (b.take i).length = i := by
      have hsuffix := congrArg List.length hr
      rw [List.length_append, List.length_drop] at hsuffix
      rw [List.length_take]
      by_cases hi : i ≤ b.length
      · omega
      · -- past the end only the empty separator stands, and it stands at the start too
        have hsep : sep = [] := List.eq_nil_of_length_eq_zero (by omega)
        exact absurd (hsep ▸ List.nil_prefix) (hfirst 0 (by omega))
    refine ⟨b.take i, r, hb, hlen, fun j hj hocc => hfirst j (hlen ▸ hj) ?_⟩
    rw [hb]
    exact (prefix_drop_of_le (by rw [List.length_append]; omega)).2 hocc
  · rintro ⟨t, r, rfl, rfl, hclears⟩
    refine ⟨?_, fun j hj hocc => hclears j hj ?_⟩
    · rw [List.append_assoc, List.drop_left]
      exact List.prefix_append ..
    · exact (prefix_drop_of_le (by rw [List.length_append]; omega)).1 hocc

/-- **A token and its separator**: what is read off an input is what stands there before the first
separator, within the bound. -/
theorem token_eq_done_iff :
    token sep k true b = .ok (.done t r) ↔ b = t ++ sep ++ r ∧ Field sep k t := by
  have hwindow : ∀ n, n + sep.length ≤ window sep k ↔ n ≤ k ∧ n + sep.length ≤ maxSize := by
    intro n
    rw [window]
    omega
  constructor
  · intro h
    unfold token at h
    split at h
    · rename_i i hi
      obtain ⟨hi, hw⟩ := offset?_take_eq_some_iff.1 hi
      obtain ⟨t', r', rfl, rfl, hclears⟩ := offset?_append_eq_some_iff.1 hi
      have hrest : (t' ++ sep ++ r').drop (t'.length + sep.length) = r' := by
        rw [← List.length_append, List.drop_left]
      rw [if_pos rfl, hrest, List.append_assoc, List.take_left] at h
      obtain ⟨rfl, rfl⟩ : t' = t ∧ r' = r := by simpa using h
      obtain ⟨hk, hmax⟩ := (hwindow _).1 hw
      exact ⟨rfl, hclears, hk, hmax⟩
    · split at h <;> simp at h
  · rintro ⟨rfl, hclears, hk, hmax⟩
    have hi : offset? sep ((t ++ sep ++ r).take (window sep k)) = some t.length :=
      offset?_take_eq_some_iff.2
        ⟨offset?_append_eq_some_iff.2 ⟨t, r, rfl, rfl, hclears⟩, (hwindow _).2 ⟨hk, hmax⟩⟩
    have hrest : (t ++ sep ++ r).drop (t.length + sep.length) = r := by
      rw [← List.length_append, List.drop_left]
    simp only [token, hi, if_true, hrest]
    rw [List.append_assoc, List.take_left]

/-! ### Separators of one byte, and line ends -/

lemma singleton_prefix_iff {x : UInt8} : [x] <+: b ↔ b.head? = some x := by
  cases b with
  | nil => simp
  | cons y b => simp [eq_comm]

lemma clears_singleton_iff {x : UInt8} : Clears [x] t ↔ x ∉ t := by
  unfold Clears
  constructor
  · intro h hx
    obtain ⟨i, hi, rfl⟩ := List.mem_iff_getElem.1 hx
    refine h i hi ?_
    rw [singleton_prefix_iff, List.head?_drop, List.getElem?_append_left hi]
    exact List.getElem?_eq_getElem hi
  · intro h i hi hocc
    rw [singleton_prefix_iff, List.head?_drop, List.getElem?_append_left hi] at hocc
    exact h (List.mem_of_getElem? hocc)

lemma infix_iff_prefix_drop : sep <:+: b ↔ ∃ i, sep <+: b.drop i := by
  constructor
  · rintro ⟨a, c, rfl⟩
    refine ⟨a.length, ?_⟩
    rw [List.append_assoc, List.drop_left]
    exact List.prefix_append ..
  · rintro ⟨i, hi⟩
    exact hi.isInfix.trans (List.drop_suffix i b).isInfix

/-- A line end does not stand across the end of a field that has another one behind it. -/
lemma clears_crlf_iff : Clears crlf t ↔ Unbroken t := by
  unfold Clears Unbroken
  constructor
  · intro h hin
    obtain ⟨i, hi⟩ := infix_iff_prefix_drop.1 hin
    have hlen := hi.length_le
    rw [List.length_drop] at hlen
    simp only [crlf, List.length_cons, List.length_nil] at hlen
    exact h i (by omega) ((prefix_drop_of_le (by simp [crlf]; omega)).2 hi)
  · intro h i hi hocc
    by_cases hend : i + 2 ≤ t.length
    · exact h (infix_iff_prefix_drop.2 ⟨i, (prefix_drop_of_le hend).1 hocc⟩)
    · -- the last byte of the field, and the first of the line end behind it
      obtain ⟨x, hx⟩ : ∃ x, t.drop i = [x] := by
        rw [← List.length_eq_one_iff, List.length_drop]
        omega
      rw [List.drop_append_of_le_length (by omega), hx] at hocc
      simp [crlf] at hocc

lemma unbroken_append_cons {a c : Bytes} {x : UInt8} (h13 : x ≠ 13) (h10 : x ≠ 10) :
    Unbroken (a ++ x :: c) ↔ Unbroken a ∧ Unbroken c := by
  unfold Unbroken
  rw [← not_or]
  refine not_congr ?_
  constructor
  · intro h
    obtain ⟨i, hi⟩ := infix_iff_prefix_drop.1 h
    by_cases hleft : i + 2 ≤ a.length
    · exact .inl (infix_iff_prefix_drop.2 ⟨i, (prefix_drop_of_le hleft).1 hi⟩)
    · right
      by_cases hright : a.length < i
      · obtain ⟨j, rfl⟩ : ∃ j, i = a.length + (j + 1) := ⟨i - a.length - 1, by omega⟩
        rw [← List.drop_drop, List.drop_left, List.drop_succ_cons] at hi
        exact infix_iff_prefix_drop.2 ⟨j, hi⟩
      · -- the line end would hold the byte
        exfalso
        by_cases heq : i = a.length
        · subst heq
          rw [List.drop_left] at hi
          simp only [crlf, List.cons_prefix_cons] at hi
          exact h13 hi.1.symm
        · obtain ⟨y, hy⟩ : ∃ y, a.drop i = [y] := by
            rw [← List.length_eq_one_iff, List.length_drop]
            omega
          rw [List.drop_append_of_le_length (by omega), hy] at hi
          simp only [crlf, List.cons_append, List.nil_append, List.cons_prefix_cons] at hi
          exact h10 hi.2.1.symm
  · rintro (h | h)
    · exact h.trans (List.prefix_append ..).isInfix
    · exact h.trans ((List.suffix_cons ..).trans (List.suffix_append ..)).isInfix

/-! ### Lines -/

lemma unbroken_token (v : Version) : Unbroken v.token := by
  have hreturn : 13 ∉ v.token := by cases v <;> decide
  intro hend
  exact hreturn (hend.subset (by decide))

namespace Scanner

variable {ε α β : Type} {p : Scanner ε α} {y : β}

lemma tryMap_eq_done_iff {f : α → Except ε β} :
    p.tryMap f b = .ok (.done y r) ↔ ∃ x, p b = .ok (.done x r) ∧ f x = .ok y := by
  rcases hp : p b with e | ⟨x, r'⟩ | r' <;> simp only [Scanner.tryMap, hp, Scan.tryMap]
  · simp
  · rcases hf : f x with e | y'
    · simp only [Except.map, reduceCtorEq, false_iff]
      rintro ⟨x', hx, hy⟩
      cases hx
      simp [hf] at hy
    · simp only [Except.map, Except.ok.injEq, Scan.done.injEq]
      constructor
      · rintro ⟨rfl, rfl⟩
        exact ⟨x, ⟨rfl, rfl⟩, hf⟩
      · rintro ⟨x', ⟨rfl, rfl⟩, hy⟩
        exact ⟨Except.ok.inj (hf.symm.trans hy), rfl⟩
  · simp

lemma map_eq_done_iff {f : α → β} :
    p.map f b = .ok (.done y r) ↔ ∃ x, p b = .ok (.done x r) ∧ f x = y := by
  simp [map_eq_tryMap, tryMap_eq_done_iff]

lemma andThen_eq_done_iff {f : α → Scanner ε β} :
    p.andThen f b = .ok (.done y r) ↔ ∃ x c, p b = .ok (.done x c) ∧ f x c = .ok (.done y r) := by
  rcases hp : p b with e | ⟨x, c⟩ | c <;> simp only [Scanner.andThen, hp, Scan.andThen]
  · simp
  · constructor
    · intro h
      exact ⟨x, c, rfl, h⟩
    · rintro ⟨x', c', heq, h⟩
      cases heq
      exact h
  · simp

end Scanner

open Scanner

namespace Line

def requestBytes (m u : Bytes) (v : Version) : Bytes :=
  m ++ space ++ (u ++ space ++ (v.token ++ crlf))

def headerBytes (n v : Bytes) : Bytes := n ++ colon ++ (v ++ crlf)

variable {l : Limits}

lemma tryMap_token_eq_done_iff {β : Type} {f : Bytes → Except ParseError β} {y : β} :
    (token sep k true).tryMap f b = .ok (.done y r) ↔
      ∃ t, b = t ++ sep ++ r ∧ Field sep k t ∧ f t = .ok y := by
  simp only [tryMap_eq_done_iff, token_eq_done_iff, and_assoc]

lemma method_eq_done_iff {x : Method} :
    method l b = .ok (.done x r) ↔
      ∃ m, b = m ++ space ++ r ∧ Field space l.method m ∧ Method.ofToken? (latin1 m) = some x := by
  rw [method, tryMap_token_eq_done_iff]
  refine exists_congr fun m => ?_
  cases Method.ofToken? (latin1 m) <;> simp

lemma target_eq_done_iff {l : Lexicon} {x : Target} :
    target l b = .ok (.done x r) ↔
      ∃ u, b = u ++ space ++ r ∧ Field space l.target u ∧ l.target? u = some x := by
  rw [target, tryMap_token_eq_done_iff]
  refine exists_congr fun u => ?_
  cases l.target? u <;> simp

lemma version_eq_done_iff {x : Version} :
    version l b = .ok (.done x r) ↔
      b = x.token ++ crlf ++ r ∧ Field crlf l.version x.token := by
  rw [version, tryMap_token_eq_done_iff]
  constructor
  · rintro ⟨t, rfl, ht, hx⟩
    obtain rfl : t = x.token := by
      rw [← Version.ofToken?_eq_some_iff]
      cases hv : Version.ofToken? t <;> simp_all
    exact ⟨rfl, ht⟩
  · rintro ⟨rfl, hx⟩
    exact ⟨x.token, rfl, hx, by rw [Version.ofToken?_eq_some_iff.2 rfl]⟩

/-- **The request line of an input**: its three fields with their separators, each of them the
first behind its field. -/
theorem request_eq_done_iff {l : Lexicon} {line : RequestLine} :
    request l b = .ok (.done line r) ↔
      ∃ m u, b = requestBytes m u line.version ++ r ∧
        (Field space l.method m ∧ Method.ofToken? (latin1 m) = some line.method) ∧
        (Field space l.target u ∧ l.target? u = some line.target) ∧
        Field crlf l.version line.version.token := by
  obtain ⟨x, y, v⟩ := line
  simp only [request, whole_eq_done_iff, andThen_eq_done_iff, map_eq_done_iff, method_eq_done_iff,
    target_eq_done_iff, version_eq_done_iff, RequestLine.mk.injEq]
  constructor
  · rintro ⟨_, _, ⟨m, rfl, hm⟩, _, _, ⟨u, rfl, hu⟩, _, ⟨rfl, hv⟩, rfl, rfl, rfl⟩
    exact ⟨m, u, by simp [requestBytes], hm, hu, hv⟩
  · rintro ⟨m, u, rfl, hm, hu, hv⟩
    refine ⟨x, u ++ space ++ (v.token ++ crlf ++ r), ⟨m, ?_, hm⟩, y, v.token ++ crlf ++ r,
      ⟨u, rfl, hu⟩, v, ⟨rfl, hv⟩, rfl, rfl, rfl⟩
    simp [requestBytes]

/-- **The header line of an input**: a name, the first colon, a value, the first line end behind
it. -/
theorem header_eq_done_iff {h : Header} :
    header l b = .ok (.done h r) ↔
      ∃ n v, b = headerBytes n v ++ r ∧
        (Field colon l.headerName n ∧ trim (latin1 n) = h.name.text) ∧
        Field crlf l.headerValue v ∧ trim (latin1 v) = h.value.text := by
  rw [header, whole_eq_done_iff, andThen_eq_done_iff]
  constructor
  · rintro ⟨n, c, hname, hc⟩
    obtain ⟨rfl, hn⟩ := token_eq_done_iff.1 hname
    obtain ⟨v, rfl, hv, hh⟩ := tryMap_token_eq_done_iff.1 hc
    have hmake : Header.make (latin1 n) (latin1 v) = .ok h := by
      rcases hm : Header.make (latin1 n) (latin1 v) with e | x <;> rw [hm] at hh
      · cases hh
      · rw [Except.ok.inj hh]
    obtain ⟨htn, htv⟩ := Header.make_eq_ok_iff.1 hmake
    exact ⟨n, v, by simp [headerBytes], ⟨hn, htn⟩, hv, htv⟩
  · rintro ⟨n, v, rfl, ⟨hn, htn⟩, hv, htv⟩
    have hmake : Header.make (latin1 n) (latin1 v) = .ok h := Header.make_eq_ok_iff.2 ⟨htn, htv⟩
    refine ⟨n, v ++ crlf ++ r, token_eq_done_iff.2 ⟨by simp [headerBytes], hn⟩, ?_⟩
    exact tryMap_token_eq_done_iff.2 ⟨v, rfl, hv, by rw [hmake]⟩

end Line

end Http1
