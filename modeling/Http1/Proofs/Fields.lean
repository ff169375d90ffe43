import Http1.Proofs.Delimited

/-!
How a field stands at the front of some bytes.

A field is complete when the separator behind it has come and starts within the bound. As long as
it has not, the bytes lack it: there may be so many of them that it cannot come any more, or the
field is still under way. Main statement: a token is read, refused or waited for in just these
cases.
-/

namespace Http1

/-- The field `t` of at most `k` bytes, its separator, and then `r`. -/
structure Complete (sep : Bytes) (k : Nat) (b t r : Bytes) : Prop where
  eq : b = t ++ sep ++ r
  clears : Clears sep t
  length_le : t.length ≤ k

def Lacks (sep : Bytes) (k : Nat) (b : Bytes) : Prop := ∀ i ≤ k, ¬ sep <+: b.drop i

/-- The separator cannot come within the bound any more. -/
def Overruns (sep : Bytes) (k : Nat) (b : Bytes) : Prop :=
  Lacks sep k b ∧ k + sep.length ≤ b.length

variable {sep b t r t' r' : Bytes} {k : Nat}

lemma Complete.size_le (h : Complete sep k b t r) : t.length + sep.length ≤ b.length := by
  have hlen := congrArg List.length h.eq
  simp only [List.length_append] at hlen
  omega

lemma Complete.rest_le (h : Complete sep k b t r) : r.length ≤ b.length := by
  have hlen := congrArg List.length h.eq
  simp only [List.length_append] at hlen
  omega

lemma Complete.not_lacks (h : Complete sep k b t r) : ¬ Lacks sep k b := by
  intro hlacks
  refine hlacks t.length h.length_le ?_
  rw [h.eq, List.append_assoc, List.drop_left]
  exact List.prefix_append ..

/-- A separator that starts somewhere starts somewhere first. -/
lemma exists_offset? {i : Nat} (h : sep <+: b.drop i) : ∃ j ≤ i, offset? sep b = some j := by
  induction i using Nat.strongRecOn with
  | _ i ih =>
    by_cases hfirst : ∃ j < i, sep <+: b.drop j
    · obtain ⟨j, hj, hocc⟩ := hfirst
      obtain ⟨m, hm, hoffset⟩ := ih j hj hocc
      exact ⟨m, by omega, hoffset⟩
    · exact ⟨i, Nat.le_refl i, offset?_eq_some_iff.2 ⟨h, fun j hj hocc => hfirst ⟨j, hj, hocc⟩⟩⟩

lemma complete_or_lacks (sep : Bytes) (k : Nat) (b : Bytes) :
    (∃ t r, Complete sep k b t r) ∨ Lacks sep k b := by
  by_cases h : ∃ i ≤ k, sep <+: b.drop i
  · obtain ⟨i, hi, hocc⟩ := h
    obtain ⟨j, hj, hoffset⟩ := exists_offset? hocc
    obtain ⟨t, r, hb, hlen, hclears⟩ := offset?_append_eq_some_iff.1 hoffset
    exact .inl ⟨t, r, hb, hclears, by omega⟩
  · exact .inr fun i hi hocc => h ⟨i, hi, hocc⟩

/-! ### Tokens -/

lemma token_of_complete (h : Complete sep k b t r) (hb : b.length ≤ maxSize) :
    token sep k true b = .ok (.done t r) :=
  token_eq_done_iff.2 ⟨h.eq, h.clears, h.length_le, Nat.le_trans h.size_le hb⟩

lemma offset?_window_of_lacks (h : Lacks sep k b) :
    offset? sep (b.take (window sep k)) = none := by
  rcases ho : offset? sep (b.take (window sep k)) with _ | i
  · rfl
  · obtain ⟨hi, hw⟩ := offset?_take_eq_some_iff.1 ho
    rw [window] at hw
    exact absurd (offset?_eq_some_iff.1 hi).1 (h i (by omega))

lemma window_le_iff (hb : b.length < maxSize) :
    window sep k ≤ b.length ↔ k + sep.length ≤ b.length := by
  rw [window]
  omega

/-- Without its separator a field is refused as soon as it is too late for one. -/
lemma token_of_lacks (h : Lacks sep k b) (hb : b.length < maxSize) :
    token sep k true b =
      if k + sep.length ≤ b.length then .error .illegalFormat else .ok (.pending b) := by
  simp only [token, offset?_window_of_lacks h, window_le_iff hb]

/-- There is one way only to cut off a field. -/
lemma Complete.unique (h : Complete sep k b t r) (h' : Complete sep k b t' r') :
    t' = t ∧ r' = r := by
  have hfirst := offset?_append_eq_some_iff.2 ⟨t, r, h.eq, rfl, h.clears⟩
  have hfirst' := offset?_append_eq_some_iff.2 ⟨t', r', h'.eq, rfl, h'.clears⟩
  have hlen : t'.length = t.length := Option.some.inj (hfirst'.symm.trans hfirst)
  have heq := h'.eq.symm.trans h.eq
  rw [List.append_assoc, List.append_assoc] at heq
  obtain ⟨ht, hr⟩ := List.append_inj heq hlen
  exact ⟨ht, List.append_cancel_left hr⟩

lemma Complete.not_overruns (h : Complete sep k b t r) : ¬ Overruns sep k b :=
  fun hover => h.not_lacks hover.1

lemma Lacks.not_exists (h : Lacks sep k b) {P : Bytes → Bytes → Prop} :
    ¬ ∃ t' r', Complete sep k b t' r' ∧ P t' r' :=
  fun ⟨_, _, h', _⟩ => h'.not_lacks h

lemma Lacks.overruns_iff (h : Lacks sep k b) :
    Overruns sep k b ↔ k + sep.length ≤ b.length := and_iff_right h

end Http1
