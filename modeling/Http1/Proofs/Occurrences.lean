import Http1.Proofs.RoundTrip

/-!
How often one piece of text stands in another.

Occurrences in two pieces add up to those in the whole, unless one of them could lie across the
seam: none does if the piece before it ends, or the one behind begins, with a letter of its own.
Main statement: ASCII stands in any text just as often as in its bytes.
-/

namespace Http1

section

variable {α : Type} [DecidableEq α] {p a b l : List α} {x : α}

def places (p l : List α) : List Nat := (List.range l.length).filter fun i => p <+: l.drop i

def occurrences (p l : List α) : Nat := (places p l).length

@[simp] lemma occurrences_nil (p : List α) : occurrences p [] = 0 := rfl

lemma mem_places {i : Nat} : i ∈ places p l ↔ i < l.length ∧ p <+: l.drop i := by simp [places]

lemma occurrences_cons (p : List α) (x : α) (l : List α) :
    occurrences p (x :: l) = (if p <+: x :: l then 1 else 0) + occurrences p l := by
  unfold occurrences places
  rw [List.length_cons, List.range_succ_eq_map, List.filter_cons, List.filter_map]
  split <;> rename_i h <;> simp only [List.drop_zero, decide_eq_true_eq] at h <;>
    simp [h, Function.comp_def, Nat.add_comm]

lemma occurrences_eq_zero_iff (hp : p ≠ []) : occurrences p l = 0 ↔ ¬ p <:+: l := by
  induction l with
  | nil => simp [hp]
  | cons x l ih =>
    rw [occurrences_cons, List.infix_cons_iff, not_or, ← ih, Nat.add_eq_zero_iff]
    split <;> simp_all

lemma places_eq_singleton {i : Nat} (hone : occurrences p l = 1) (hi : i ∈ places p l) :
    places p l = [i] := by
  obtain ⟨j, hj⟩ := List.length_eq_one_iff.1 hone
  rw [hj] at hi ⊢
  rw [List.mem_singleton.1 hi]

/-- Where nothing lies across the seam, occurrences add up. -/
lemma occurrences_append
    (h : ∀ u v, p = u ++ v → u ≠ [] → v ≠ [] → u <:+ a → ¬ v <+: b) :
    occurrences p (a ++ b) = occurrences p a + occurrences p b := by
  induction a with
  | nil => simp
  | cons x a ih =>
    -- an occurrence at the front that reached into `b` would lie across the seam
    have hfirst : p <+: x :: (a ++ b) ↔ p <+: x :: a := by
      refine ⟨fun hp => ?_, fun hp => hp.trans (List.prefix_append (x :: a) b)⟩
      rcases List.prefix_or_prefix_of_prefix hp (List.prefix_append (x :: a) b) with hp' | ⟨v, hv⟩
      · exact hp'
      · rcases v with _ | ⟨y, v⟩
        · exact ⟨[], by rw [← hv, List.append_nil, List.append_nil]⟩
        · rw [← hv] at hp
          have hb := (List.prefix_append_right_inj (x :: a)).1 hp
          exact absurd hb (h _ _ hv.symm (by simp) (by simp) (List.suffix_refl _))
    have hrest := ih fun u v hp hu hv hsuffix =>
      h u v hp hu hv (hsuffix.trans (List.suffix_cons x a))
    simp only [List.cons_append, occurrences_cons, hfirst, hrest, Nat.add_assoc]

lemma occurrences_append_of_last (h : ∀ x ∈ a.getLast?, x ∉ p) :
    occurrences p (a ++ b) = occurrences p a + occurrences p b := by
  refine occurrences_append fun u v hp hu _ ⟨w, hw⟩ _ => ?_
  have hlast : u.getLast hu ∈ a.getLast? := by
    rw [← hw, List.getLast?_append, List.getLast?_eq_some_getLast hu]
    rfl
  exact h _ hlast (by rw [hp]; exact List.mem_append_left _ (List.getLast_mem hu))

lemma occurrences_append_of_head (h : ∀ x ∈ b.head?, x ∉ p) :
    occurrences p (a ++ b) = occurrences p a + occurrences p b := by
  refine occurrences_append fun u v hp _ hv _ ⟨w, hw⟩ => ?_
  have hhead : v.head hv ∈ b.head? := by
    rw [← hw, List.head?_append, List.head?_eq_some_head hv]
    rfl
  exact h _ hhead (by rw [hp]; exact List.mem_append_right _ (List.head_mem hv))

lemma occurrences_of_notMem (hx : x ∈ p) (hl : x ∉ l) : occurrences p l = 0 :=
  (occurrences_eq_zero_iff (List.ne_nil_of_mem hx)).2 fun h => hl (h.subset hx)

end

/-! ### Text in UTF-8 -/

lemma le_of_mem_utf8EncodeChar {c : Char} (h : 128 ≤ c.toNat) {x : UInt8}
    (hx : x ∈ String.utf8EncodeChar c) : 128 ≤ x.toNat := by
  have hc : ¬ c.val.toNat ≤ 127 := Nat.not_le.2 h
  rw [String.utf8EncodeChar.eq_1, if_neg hc] at hx
  split at hx
  · simp only [List.mem_cons, List.not_mem_nil, or_false] at hx
    rcases hx with rfl | rfl <;> simp only [UInt8.toNat_ofNat'] <;> omega
  · split at hx
    · simp only [List.mem_cons, List.not_mem_nil, or_false] at hx
      rcases hx with rfl | rfl | rfl <;> simp only [UInt8.toNat_ofNat'] <;> omega
    · simp only [List.mem_cons, List.not_mem_nil, or_false] at hx
      rcases hx with rfl | rfl | rfl | rfl <;> simp only [UInt8.toNat_ofNat'] <;> omega

lemma toNat_ofNat_of_lt {n : Nat} (h : n < 128) : (UInt8.ofNat n).toNat = n := by
  rw [UInt8.toNat_ofNat']
  exact Nat.mod_eq_of_lt (by omega)

lemma utf8EncodeChar_of_lt {c : Char} (h : c.toNat < 128) :
    String.utf8EncodeChar c = [UInt8.ofNat c.toNat] := by
  have hc : c.val.toNat ≤ 127 := Nat.le_of_lt_succ h
  rw [String.utf8EncodeChar.eq_1, if_pos hc]
  rfl

lemma utf8_cons (c : Char) (t : Text) : utf8 (c :: t) = String.utf8EncodeChar c ++ utf8 t := rfl

variable {p t : Text}

/-- ASCII stands at the beginning of a text if its bytes do. -/
lemma utf8_prefix_iff (hp : Ascii p) : utf8 p <+: utf8 t ↔ p <+: t := by
  refine ⟨fun h => ?_, fun ⟨r, hr⟩ => ⟨utf8 r, by rw [← hr, utf8_append]⟩⟩
  induction p generalizing t with
  | nil => exact List.nil_prefix
  | cons c p ih =>
    obtain ⟨hc, hp⟩ := List.forall_mem_cons.1 hp
    rw [utf8_cons, utf8EncodeChar_of_lt hc] at h
    rcases t with _ | ⟨d, t⟩
    · simp at h
    · rw [utf8_cons] at h
      by_cases hd : d.toNat < 128
      · rw [utf8EncodeChar_of_lt hd] at h
        obtain ⟨hbyte, hrest⟩ := List.cons_prefix_cons.1 h
        have hnat := congrArg UInt8.toNat hbyte
        rw [toNat_ofNat_of_lt hc, toNat_ofNat_of_lt hd] at hnat
        rw [Char.toNat_inj.1 hnat]
        exact (List.prefix_cons_inj d).2 (ih hp hrest)
      · obtain ⟨y, ys, hy⟩ := List.exists_cons_of_ne_nil (String.utf8EncodeChar_ne_nil (c := d))
        have hbeyond := le_of_mem_utf8EncodeChar (Nat.le_of_not_lt hd)
          (by rw [hy]; exact List.mem_cons_self : y ∈ String.utf8EncodeChar d)
        rw [hy] at h
        rw [← (List.cons_prefix_cons.1 h).1, toNat_ofNat_of_lt hc] at hbeyond
        omega

lemma lt_of_mem_utf8 (hp : Ascii p) {x : UInt8} (hx : x ∈ utf8 p) : x.toNat < 128 := by
  obtain ⟨c, hc, hx⟩ := List.mem_flatMap.1 hx
  rw [utf8EncodeChar_of_lt (hp c hc), List.mem_singleton] at hx
  rw [hx, toNat_ofNat_of_lt (hp c hc)]
  exact hp c hc

/-- **ASCII stands in a text as often as in its bytes.** -/
theorem occurrences_utf8 (hp : Ascii p) (hne : p ≠ []) (t : Text) :
    occurrences (utf8 p) (utf8 t) = occurrences p t := by
  induction t with
  | nil => simp
  | cons d t ih =>
    by_cases hd : d.toNat < 128
    · have hfirst : utf8 p <+: utf8 (d :: t) ↔ p <+: d :: t := utf8_prefix_iff hp
      rw [utf8_cons, utf8EncodeChar_of_lt hd] at hfirst ⊢
      simp only [List.cons_append, List.nil_append] at hfirst ⊢
      simp only [occurrences_cons, hfirst, ih]
    · -- none begins within the bytes of such a character
      have hbeyond : ∀ x ∈ String.utf8EncodeChar d, x ∉ utf8 p := by
        intro x hx hmem
        have hge := le_of_mem_utf8EncodeChar (Nat.le_of_not_lt hd) hx
        have hlt := lt_of_mem_utf8 hp hmem
        omega
      have hlast : ∀ x ∈ (String.utf8EncodeChar d).getLast?, x ∉ utf8 p := fun x hx =>
        hbeyond x (List.mem_of_getLast? hx)
      obtain ⟨c, p, rfl⟩ := List.exists_cons_of_ne_nil hne
      have hc := hp c List.mem_cons_self
      have hmem : UInt8.ofNat c.toNat ∈ utf8 (c :: p) := by
        rw [utf8_cons, utf8EncodeChar_of_lt hc]
        exact List.mem_cons_self
      have hchar : ¬ c :: p <+: d :: t := fun h => hd ((List.cons_prefix_cons.1 h).1 ▸ hc)
      rw [utf8_cons d, occurrences_append_of_last hlast, ih, occurrences_cons, if_neg hchar,
        occurrences_of_notMem hmem fun h => hbeyond _ h hmem]

end Http1
