import Http1.Proofs.Fields

/-!
The first separator of an input, found through a window.

The search sees a window of the input: the longest token there may be, and a separator behind it.
An occurrence has room in the window just if it starts within the bound, so what is found there is
the first occurrence in the whole input, and nothing is found when that comes too late or not at
all. Then the length of the input tells whether it may still come. Main statement: when a token is
found, refused and waited for, what is cut off, and that no sum and no cut on the way goes out of
range.
-/

namespace Http1

/-- The first occurrence of the separator starts here. It may overlap the next one. -/
structure FirstAt (sep b : Bytes) (i : Nat) : Prop where
  occurs : sep <+: b.drop i
  first : ∀ j < i, ¬ sep <+: b.drop j

/-- What becomes of an input: a token is cut off, or there is none within the bound, and either it
is too late for one or not. -/
inductive TokenVerdict (sep : Bytes) (k : Nat) (d : Bool) (b : Bytes) :
    Except ParseError (Scan Bytes) → Prop
  | found {i : Nat} : i ≤ k → FirstAt sep b i →
      TokenVerdict sep k d b (.ok (.done (b.take i) (b.drop (if d then i + sep.length else i))))
  | refused : Overruns sep k b → TokenVerdict sep k d b (.error .illegalFormat)
  | underway : Lacks sep k b → b.length < k + sep.length →
      TokenVerdict sep k d b (.ok (.pending b))

variable {sep b : Bytes} {i j k : Nat} {d : Bool}

/-! ### The first occurrence -/

lemma offset?_eq_some_iff_firstAt : offset? sep b = some i ↔ FirstAt sep b i := by
  rw [offset?_eq_some_iff]
  exact ⟨fun ⟨hocc, hfirst⟩ => ⟨hocc, hfirst⟩, fun h => ⟨h.occurs, h.first⟩⟩

namespace FirstAt

lemma unique (h : FirstAt sep b i) (h' : FirstAt sep b j) : i = j := by
  have hi := offset?_eq_some_iff_firstAt.2 h
  have hj := offset?_eq_some_iff_firstAt.2 h'
  exact Option.some.inj (hi.symm.trans hj)

/-- The separator ends within the input. Past the end there is only the empty one, and that is
found at the start. -/
lemma add_le (h : FirstAt sep b i) : i + sep.length ≤ b.length := by
  have hle := offsetFrom?_le (offset?_eq_some_iff_firstAt.2 h)
  omega

lemma parts (h : FirstAt sep b i) : b.take i ++ sep ++ b.drop (i + sep.length) = b :=
  calc b.take i ++ sep ++ b.drop (i + sep.length)
      = b.take i ++ (sep ++ (b.drop i).drop sep.length) := by
        rw [List.append_assoc, List.drop_drop]
    _ = b.take i ++ b.drop i := by rw [List.prefix_iff_eq_append.1 h.occurs]
    _ = b := List.take_append_drop i b

lemma length_take (h : FirstAt sep b i) : (b.take i).length = i := by
  have hle := h.add_le
  rw [List.length_take]
  omega

/-- No separator stands in front of the first one; the empty one stands everywhere. -/
lemma eq_nil_of_infix (h : FirstAt sep b i) (hin : sep <:+: b.take i) : sep = [] := by
  obtain ⟨j, hj⟩ := infix_iff_prefix_drop.1 hin
  refine Classical.byContradiction fun hne => ?_
  have hpos := List.length_pos_iff.2 hne
  have hlen := hj.length_le
  rw [List.length_drop, h.length_take] at hlen
  have hocc : sep <+: (b.take i ++ b.drop i).drop j :=
    (prefix_drop_of_le (by rw [h.length_take]; omega)).2 hj
  rw [List.take_append_drop] at hocc
  exact h.first j (by omega) hocc

end FirstAt

lemma lacks_iff : Lacks sep k b ↔ ¬ ∃ i ≤ k, FirstAt sep b i := by
  constructor
  · rintro hlacks ⟨i, hi, hfirst⟩
    exact hlacks i hi hfirst.occurs
  · intro hnone i hi hocc
    obtain ⟨j, hj, hoffset⟩ := exists_offset? hocc
    exact hnone ⟨j, by omega, offset?_eq_some_iff_firstAt.1 hoffset⟩

/-! ### The window -/

lemma offset?_window_of_firstAt (h : FirstAt sep b i) (hi : i ≤ k) (hb : b.length ≤ maxSize) :
    offset? sep (b.take (window sep k)) = some i := by
  have hle := h.add_le
  refine offset?_take_eq_some_iff.2 ⟨offset?_eq_some_iff_firstAt.2 h, ?_⟩
  rw [window]
  omega

lemma token_verdict (sep : Bytes) (k : Nat) (d : Bool) (hb : b.length < maxSize) :
    TokenVerdict sep k d b (token sep k d b) := by
  by_cases h : ∃ i ≤ k, FirstAt sep b i
  · obtain ⟨i, hi, hfirst⟩ := h
    simp only [token, offset?_window_of_firstAt hfirst hi (Nat.le_of_lt hb)]
    exact .found hi hfirst
  · have hlacks := lacks_iff.2 h
    simp only [token, offset?_window_of_lacks hlacks, window_le_iff hb]
    split
    · rename_i hlen
      exact .refused ⟨hlacks, hlen⟩
    · rename_i hlen
      exact .underway hlacks (by omega)

namespace TokenVerdict

variable {s : Except ParseError (Scan Bytes)} {t r : Bytes} {e : ParseError}

lemma eq_done (h : TokenVerdict sep k d b s) (hi : i ≤ k) (hfirst : FirstAt sep b i) :
    s = .ok (.done (b.take i) (b.drop (if d then i + sep.length else i))) := by
  cases h with
  | found _ hfirst' => rw [hfirst.unique hfirst']
  | refused hover => exact absurd hfirst.occurs (hover.1 i hi)
  | underway hlacks _ => exact absurd hfirst.occurs (hlacks i hi)

lemma exists_done_iff (h : TokenVerdict sep k d b s) :
    (∃ t r, s = .ok (.done t r)) ↔ ∃ i ≤ k, FirstAt sep b i := by
  constructor
  · rintro ⟨t, r, rfl⟩
    cases h with
    | @found i hi hfirst => exact ⟨i, hi, hfirst⟩
  · rintro ⟨i, hi, hfirst⟩
    exact ⟨_, _, h.eq_done hi hfirst⟩

lemma cut (h : TokenVerdict sep k d b (.ok (.done t r))) :
    t.length ≤ k ∧ FirstAt sep b t.length ∧ t ++ (if d then sep else []) ++ r = b ∧
      (sep <:+: t → sep = []) := by
  cases h with
  | @found i hi hfirst =>
    refine ⟨by rwa [hfirst.length_take], by rwa [hfirst.length_take], ?_, hfirst.eq_nil_of_infix⟩
    cases d with
    | false => simp
    | true => exact hfirst.parts

lemma error_iff (h : TokenVerdict sep k d b s) :
    s = .error e ↔ e = .illegalFormat ∧ (¬ ∃ i ≤ k, FirstAt sep b i) ∧
      k + sep.length ≤ b.length := by
  rw [← lacks_iff]
  cases h with
  | found hi hfirst => exact iff_of_false nofun fun h => h.2.1 _ hi hfirst.occurs
  | refused hover =>
    constructor
    · intro h
      cases h
      exact ⟨rfl, hover⟩
    · rintro ⟨rfl, -⟩
      rfl
  | underway _ hlen => exact iff_of_false nofun fun h => Nat.not_le.2 hlen h.2.2

lemma pending_iff (h : TokenVerdict sep k d b s) :
    s = .ok (.pending r) ↔ r = b ∧ (¬ ∃ i ≤ k, FirstAt sep b i) ∧
      b.length < k + sep.length := by
  rw [← lacks_iff]
  cases h with
  | found hi hfirst => exact iff_of_false nofun fun h => h.2.1 _ hi hfirst.occurs
  | refused hover => exact iff_of_false nofun fun h => Nat.not_le.2 h.2.2 hover.2
  | underway hlacks hlen =>
    constructor
    · intro h
      cases h
      exact ⟨rfl, hlacks, hlen⟩
    · rintro ⟨rfl, -⟩
      rfl

end TokenVerdict

/-! ### Sums and cuts -/

/-- A sum that is still a size. -/
def sum? (m n : Nat) : Option Nat := if m + n ≤ maxSize then some (m + n) else none

def upTo? (b : Bytes) (i : Nat) : Option Bytes := if i ≤ b.length then some (b.take i) else none

def from? (b : Bytes) (i : Nat) : Option Bytes := if i ≤ b.length then some (b.drop i) else none

/-- The scan for a token, carried out in sizes. The sum that bounds the window saturates; any other
sum that is no size ends the scan, and so does a cut past the end. -/
def tokenInSizes? (sep : Bytes) (k : Nat) (d : Bool) (b : Bytes) :
    Option (Except ParseError (Scan Bytes)) := do
  let bound := (sum? k sep.length).getD maxSize
  let seen ← upTo? b (min bound b.length)
  match offset? sep seen with
  | some i =>
    let next ← (if d then sum? i sep.length else some i)
    let t ← upTo? b i
    let r ← from? b next
    return .ok (.done t r)
  | none => return if bound ≤ b.length then .error .illegalFormat else .ok (.pending b)

lemma sum?_of_le (h : i + j ≤ maxSize) : sum? i j = some (i + j) := if_pos h

lemma upTo?_of_le (h : i ≤ b.length) : upTo? b i = some (b.take i) := if_pos h

lemma from?_of_le (h : i ≤ b.length) : from? b i = some (b.drop i) := if_pos h

lemma getD_sum? : (sum? k sep.length).getD maxSize = window sep k := by
  unfold sum? window
  split
  · rename_i h
    exact (Nat.min_eq_left h).symm
  · rename_i h
    exact (Nat.min_eq_right (Nat.le_of_not_le h)).symm

/-- The scan is carried out in sizes, whatever the bound. -/
lemma tokenInSizes?_eq (sep : Bytes) (k : Nat) (d : Bool) (hb : b.length ≤ maxSize) :
    tokenInSizes? sep k d b = some (token sep k d b) := by
  have hseen : upTo? b (min (window sep k) b.length) = some (b.take (window sep k)) := by
    rw [upTo?_of_le (Nat.min_le_right ..), ← List.take_eq_take_min]
  unfold tokenInSizes? token
  simp only [getD_sum?, hseen, Option.bind_eq_bind, Option.bind_some]
  rcases ho : offset? sep (b.take (window sep k)) with _ | i
  · rfl
  · -- the separator ends within the input, and so does every cut up to its end
    have hle := (offset?_eq_some_iff_firstAt.1 (offset?_take_eq_some_iff.1 ho).1).add_le
    have hnext : (if d then sum? i sep.length else some i) =
        some (if d then i + sep.length else i) := by
      cases d
      · rfl
      · exact sum?_of_le (by omega)
    have hrest : (if d then i + sep.length else i) ≤ b.length := by
      split <;> omega
    simp only [hnext, upTo?_of_le (show i ≤ b.length by omega), from?_of_le hrest,
      Option.bind_some, Option.pure_def]

/-! ### The outcomes -/

/-- **A token ends at the first separator of the input.** It is found just if that starts within the
bound: then it is the bytes in front, and what is left starts behind the separator or with it.
Otherwise the scan is refused when the longest token and a separator have come, and pending with
its whole input when they have not. No sum on the way is too large for a size and no cut passes the
end; only the bound of the window saturates, which changes nothing. -/
theorem token_by_first_occurrence (sep : Bytes) (k : Nat) (d : Bool) {b : Bytes}
    (hb : b.length < pastInt64) :
    ((∃ t r, token sep k d b = .ok (.done t r)) ↔ ∃ i ≤ k, FirstAt sep b i) ∧
    (∀ i ≤ k, FirstAt sep b i →
      token sep k d b = .ok (.done (b.take i) (b.drop (if d then i + sep.length else i)))) ∧
    (∀ t r, token sep k d b = .ok (.done t r) →
      t.length ≤ k ∧ FirstAt sep b t.length ∧ t ++ (if d then sep else []) ++ r = b ∧
        (sep <:+: t → sep = [])) ∧
    (∀ e, token sep k d b = .error e ↔
      e = .illegalFormat ∧ (¬ ∃ i ≤ k, FirstAt sep b i) ∧ k + sep.length ≤ b.length) ∧
    (∀ r, token sep k d b = .ok (.pending r) ↔
      r = b ∧ (¬ ∃ i ≤ k, FirstAt sep b i) ∧ b.length < k + sep.length) ∧
    tokenInSizes? sep k d b = some (token sep k d b) := by
  have hmax : b.length < maxSize := Nat.lt_trans hb (by decide)
  have hverdict := token_verdict sep k d hmax
  refine ⟨hverdict.exists_done_iff, fun i hi hfirst => hverdict.eq_done hi hfirst,
    fun t r h => ?_, fun e => hverdict.error_iff, fun r => hverdict.pending_iff,
    tokenInSizes?_eq sep k d (Nat.le_of_lt hmax)⟩
  rw [h] at hverdict
  exact hverdict.cut

def palindrome : Bytes := [97, 98, 97]

def overlapping : Bytes := [120, 97, 98, 97, 98, 97, 33]

/-- The separator is found up to its bound and not past it, and one that is still under way is
waited for, be the bound the largest there is. -/
theorem token_by_first_occurrence_overlapping :
    overlapping.length < pastInt64 ∧ FirstAt palindrome overlapping 1 ∧
      token palindrome 1 true overlapping = .ok (.done [120] [98, 97, 33]) ∧
      token palindrome 1 false overlapping = .ok (.done [120] [97, 98, 97, 98, 97, 33]) ∧
      token palindrome 0 true overlapping = .error .illegalFormat ∧
      token palindrome maxSize true (overlapping.take 3) = .ok (.pending [120, 97, 98]) ∧
      tokenInSizes? palindrome maxSize true overlapping =
        some (.ok (.done [120] [98, 97, 33])) := by
  have hfirst : FirstAt palindrome overlapping 1 := ⟨by decide, by decide⟩
  have hearly : ¬ ∃ i ≤ 0, FirstAt palindrome overlapping i := by
    rintro ⟨i, hi, h⟩
    have hone := h.unique hfirst
    omega
  have hcut : ¬ ∃ i ≤ maxSize, FirstAt palindrome (overlapping.take 3) i := by
    rintro ⟨i, -, h⟩
    have hroom : i + 3 ≤ 3 := h.add_le
    obtain rfl : i = 0 := by omega
    exact absurd h.occurs (by decide)
  refine ⟨by decide, hfirst, ?_, ?_, ?_, ?_, ?_⟩
  · exact (token_by_first_occurrence palindrome 1 true (by decide)).2.1 1 (by decide) hfirst
  · exact (token_by_first_occurrence palindrome 1 false (by decide)).2.1 1 (by decide) hfirst
  · exact ((token_by_first_occurrence palindrome 0 true (by decide)).2.2.2.1 _).2
      ⟨rfl, hearly, by decide⟩
  · exact ((token_by_first_occurrence palindrome maxSize true (by decide)).2.2.2.2.1 _).2
      ⟨rfl, hcut, by decide⟩
  · obtain ⟨-, hfound, -, -, -, hsizes⟩ :=
      token_by_first_occurrence palindrome maxSize true (b := overlapping) (by decide)
    rw [hsizes, hfound 1 (by decide) hfirst]
    rfl

end Http1
