import Mathlib.Tactic.Lemma
import Http1.Exchange.Turns

/-!
Orders of steps.

Either party of an exchange may move at any time. A run gives the moves to the parties in any
order; one that cannot move leaves the exchange as it was. The turns of a connection are one such
order, and every order that keeps coming back to both parties brings the exchange to rest.
-/

namespace Http1

namespace Exchange

def after (x : Exchange) (p : Party) : Exchange :=
  match x.step p with
  | .moved y => y
  | .yielded y => y
  | .stuck => x

def run (x : Exchange) (ps : List Party) : Exchange := ps.foldl after x

def AtRest (x : Exchange) : Prop := ∀ p, x.step p = .stuck

variable {x y : Exchange} {p : Party}

@[simp] lemma run_nil (x : Exchange) : x.run [] = x := rfl

@[simp] lemma run_cons (x : Exchange) (p : Party) (ps : List Party) :
    x.run (p :: ps) = (x.after p).run ps := rfl

lemma run_append (x : Exchange) (ps qs : List Party) : x.run (ps ++ qs) = (x.run ps).run qs :=
  List.foldl_append

lemma after_of_stuck (h : x.step p = .stuck) : x.after p = x := by rw [after, h]

lemma after_of_moved (h : x.step p = .moved y) : x.after p = y := by rw [after, h]

lemma after_of_yielded (h : x.step p = .yielded y) : x.after p = y := by rw [after, h]

/-- Wherever the step goes, it comes to such an exchange. -/
def Move.All (P : Exchange → Prop) : Move → Prop
  | moved y => P y
  | yielded y => P y
  | stuck => True

lemma after_of_all {P : Exchange → Prop} (h : (x.step p).All P) (hx : P x) : P (x.after p) := by
  unfold after
  split <;> simp_all [Move.All]

lemma after_below (h : x.step p ≠ .stuck) : (x.after p).Below x := by
  have hb := x.step_below p
  rcases hs : x.step p with y | y | _ <;> rw [hs] at hb
  · rw [after_of_moved hs]
    exact hb
  · rw [after_of_yielded hs]
    exact hb
  · exact (h hs).elim

lemma run_below (x : Exchange) (ps : List Party) : x.run ps = x ∨ (x.run ps).Below x := by
  induction ps generalizing x with
  | nil => exact .inl rfl
  | cons p ps ih =>
    by_cases hs : x.step p = .stuck
    · rw [run_cons, after_of_stuck hs]
      exact ih x
    · rcases ih (x.after p) with h | h
      · exact .inr (by rw [run_cons, h]; exact after_below hs)
      · exact .inr (h.trans (after_below hs))

/-- What every step keeps, a run keeps. -/
lemma run_induction {P : Exchange → Prop} (h : ∀ y p, P y → P (y.after p)) (hx : P x)
    (ps : List Party) : P (x.run ps) := by
  induction ps generalizing x with
  | nil => exact hx
  | cons p ps ih => exact ih (h x p hx)

/-! ### Turns -/

lemma turn_eq_run (x : Exchange) (p : Party) : ∃ ps, (x.turn p).1 = x.run ps := by
  fun_induction turn x p with
  | case1 x y h hb ih =>
    obtain ⟨ps, hps⟩ := ih
    exact ⟨p :: ps, by rw [run_cons, after_of_moved h, hps]⟩
  | case2 x y h => exact ⟨[p], by rw [run_cons, after_of_yielded h, run_nil]⟩
  | case3 x h => exact ⟨[], rfl⟩

lemma step_of_turn_false (h : (x.turn p).2 = false) : x.step p = .stuck := by
  rw [turn] at h
  split at h
  · simp at h
  · simp at h
  · assumption

/-- Rounds are a run that ends at rest. -/
theorem rounds_eq_run (x : Exchange) (first : Party) :
    (∃ ps, x.rounds first = x.run ps) ∧ (x.rounds first).AtRest := by
  fun_induction rounds x first with
  | case1 x first a b h hb ih =>
    obtain ⟨⟨ps, hps⟩, hrest⟩ := ih
    obtain ⟨qs, hqs⟩ := x.turn_eq_run first
    obtain ⟨rs, hrs⟩ := a.1.turn_eq_run first.other
    exact ⟨⟨qs ++ rs ++ ps, by rw [run_append, run_append, ← hqs, ← hrs, ← hps]⟩, hrest⟩
  | case2 x first a b h =>
    obtain ⟨ha, hb⟩ : a.2 = false ∧ b.2 = false := by simpa using h
    have hax : a.1 = x := (x.turn_below first).2 ha
    have hbx : b.1 = x := by rw [(a.1.turn_below first.other).2 hb, hax]
    rw [hbx]
    refine ⟨⟨[], rfl⟩, fun p => ?_⟩
    by_cases hp : p = first
    · rw [hp]
      exact step_of_turn_false ha
    · have hother : p = first.other := by cases p <;> cases first <;> simp_all [Party.other]
      rw [hother]
      exact step_of_turn_false (hax ▸ hb)

/-! ### Fair orders -/

def Fair (σ : Nat → Party) : Prop := ∀ p n, ∃ m, n ≤ m ∧ σ m = p

def first (σ : Nat → Party) (n : Nat) : List Party := (List.range n).map σ

lemma first_add (σ : Nat → Party) (m n : Nat) :
    first σ (m + n) = first σ m ++ first (fun i => σ (m + i)) n := by
  simp [first, List.range_add, Function.comp_def]

lemma Fair.shift {σ : Nat → Party} (h : Fair σ) (m : Nat) : Fair fun i => σ (m + i) := by
  intro p n
  obtain ⟨k, hk, rfl⟩ := h p (m + n)
  have hkm : m + (k - m) = k := by omega
  exact ⟨k - m, by omega, congrArg σ hkm⟩

/-- **A fair order brings every exchange to rest.** -/
theorem exists_atRest {σ : Nat → Party} (h : Fair σ) (x : Exchange) :
    ∃ n, (x.run (first σ n)).AtRest := by
  by_cases hx : x.AtRest
  · exact ⟨0, hx⟩
  · obtain ⟨p, hp⟩ := Classical.not_forall.1 hx
    obtain ⟨m, -, hm⟩ := h p 0
    -- when that party has had its turn, somebody has moved
    obtain ⟨k, hk⟩ : ∃ k, (x.run (first σ k)).Below x := by
      rcases x.run_below (first σ m) with hsame | hlow
      · refine ⟨m + 1, ?_⟩
        have hlast : first (fun i => σ (m + i)) 1 = [p] := by simp [first, hm]
        rw [first_add, run_append, hsame, hlast]
        exact after_below hp
      · exact ⟨m, hlow⟩
    obtain ⟨n, hn⟩ := exists_atRest (h.shift k) (x.run (first σ k))
    exact ⟨k + n, by rw [first_add, run_append]; exact hn⟩
termination_by (x.rank, x.potential)
decreasing_by exact below_lex hk

end Exchange

end Http1
