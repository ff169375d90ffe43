import Http1.Exchange

/-!
The turns of an exchange, from its start to the point where neither party can move.

Main statements: a turn that changes something lowers the exchange, which is why the rounds end,
and no step gives anything back to the source of bytes.
-/

namespace Http1

namespace Exchange

/-- The exchange for a request that has just been released; the intake has nothing to do when
the request is complete. -/
def start (v : Version) (r : FrameReader) (a : Assembly) (p : Plan) (sink : Sink)
    (buffer : Bytes) : Exchange where
  version := v
  reader := r
  assembly := a
  intake := if a.done then .ended (.ok ()) else .reading
  service := .planning p []
  sink := sink
  buffer := buffer
  log := []

theorem below_lex {y x : Exchange} (h : y.Below x) :
    Prod.Lex (· < ·) (· < ·) (y.rank, y.potential) (x.rank, x.potential) := by
  rcases h with h | ⟨h, h'⟩
  · exact .left _ _ h
  · rw [h]
    exact .right _ h'

/-- Lets a party move until it has to wait, and tells whether it has moved at all. -/
def turn (x : Exchange) (p : Party) : Exchange × Bool :=
  match h : x.step p with
  | .moved y =>
    have : y.Below x := by simpa [h, Move.Below] using x.step_below p
    ((y.turn p).1, true)
  | .yielded y => (y, true)
  | .stuck => (x, false)
termination_by (x.rank, x.potential)
decreasing_by exact below_lex this

/-- A turn in which the party moves lowers the exchange, and any other leaves it as it was. -/
theorem turn_below (x : Exchange) (p : Party) :
    ((x.turn p).2 = true → (x.turn p).1.Below x) ∧ ((x.turn p).2 = false → (x.turn p).1 = x) := by
  fun_induction turn x p with
  | case1 x y h hb ih =>
    refine ⟨fun _ => ?_, by simp⟩
    rcases ht : (y.turn p).2 with _ | _
    · rw [ih.2 ht]
      exact hb
    · exact (ih.1 ht).trans hb
  | case2 x y h =>
    have hb : y.Below x := by simpa [h, Move.Below] using x.step_below p
    exact ⟨fun _ => hb, by simp⟩
  | case3 x h => simp

/-- Rounds of one turn for each party, until a round changes nothing. -/
def rounds (x : Exchange) (first : Party) : Exchange :=
  let a := x.turn first
  let b := a.1.turn first.other
  if h : a.2 || b.2 then
    have : b.1.Below x := by
      have h1 := x.turn_below first
      have h2 := a.1.turn_below first.other
      rcases ha : a.2 with _ | _
      · have hb : b.2 = true := by simpa [ha] using h
        exact h1.2 ha ▸ h2.1 hb
      · rcases hb : b.2 with _ | _
        · exact (h2.2 hb).symm ▸ h1.1 ha
        · exact (h2.1 hb).trans (h1.1 ha)
    b.1.rounds first.other
  else b.1
termination_by (x.rank, x.potential)
decreasing_by exact below_lex this

/-- The result of an exchange that is over: that of the intake if it has failed, else that of
the service. -/
def result? (x : Exchange) : Option (Except ConnectionError Unit) :=
  match x.intake, x.service with
  | .ended (.error e), .ended _ => some (.error e)
  | .ended (.ok _), .ended r => some r
  | _, _ => none

/-! ### The reader -/

/-- The reader of `y` has no more to give than that of `x`. -/
def NoMore (y x : Exchange) : Prop := y.reader.potential ≤ x.reader.potential

def Move.NoMore (x : Exchange) : Move → Prop
  | moved y => y.NoMore x
  | yielded y => y.NoMore x
  | stuck => True

theorem reader_answer (x : Exchange) (a : Answer) : (x.answer a).reader = x.reader := by
  cases a <;> rfl

theorem reader_took (x : Exchange) (w : Writer) (b : Body) (c : Option Channel) :
    (x.took w b c).reader = x.reader := by
  unfold took
  dsimp only
  split <;> rfl

theorem reader_sayUnparsed (x : Exchange) (n : Nat) : (x.sayUnparsed n).reader = x.reader := by
  unfold sayUnparsed
  split <;> rfl

theorem step_noMore (x : Exchange) (p : Party) : (x.step p).NoMore x := by
  have same : ∀ {y : Exchange}, y.reader = x.reader → y.NoMore x := fun h =>
    Nat.le_of_eq (by rw [h])
  cases p
  · have hp := x.reader.pull_potential
    simp only [step, stepIntake]
    split
    · trivial
    · split
      · trivial
      · exact same rfl
    · split
      · exact same rfl
      · have bound : ∀ {q : FrameReader.Pull} {r : FrameReader}, x.reader.pull = (q, r) →
            r.potential ≤ x.reader.potential := by
          intro q r h
          simp only [h] at hp
          omega
        split
        · rename_i hr
          exact bound hr
        · rename_i hr
          split <;> exact bound hr
        · rename_i hr
          exact bound hr
        · rename_i hr
          exact bound hr
        · rename_i hr
          refine Nat.le_trans (Nat.le_of_eq ?_) (bound hr)
          exact congrArg FrameReader.potential (reader_sayUnparsed _ _)
  · simp only [step, stepService]
    split
    · trivial
    · split
      · exact same (reader_answer _ _)
      · split
        · exact same (reader_answer _ _)
        · split
          · trivial
          · exact same rfl
          · exact same (reader_answer _ _)
          · exact same (reader_answer _ _)
    · split
      · exact same (reader_took ..)
      · exact same (reader_took ..)
      · trivial
      · exact same rfl

theorem turn_noMore (x : Exchange) (p : Party) : (x.turn p).1.NoMore x := by
  fun_induction turn x p with
  | case1 x y h hb ih =>
    have : y.NoMore x := by simpa [h, Move.NoMore] using x.step_noMore p
    exact Nat.le_trans ih this
  | case2 x y h => simpa [h, Move.NoMore] using x.step_noMore p
  | case3 x h => exact Nat.le_refl _

/-- An exchange takes from its reader and gives nothing back. -/
theorem rounds_noMore (x : Exchange) (first : Party) : (x.rounds first).NoMore x := by
  fun_induction rounds x first with
  | case1 x first a b h hb ih =>
    exact Nat.le_trans ih (Nat.le_trans (a.1.turn_noMore _) (x.turn_noMore _))
  | case2 x first a b h => exact Nat.le_trans (a.1.turn_noMore _) (x.turn_noMore _)

end Exchange

end Http1
