import Http1.Transport.Error

/-!
The reading side of a transport, as the events that are still to come.

An arrival is what one read brings, however many bytes that are. A wait is passed by trying again.
An empty arrival and the end of the events are the end of input.
-/

namespace Http1

inductive Arrival where
  | bytes (b : Bytes)
  | wait
  | failure (e : TransportError)
  deriving DecidableEq, Repr

/-- What is still to be read. -/
abbrev Source := List Arrival

namespace Source

inductive Read where
  | data (b : Bytes)
  | blocked
  | failed (e : TransportError)
  | ended
  deriving DecidableEq, Repr

def read : Source → Read × Source
  | [] => (.ended, [])
  | .bytes [] :: s => (.ended, s)
  | .bytes (x :: b) :: s => (.data (x :: b), s)
  | .wait :: s => (.blocked, s)
  | .failure e :: s => (.failed e, s)

def unread : Source → Nat
  | [] => 0
  | .bytes b :: s => b.length + unread s
  | _ :: s => unread s

/-- Bytes and events yet to come, a byte weighing `k`. -/
def weight (k : Nat) (s : Source) : Nat := k * s.unread + s.length

/-- Whatever a read brings is gone from the source. -/
theorem read_weight (k : Nat) (s : Source) :
    (s.read.2).weight k ≤ s.weight k ∧
      (∀ b, s.read.1 = .data b → 0 < b.length ∧ (s.read.2).weight k + k * b.length ≤ s.weight k) ∧
      (s.read.1 = .blocked → (s.read.2).weight k < s.weight k) := by
  match s with
  | [] => simp [read]
  | .bytes [] :: s => simp [read, weight, unread]
  | .wait :: s => simp [read, weight, unread]
  | .failure e :: s => simp [read, weight, unread]
  | .bytes (x :: b) :: s =>
    simp only [read, weight, unread, Read.data.injEq, forall_eq', reduceCtorEq, false_imp_iff,
      and_true, List.length_cons, Nat.mul_add]
    omega

theorem weight_lt_of_read {s s' : Source} {b : Bytes} (h : s.read = (.data b, s')) :
    s'.weight 1 < s.weight 1 := by
  obtain ⟨hb, hle⟩ := (read_weight 1 s).2.1 b (by rw [h])
  simp only [h] at hle
  omega

end Source

end Http1
