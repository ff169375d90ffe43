import Http1.Transport.Error

/-!
The writing side of a transport: how it behaves, and what it has taken so far.
-/

namespace Http1

/-- How a sink takes bytes: how many in one write and how many in all, what a write past that
fails with (it takes no byte if nothing is given), how flushing and shutting down fail, and
whether each write has to be tried twice. -/
structure SinkBehaviour where
  perWrite : Option Nat
  inAll : Option Nat
  refusal : Option TransportError
  flushError : Option TransportError
  shutdownError : Option TransportError
  stalls : Bool
  deriving DecidableEq, Repr

/-- A sink that takes all it is given. -/
def SinkBehaviour.willing : SinkBehaviour := ⟨none, none, none, none, none, false⟩

structure Sink where
  behaviour : SinkBehaviour
  /-- The write at hand has been put off once. -/
  putOff : Bool
  /-- The pieces taken, the last one first. -/
  pieces : List Bytes
  /-- How many bytes the pieces hold. -/
  taken : Nat
  flushes : Nat
  isShut : Bool
  deriving DecidableEq, Repr

namespace Sink

inductive Written where
  | blocked
  | took (n : Nat)
  | failed (e : TransportError)
  deriving DecidableEq, Repr

def ofBehaviour (b : SinkBehaviour) : Sink := ⟨b, false, [], 0, 0, false⟩

def output (s : Sink) : Bytes := s.pieces.reverse.flatten

/-- How many of `n` bytes one write takes. -/
def appetite (s : Sink) (n : Nat) : Nat :=
  let n := match s.behaviour.perWrite with
    | some m => min m n
    | none => n
  match s.behaviour.inAll with
  | some m => min (m - s.taken) n
  | none => n

def isFull (s : Sink) : Bool :=
  match s.behaviour.inAll with
  | some m => m ≤ s.taken
  | none => false

def write (s : Sink) (b : Bytes) : Written × Sink :=
  if s.behaviour.stalls && !s.putOff then (.blocked, { s with putOff := true })
  else if s.isFull then
    match s.behaviour.refusal with
    | some e => (.failed e, { s with putOff := false })
    | none => (.took 0, { s with putOff := false })
  else
    let n := s.appetite b.length
    (.took n, { s with putOff := false, pieces := b.take n :: s.pieces, taken := s.taken + n })

def flush (s : Sink) : Except TransportError Sink :=
  match s.behaviour.flushError with
  | some e => .error e
  | none => .ok { s with flushes := s.flushes + 1 }

def shutdown (s : Sink) : Except TransportError Sink :=
  match s.behaviour.shutdownError with
  | some e => .error e
  | none => .ok { s with isShut := true }

/-- One while a write may still be put off. -/
def patience (s : Sink) : Nat := if s.putOff then 0 else 1

theorem patience_le (s : Sink) : s.patience ≤ 1 := by unfold patience; split <;> omega

theorem appetite_le (s : Sink) (n : Nat) : s.appetite n ≤ n := by
  unfold appetite
  split <;> split <;> dsimp only <;> omega

/-- A write that is put off costs patience, and one that takes bytes takes some of those
given. -/
theorem write_progress (s : Sink) (b : Bytes) :
    ((s.write b).1 = .blocked → (s.write b).2.patience < s.patience) ∧
      (∀ n, (s.write b).1 = .took n → n ≤ b.length) := by
  unfold write
  split
  · rename_i h
    simp only [Bool.and_eq_true, Bool.not_eq_true'] at h
    simp [patience, h.2]
  · split
    · split <;> simp
    · simp [appetite_le]

end Sink

end Http1
