import Http1.Bytes
import Http1.Entity.Error

/-!
The channel of a streamed entity: a bounded queue of chunks between one sender and one
receiver.

The length is declared beforehand. The sender hangs up when it is done, and the receiver then
finds a clean end if it has received that many bytes, and a truncated entity if it has received
fewer. A sender may leave an error as its last word, which is lost when the queue is full.
-/

namespace Http1

structure Channel where
  /-- How many chunks may wait. -/
  capacity : Nat
  /-- The declared length. -/
  length : Nat
  /-- How many bytes of it the receiver has not seen. -/
  remaining : Nat
  queue : List (Except EntityError Bytes)
  /-- The sender is there. -/
  sending : Bool
  /-- The receiver is there. -/
  receiving : Bool
  /-- The receiver has seen the end or an error. -/
  finished : Bool
  capacity_pos : 0 < capacity
  queue_le : queue.length ≤ capacity
  remaining_le : remaining ≤ length

namespace Channel

/-- How many chunks may wait unless it is said otherwise. -/
def defaultCapacity : Nat := 16

/-- A new channel; a capacity of zero counts as one. -/
def create (length capacity : Nat) : Channel where
  capacity := max capacity 1
  length := length
  remaining := length
  queue := []
  sending := true
  receiving := true
  finished := false
  capacity_pos := by omega
  queue_le := by simp
  remaining_le := Nat.le_refl _

/-! ### The sender's end -/

inductive Offer where
  | sent (c : Channel)
  | full
  | closed

def push (c : Channel) (item : Except EntityError Bytes) (h : c.queue.length < c.capacity) :
    Channel :=
  { c with
    queue := c.queue ++ [item]
    queue_le := by rw [List.length_append, List.length_singleton]; exact h }

def closedMessage : Text := "entity receiver dropped".toList

def offer (c : Channel) (chunk : Bytes) : Offer :=
  if !(c.sending && c.receiving) then .closed
  else if h : c.queue.length < c.capacity then .sent (c.push (.ok chunk) h)
  else .full

/-- The receiver takes nothing more. -/
def isClosed (c : Channel) : Bool := !c.receiving

/-- The sender leaves. -/
def hangUp (c : Channel) : Channel := { c with sending := false }

/-- The sender leaves with an error, if there is room for it. -/
def abort (c : Channel) (e : EntityError) : Channel :=
  if !(c.sending && c.receiving) then c.hangUp
  else if h : c.queue.length < c.capacity then (c.push (.error e) h).hangUp
  else c.hangUp

/-! ### Room -/

/-- An end has left, so that nothing more goes in. -/
def Deaf (c : Channel) : Prop := c.sending = false ∨ c.receiving = false

instance (c : Channel) : Decidable c.Deaf := inferInstanceAs (Decidable (_ ∨ _))

/-- What is offered goes in. -/
def Admits (c : Channel) : Prop := ¬ c.Deaf ∧ c.queue.length < c.capacity

instance (c : Channel) : Decidable c.Admits := inferInstanceAs (Decidable (_ ∧ _))

/-- A chunk need not wait. -/
def Roomy (c : Channel) : Prop := c.Deaf ∨ c.queue.length < c.capacity

theorem not_deaf_iff {c : Channel} : ¬ c.Deaf ↔ c.sending = true ∧ c.receiving = true := by
  simp [Deaf]

theorem Deaf.not_admits {c : Channel} (h : c.Deaf) : ¬ c.Admits := fun hadmits => hadmits.1 h

theorem offer_of_deaf {c : Channel} (h : c.Deaf) (chunk : Bytes) : c.offer chunk = .closed := by
  rcases h with h | h <;> simp [offer, h]

theorem offer_of_admits {c : Channel} (h : c.Admits) (chunk : Bytes) :
    c.offer chunk = .sent (c.push (.ok chunk) h.2) := by
  obtain ⟨hs, hr⟩ := not_deaf_iff.1 h.1
  simp [offer, hs, hr, h.2]

theorem offer_of_full {c : Channel} (h : ¬ c.Deaf) (hfull : ¬ c.queue.length < c.capacity)
    (chunk : Bytes) : c.offer chunk = .full := by
  obtain ⟨hs, hr⟩ := not_deaf_iff.1 h
  simp [offer, hs, hr, hfull]

theorem admits_of_offer {c c' : Channel} {chunk : Bytes} (h : c.offer chunk = .sent c') :
    ∃ hadmits : c.Admits, c' = c.push (.ok chunk) hadmits.2 := by
  by_cases hd : c.Deaf
  · simp [offer_of_deaf hd] at h
  · by_cases hroom : c.queue.length < c.capacity
    · rw [offer_of_admits ⟨hd, hroom⟩] at h
      exact ⟨⟨hd, hroom⟩, (Offer.sent.inj h).symm⟩
    · simp [offer_of_full hd hroom] at h

theorem Roomy.offer {c : Channel} (h : c.Roomy) (chunk : Bytes) : c.offer chunk ≠ .full := by
  by_cases hd : c.Deaf
  · simp [offer_of_deaf hd]
  · simp [offer_of_admits ⟨hd, h.resolve_left hd⟩]

theorem abort_of_admits {c : Channel} (h : c.Admits) (e : EntityError) :
    c.abort e = (c.push (.error e) h.2).hangUp := by
  obtain ⟨hs, hr⟩ := not_deaf_iff.1 h.1
  simp [abort, hs, hr, h.2]

/-- A last word for which there is no room is lost. -/
theorem abort_of_not_admits {c : Channel} (h : ¬ c.Admits) (e : EntityError) :
    c.abort e = c.hangUp := by
  by_cases hd : c.Deaf
  · rcases hd with hd | hd <;> simp [abort, hd]
  · have hfull : ¬ c.queue.length < c.capacity := fun hlt => h ⟨hd, hlt⟩
    simp [abort, hfull]

/-- A channel whose sender has come and gone: it has left these chunks, for which there was room,
and an error behind them if there is one. -/
def ofChunks (length : Nat) (chunks : List Bytes) (failure : Option EntityError) : Channel :=
  let c := chunks.foldl
    (fun c b =>
      match c.offer b with
      | .sent c => c
      | _ => c)
    (create length (chunks.length + 1))
  match failure with
  | some e => c.abort e
  | none => c.hangUp

/-! ### The receiver's end -/

inductive Reception where
  | chunk (bytes : Bytes)
  | failed (e : EntityError)
  | ended
  | pending
  deriving DecidableEq, Repr

/-- The receiver looks once. -/
def poll (c : Channel) : Reception × Channel :=
  if c.finished then (.ended, c)
  else
    match hq : c.queue with
    | .ok chunk :: q =>
      (.chunk chunk,
        { c with
          queue := q
          remaining := c.remaining - chunk.length
          queue_le := by have := c.queue_le; simp [hq] at this; omega
          remaining_le := by have := c.remaining_le; omega })
    | .error e :: q =>
      (.failed e,
        { c with
          queue := q
          finished := true
          receiving := false
          queue_le := by have := c.queue_le; simp [hq] at this; omega })
    | [] =>
      if c.sending then (.pending, c)
      else if c.remaining = 0 then (.ended, { c with finished := true })
      else (.failed (.truncated c.length (c.length - c.remaining)), { c with finished := true })

/-- The receiver leaves, and what waited for it is gone. -/
def leave (c : Channel) : Channel :=
  { c with
    queue := []
    receiving := false
    queue_le := by simp }

def describe (c : Channel) : Text :=
  "EntityStream \x7b length: ".toList ++ decimal c.length ++ ", remaining: ".toList ++
    decimal c.remaining ++ ", .. \x7d".toList

/-! ### What is in the queue -/

/-- What it takes to bring the chunks of a queue to the wire a byte at a time. -/
def queueLoad : List (Except EntityError Bytes) → Nat
  | [] => 0
  | .ok chunk :: q => 2 * chunk.length + 2 + queueLoad q
  | .error _ :: q => queueLoad q

theorem queueLoad_append (q q' : List (Except EntityError Bytes)) :
    queueLoad (q ++ q') = queueLoad q + queueLoad q' := by
  induction q with
  | nil => simp [queueLoad]
  | cons item q ih => cases item <;> simp [queueLoad, ih, Nat.add_assoc]

def load (c : Channel) : Nat := queueLoad c.queue

@[simp] theorem load_leave (c : Channel) : c.leave.load = 0 := rfl

@[simp] theorem load_create (n k : Nat) : (create n k).load = 0 := rfl

@[simp] theorem load_hangUp (c : Channel) : c.hangUp.load = c.load := rfl

@[simp] theorem load_abort (c : Channel) (e : EntityError) : (c.abort e).load = c.load := by
  by_cases h : c.Admits
  · simp [abort_of_admits h, load, push, hangUp, queueLoad_append, queueLoad]
  · simp [abort_of_not_admits h]

theorem load_of_offer {c c' : Channel} {chunk : Bytes} (h : c.offer chunk = .sent c') :
    c'.load = c.load + (2 * chunk.length + 2) := by
  obtain ⟨-, rfl⟩ := admits_of_offer h
  simp [load, push, queueLoad_append, queueLoad]

/-- A chunk that is received takes its load along; nothing else raises it. -/
theorem load_poll (c : Channel) :
    c.poll.2.load ≤ c.load ∧
      ∀ chunk, c.poll.1 = .chunk chunk → c.poll.2.load + (2 * chunk.length + 2) = c.load := by
  unfold poll
  split
  · simp
  · split
    · rename_i hq
      simp [load, hq, queueLoad, Nat.add_comm]
    · rename_i hq
      simp [load, hq, queueLoad]
    · rename_i hq
      split
      · simp
      · split <;> simp [load]

theorem length_poll_lt {c : Channel} {chunk : Bytes} (h : c.poll.1 = .chunk chunk) :
    c.poll.2.queue.length < c.queue.length := by
  unfold poll at h ⊢
  split at h
  · simp at h
  · rename_i hf
    rw [if_neg hf]
    split at h
    · rename_i hq
      simp [hq]
    · simp at h
    · split at h
      · simp at h
      · split at h <;> simp at h

/-! ### Collecting -/

/-- Receives until nothing more is there: the chunks after those in `got` together, or the
error; nothing if the end has not come. -/
def collectFrom (got : List Bytes) (c : Channel) : Option (Except EntityError Bytes) :=
  match h : c.poll.1 with
  | .chunk chunk =>
    have := length_poll_lt h
    collectFrom (chunk :: got) c.poll.2
  | .failed e => some (.error e)
  | .ended => some (.ok got.reverse.flatten)
  | .pending => none
termination_by c.queue.length

def collect (c : Channel) : Option (Except EntityError Bytes) := collectFrom [] c

end Channel

end Http1
