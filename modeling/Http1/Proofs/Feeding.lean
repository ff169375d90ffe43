import Http1.Proofs.Cut

/-!
A body that is still being sent.

The sender of a streamed entity works beside the receiver, and may leave at any time, with or
without a last word. All that has gone into the channel, in order, decides what the receiver finds:
the chunks before the first error, and then that error; or all chunks, and then a clean end if
they come to the declared length. Main statement: a receiver who looks finds the next of this.
-/

namespace Http1

namespace Channel

/-! ### The sender -/

inductive Act where
  | send (chunk : Bytes)
  | abort (e : EntityError)
  | hangUp

/-- The channel after an act. A chunk for which there is no room has to be sent again. -/
def on (c : Channel) : Act → Channel
  | .send chunk =>
    match c.offer chunk with
    | .sent c' => c'
    | .full => c
    | .closed => c
  | .abort e => c.abort e
  | .hangUp => c.hangUp

/-- What an act adds to the queue: the chunk or the last word, if there is room for it. -/
def puts (c : Channel) : Act → List (Except EntityError Bytes)
  | .send chunk => if c.Admits then [.ok chunk] else []
  | .abort e => if c.Admits then [.error e] else []
  | .hangUp => []

variable {c c₀ : Channel} {sent : List (Except EntityError Bytes)} {got : List Bytes}

lemma on_send_of_not_admits (h : ¬ c.Admits) (chunk : Bytes) : c.on (.send chunk) = c := by
  by_cases hd : c.Deaf
  · simp only [on, offer_of_deaf hd]
  · have hfull : ¬ c.queue.length < c.capacity := fun hlt => h ⟨hd, hlt⟩
    simp only [on, offer_of_full hd hfull]

/-- The queue grows at its end, and nothing that the receiver keeps changes. -/
lemma on_keeps (c : Channel) (a : Act) :
    (c.on a).queue = c.queue ++ c.puts a ∧ (c.on a).length = c.length ∧
      (c.on a).remaining = c.remaining ∧ (c.on a).finished = c.finished := by
  by_cases h : c.Admits
  · cases a with
    | send chunk => simp [on, puts, offer_of_admits h, h, push]
    | abort e => simp [on, puts, abort_of_admits h, h, push, hangUp]
    | hangUp => simp [on, puts, hangUp]
  · cases a with
    | send chunk => simp [on_send_of_not_admits h, puts, h]
    | abort e => simp [on, puts, abort_of_not_admits h, h, hangUp]
    | hangUp => simp [on, puts, hangUp]

lemma queue_on (c : Channel) (a : Act) : (c.on a).queue = c.queue ++ c.puts a := (c.on_keeps a).1

lemma puts_of_deaf (h : c.Deaf) (a : Act) : c.puts a = [] := by
  cases a with
  | send chunk => exact if_neg h.not_admits
  | abort e => exact if_neg h.not_admits
  | hangUp => rfl

lemma on_of_gone (h : c.sending = false) (a : Act) : c.on a = c := by
  have hup : c.hangUp = c := by
    rw [hangUp, ← h]
  have hnot := Deaf.not_admits (.inl h)
  cases a with
  | send chunk => exact on_send_of_not_admits hnot chunk
  | abort e => exact (abort_of_not_admits hnot e).trans hup
  | hangUp => exact hup

/-! ### What it comes to -/

def chunks : List (Except EntityError Bytes) → List Bytes
  | .ok chunk :: q => chunk :: chunks q
  | _ => []

def failure? : List (Except EntityError Bytes) → Option EntityError
  | .ok _ :: q => failure? q
  | .error e :: _ => some e
  | [] => none

@[simp] lemma chunks_ok_append (got : List Bytes) (q : List (Except EntityError Bytes)) :
    chunks (got.map .ok ++ q) = got ++ chunks q := by
  induction got with
  | nil => rfl
  | cons b got ih => simp [chunks, ih]

@[simp] lemma failure?_ok_append (got : List Bytes) (q : List (Except EntityError Bytes)) :
    failure? (got.map .ok ++ q) = failure? q := by
  induction got with
  | nil => rfl
  | cons b got ih => simp [failure?, ih]

lemma chunks_prefix (q q' : List (Except EntityError Bytes)) : chunks q <+: chunks (q ++ q') := by
  induction q with
  | nil => exact List.nil_prefix
  | cons item q ih =>
    cases item with
    | ok chunk => exact (List.prefix_cons_inj chunk).2 ih
    | error e => exact List.nil_prefix

/-- The bytes that a receiver gets, if this goes into the channel before its sender leaves. -/
def bytes (c : Channel) (sent : List (Except EntityError Bytes)) : Bytes :=
  if c.finished then [] else (chunks sent).flatten

/-- How the entity fails, if this goes into the channel before its sender leaves. -/
def verdict (c : Channel) (sent : List (Except EntityError Bytes)) : Option EntityError :=
  if c.finished then none
  else
    match failure? sent with
    | some e => some e
    | none =>
      if c.remaining ≤ (c.bytes sent).length then none
      else some (.truncated c.length (c.length - (c.remaining - (c.bytes sent).length)))

lemma bytes_prefix (c : Channel) (sent later : List (Except EntityError Bytes)) :
    c.bytes sent <+: c.bytes (sent ++ later) := by
  unfold bytes
  split
  · exact List.prefix_refl _
  · obtain ⟨rest, hrest⟩ := chunks_prefix sent later
    rw [← hrest, List.flatten_append]
    exact List.prefix_append ..

/-- What a new channel brings: the chunks, and the error behind them if there is one; without one
they may be too few. -/
lemma create_brings (n k : Nat) (cs : List Bytes) :
    (create n k).bytes (cs.map .ok) = cs.flatten ∧
      (create n k).verdict (cs.map .ok) =
        (if cs.flatten.length < n then some (.truncated n cs.flatten.length) else none) ∧
      ∀ why, (create n k).bytes (cs.map .ok ++ [.error why]) = cs.flatten ∧
        (create n k).verdict (cs.map .ok ++ [.error why]) = some why := by
  have hchunks : chunks (cs.map .ok) = cs := by simpa [chunks] using chunks_ok_append cs []
  have hfailure : failure? (cs.map .ok) = none := by
    simpa [failure?] using failure?_ok_append cs []
  have hbytes : (create n k).bytes (cs.map .ok) = cs.flatten := by simp [bytes, create, hchunks]
  refine ⟨hbytes, ?_, fun why => ⟨by simp [bytes, create, chunks], by
    simp [verdict, create, failure?]⟩⟩
  rw [verdict, hfailure, hbytes]
  by_cases hshort : cs.flatten.length < n
  · have hcount : n - (n - cs.flatten.length) = cs.flatten.length := by omega
    have hle : ¬ n ≤ cs.flatten.length := by omega
    simp only [create, Bool.false_eq_true, if_false, if_neg hle, if_pos hshort, hcount]
  · have hle : (create n k).remaining ≤ cs.flatten.length := Nat.le_of_not_lt hshort
    rw [if_pos hle, if_neg hshort]
    rfl

/-! ### The receiver -/

lemma sending_poll (c : Channel) : c.poll.2.sending = c.sending := by
  unfold poll
  split
  · rfl
  · split
    · rfl
    · rfl
    · split
      · rfl
      · split <;> rfl

lemma sending_of_pending (h : c.poll.1 = .pending) : c.sending = true := by
  unfold poll at h
  split at h
  · cases h
  · split at h
    · cases h
    · cases h
    · split at h
      · assumption
      · split at h <;> cases h

/-- Since the channel was `c₀`, all of `sent` has gone in and `got` has come out, and it is `c`. -/
structure Ledger (c₀ : Channel) (sent : List (Except EntityError Bytes)) (got : List Bytes)
    (c : Channel) : Prop where
  sent : sent = got.map .ok ++ c.queue
  length : c.length = c₀.length
  remaining : c.remaining = c₀.remaining - got.flatten.length
  finished : c.finished = c₀.finished
  idle : c₀.finished = true → got = []

lemma ledger_start (c : Channel) : c.Ledger c.queue [] c where
  sent := rfl
  length := rfl
  remaining := rfl
  finished := rfl
  idle _ := rfl

namespace Ledger

lemma on (h : c₀.Ledger sent got c) (a : Act) : c₀.Ledger (sent ++ c.puts a) got (c.on a) := by
  obtain ⟨-, hlength, hremaining, hfinished⟩ := c.on_keeps a
  exact {
    sent := by rw [h.sent, queue_on, List.append_assoc]
    length := hlength.trans h.length
    remaining := hremaining.trans h.remaining
    finished := hfinished.trans h.finished
    idle := h.idle }

lemma begins (h : c₀.Ledger sent got c) : got.flatten <+: c₀.bytes sent := by
  unfold bytes
  split
  · rename_i hf
    rw [h.idle hf]
    exact List.prefix_refl _
  · rw [h.sent, chunks_ok_append, List.flatten_append]
    exact List.prefix_append ..

lemma bytes_eq (h : c₀.Ledger sent got c) (hq : chunks c.queue = []) :
    c₀.bytes sent = got.flatten := by
  unfold bytes
  split
  · rename_i hf
    rw [h.idle hf]
    rfl
  · rw [h.sent, chunks_ok_append, hq, List.append_nil]

/-- How the entity fails, if its sender leaves an empty queue. -/
lemma verdict_eq (h : c₀.Ledger sent got c) (hf : c₀.finished = false) (hq : c.queue = []) :
    c₀.verdict sent = if c.remaining = 0 then none
      else some (.truncated c.length (c.length - c.remaining)) := by
  have hfailure : failure? sent = none := by rw [h.sent, failure?_ok_append, hq]; rfl
  have hremaining : c.remaining = c₀.remaining - (c₀.bytes sent).length := by
    rw [h.bytes_eq (by rw [hq]; rfl)]
    exact h.remaining
  rw [verdict, hf, hfailure, h.length, ← hremaining]
  by_cases hr : c.remaining = 0
  · have hle : c₀.remaining ≤ (c₀.bytes sent).length := by omega
    simp [hr, hle]
  · have hle : ¬ c₀.remaining ≤ (c₀.bytes sent).length := by omega
    simp [hr, hle]

/-- **A receiver who looks** finds the next chunk, or at last what all that was sent comes to. -/
lemma poll (h : c₀.Ledger sent got c) {what : Reception} {c' : Channel}
    (hp : c.poll = (what, c')) :
    match what with
    | .chunk b => c₀.Ledger sent (got ++ [b]) c'
    | .failed e => c₀.bytes sent = got.flatten ∧ c₀.verdict sent = some e
    | .ended => c₀.bytes sent = got.flatten ∧ c₀.verdict sent = none ∧
        (c₀.finished = true ∨ c'.sending = false)
    | .pending => True := by
  rcases hf : c.finished with _ | _
  · have hopen : c₀.finished = false := h.finished.symm.trans hf
    rcases hq : c.queue with _ | ⟨e | chunk, q⟩
    · -- nothing waits, so that it is the sender who decides
      have hbytes := h.bytes_eq (by rw [hq]; rfl)
      have hverdict := h.verdict_eq hopen hq
      rcases hs : c.sending with _ | _
      · by_cases hr : c.remaining = 0
        · rw [poll_of_whole hf hq hs hr] at hp
          obtain ⟨rfl, rfl⟩ := Prod.mk.inj hp
          exact ⟨hbytes, hverdict.trans (if_pos hr), .inr hs⟩
        · obtain ⟨hpoll, -⟩ := poll_of_short hf hq hs hr
          rw [hp] at hpoll
          obtain rfl := hpoll
          exact ⟨hbytes, hverdict.trans (if_neg hr)⟩
      · rw [poll_of_sending hf hq hs] at hp
        obtain ⟨rfl, -⟩ := Prod.mk.inj hp
        trivial
    · obtain ⟨hpoll, -⟩ := poll_of_error hf hq
      rw [hp] at hpoll
      obtain rfl := hpoll
      have hfailure : failure? sent = some e := by rw [h.sent, failure?_ok_append, hq]; rfl
      exact ⟨h.bytes_eq (by rw [hq]; rfl), by simp [verdict, hopen, hfailure]⟩
    · obtain ⟨hpoll, hlength, hremaining, hqueue, -, -, hfinished⟩ := poll_of_chunk hf hq
      rw [hp] at hpoll hlength hremaining hqueue hfinished
      obtain rfl := hpoll
      exact {
        sent := by rw [h.sent, hq, hqueue]; simp
        length := hlength.trans h.length
        remaining := by
          rw [hremaining, h.remaining]
          simp [Nat.sub_sub]
        finished := hfinished.trans hopen.symm
        idle := by simp [hopen] }
  · have hopen : c₀.finished = true := h.finished.symm.trans hf
    rw [poll_of_finished hf] at hp
    obtain ⟨rfl, rfl⟩ := Prod.mk.inj hp
    exact ⟨by simp [bytes, hopen, h.idle hopen], by simp [verdict, hopen], .inl hopen⟩

end Ledger

end Channel

end Http1
