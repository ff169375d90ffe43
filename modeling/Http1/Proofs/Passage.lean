import Mathlib.Tactic.Lemma
import Http1.Entity.Channel

/-!
What passes through the channel of an entity that comes to its full length.

`Carries n given got c` says that `given` has gone into the channel `c` of an entity of `n` bytes
and that `got` has come out. It is kept by whatever either end does, so that a receiver who stays
finds all that was given, and then a clean end.
-/

namespace Http1

namespace Channel

structure Carries (n : Nat) (given got : Bytes) (c : Channel) : Prop where
  length : c.length = n
  remaining : c.remaining = n - got.length
  queue : c.receiving = true → ∃ q : List Bytes, c.queue = q.map .ok ∧ got ++ q.flatten = given
  gone : c.receiving = false → c.queue = []
  begins : got <+: given
  whole : c.sending = false → given.length = n
  finished : c.finished = true → got = given ∧ c.sending = false

variable {n : Nat} {given got chunk : Bytes} {c : Channel}

/-! ### One look -/

lemma poll_of_finished (h : c.finished = true) : c.poll = (.ended, c) := by simp [poll, h]

lemma poll_of_chunk {b : Bytes} {q : List (Except EntityError Bytes)} (hf : c.finished = false)
    (hq : c.queue = .ok b :: q) :
    c.poll.1 = .chunk b ∧ c.poll.2.length = c.length ∧
      c.poll.2.remaining = c.remaining - b.length ∧ c.poll.2.queue = q ∧
      c.poll.2.sending = c.sending ∧ c.poll.2.receiving = c.receiving ∧
      c.poll.2.finished = false := by
  unfold poll
  rw [if_neg (by simp [hf])]
  split <;> rename_i hq' <;> rw [hq] at hq' <;> simp at hq'
  obtain ⟨rfl, rfl⟩ := hq'
  simp [hf]

lemma poll_of_sending (hf : c.finished = false) (hq : c.queue = []) (hs : c.sending = true) :
    c.poll = (.pending, c) := by
  unfold poll
  rw [if_neg (by simp [hf])]
  split <;> rename_i hq' <;> rw [hq] at hq' <;> simp at hq'
  rw [if_pos hs]

lemma poll_of_whole (hf : c.finished = false) (hq : c.queue = []) (hs : c.sending = false)
    (hr : c.remaining = 0) : c.poll = (.ended, { c with finished := true }) := by
  unfold poll
  rw [if_neg (by simp [hf])]
  split <;> rename_i hq' <;> rw [hq] at hq' <;> simp at hq'
  rw [if_neg (by simp [hs]), if_pos hr]

/-! ### What is kept -/

lemma carries_create (n k : Nat) : (create n k).Carries n [] [] where
  length := rfl
  remaining := rfl
  queue _ := ⟨[], rfl, rfl⟩
  gone h := by simp [create] at h
  begins := List.nil_prefix
  whole h := by simp [create] at h
  finished h := by simp [create] at h

namespace Carries

lemma unfinished (h : c.Carries n given got) (hs : c.sending = true) : c.finished = false := by
  rcases hf : c.finished with _ | _
  · rfl
  · simp [(h.finished hf).2] at hs

lemma offer (h : c.Carries n given got) (hs : c.sending = true) (chunk : Bytes) :
    (∃ c', c.offer chunk = .sent c' ∧ c'.Carries n (given ++ chunk) got ∧
      c'.sending = true ∧ c'.receiving = c.receiving) ∨
    (c.offer chunk = .full ∧ c.receiving = true ∧ c.queue ≠ []) ∨
    (c.offer chunk = .closed ∧ c.receiving = false ∧ c.Carries n (given ++ chunk) got) := by
  have hf := h.unfinished hs
  rcases hr : c.receiving with _ | _
  · refine .inr (.inr ⟨offer_of_deaf (.inr hr) chunk, rfl, ?_⟩)
    exact {
      length := h.length
      remaining := h.remaining
      queue := by simp [hr]
      gone := h.gone
      begins := h.begins.trans (List.prefix_append ..)
      whole := by simp [hs]
      finished := by simp [hf] }
  · have hthere : ¬ c.Deaf := not_deaf_iff.2 ⟨hs, hr⟩
    by_cases hroom : c.queue.length < c.capacity
    · refine .inl ⟨c.push (.ok chunk) hroom, offer_of_admits ⟨hthere, hroom⟩ chunk, ?_, hs, hr⟩
      obtain ⟨q, hq, hgiven⟩ := h.queue hr
      exact {
        length := h.length
        remaining := h.remaining
        queue := fun _ => ⟨q ++ [chunk], by simp [push, hq], by simp [← hgiven]⟩
        gone := by simp [push, hr]
        begins := h.begins.trans (List.prefix_append ..)
        whole := by simp [push, hs]
        finished := by simp [push, hf] }
    · refine .inr (.inl ⟨offer_of_full hthere hroom chunk, rfl, ?_⟩)
      intro hq
      have := c.capacity_pos
      simp [hq] at hroom
      omega

lemma hangUp (h : c.Carries n given got) (hn : given.length = n) :
    c.hangUp.Carries n given got where
  length := h.length
  remaining := h.remaining
  queue := h.queue
  gone := h.gone
  begins := h.begins
  whole _ := hn
  finished hf := ⟨(h.finished hf).1, rfl⟩

lemma leave (h : c.Carries n given got) : c.leave.Carries n given got where
  length := h.length
  remaining := h.remaining
  queue hr := by simp [Channel.leave] at hr
  gone _ := rfl
  begins := h.begins
  whole := h.whole
  finished := h.finished

/-- **A receiver who looks** finds a chunk, the clean end of all that was given, or, while the
sender is there, nothing yet. -/
lemma poll (h : c.Carries n given got) (hr : c.receiving = true) :
    (c.poll.1 = .pending ∧ c.sending = true ∧ c.queue = []) ∨
    (∃ b, c.poll.1 = .chunk b ∧ c.finished = false ∧ c.poll.2.Carries n given (got ++ b) ∧
      c.poll.2.finished = false ∧ c.poll.2.sending = c.sending ∧ c.poll.2.receiving = true) ∨
    (c.poll.1 = .ended ∧ got = given ∧ c.poll.2.Carries n given got ∧
      c.poll.2.finished = true ∧ c.poll.2.sending = c.sending ∧ c.poll.2.receiving = true) := by
  obtain ⟨q, hq, hgiven⟩ := h.queue hr
  rcases hf : c.finished with _ | _
  · rcases q with _ | ⟨b, q⟩
    · have hall : got = given := by simpa using hgiven
      rcases hs : c.sending with _ | _
      · have hlen : c.remaining = 0 := by rw [h.remaining, hall, h.whole hs, Nat.sub_self]
        rw [poll_of_whole hf hq hs hlen]
        exact .inr (.inr ⟨rfl, hall, { h with finished := fun _ => ⟨hall, hs⟩ }, rfl, hs, hr⟩)
      · rw [poll_of_sending hf hq hs]
        exact .inl ⟨rfl, rfl, hq⟩
    · obtain ⟨hchunk, hlength, hremaining, hqueue, hsending, hreceiving, hfinished⟩ :=
        poll_of_chunk hf hq
      refine .inr (.inl ⟨b, hchunk, rfl, ?_, hfinished, hsending, hreceiving.trans hr⟩)
      exact {
        length := hlength.trans h.length
        remaining := by rw [hremaining, h.remaining, List.length_append, Nat.sub_sub]
        queue := fun _ => ⟨q, hqueue, by simpa using hgiven⟩
        gone := by simp [hreceiving, hr]
        begins := ⟨q.flatten, by simpa using hgiven⟩
        whole := fun hs => h.whole (hsending ▸ hs)
        finished := by simp [hfinished] }
  · rw [poll_of_finished hf]
    obtain ⟨hall, hs⟩ := h.finished hf
    exact .inr (.inr ⟨rfl, hall, h, hf, rfl, hr⟩)

end Carries

end Channel

end Http1
