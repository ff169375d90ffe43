import Mathlib.Tactic.Lemma
import Http1.Response.Writer

/-!
Writing to a sink.

A writer that does not wait for its body goes on or finishes, whatever its body is. What the sink
has taken and what the writer has at hand stay the same bytes together, until the sink refuses
them. Over a sink without faults the writer comes to the flush.
-/

namespace Http1

/-- The sink takes what it is given, some of it at a time. -/
structure SinkBehaviour.Faultless (b : SinkBehaviour) : Prop where
  perWrite : b.perWrite ≠ some 0
  inAll : b.inAll = none
  flushError : b.flushError = none
  shutdownError : b.shutdownError = none

namespace Sink

variable {s : Sink} {b : Bytes}

@[simp] lemma behaviour_write (s : Sink) (b : Bytes) : (s.write b).2.behaviour = s.behaviour := by
  unfold write
  split
  · rfl
  · split
    · split <;> rfl
    · rfl

/-- The sink refuses these bytes: it takes none of them, or fails. -/
def Refuses (s : Sink) (b : Bytes) : Prop :=
  (s.write b).1 = .took 0 ∨ ∃ e, (s.write b).1 = .failed e

lemma output_write (s : Sink) (b : Bytes) :
    (s.write b).2.output = s.output ++
      match (s.write b).1 with
      | .took n => b.take n
      | _ => [] := by
  unfold write
  split
  · simp [output]
  · split
    · split <;> simp [output]
    · simp [output]

lemma not_refuses_of_faultless (h : s.behaviour.Faultless) (hb : b ≠ []) : ¬ s.Refuses b := by
  have hfull : s.isFull = false := by simp [isFull, h.inAll]
  have happetite : s.appetite b.length ≠ 0 := by
    have hpos : 0 < b.length := List.length_pos_iff.2 hb
    unfold appetite
    rw [h.inAll]
    rcases hm : s.behaviour.perWrite with _ | _ | m
    · simp only; omega
    · exact absurd hm h.perWrite
    · simp only; omega
  unfold Refuses write
  split
  · simp
  · simp [hfull, happetite]

end Sink

namespace Writer

variable {w : Writer}

/-- A writer that does not wait for its body moves and leaves the body alone, or finishes. It does
not come to the flush but by the end of its body. -/
lemma step_of_not_waiting (h : w.stage ≠ .waiting) (body : Option Channel) :
    (∃ w', (w.step body = .moved w' body ∨ w.step body = .yielded w' body) ∧
      w'.stage ≠ .flush) ∨
      ∃ w' result, w.step body = .finished w' result := by
  have put : ∀ (piece : Bytes) (left : Sink → Bytes → Writer), w.stage ≠ .flush →
      (∀ s rest, (left s rest).stage ≠ .flush) →
      (∃ w', (w.put body piece left = .moved w' body ∨ w.put body piece left = .yielded w' body) ∧
        w'.stage ≠ .flush) ∨
        ∃ w' result, w.put body piece left = .finished w' result := by
    intro piece left hw hleft
    unfold Writer.put
    rcases w.sink.write piece with ⟨_ | n | e, s⟩
    · exact .inl ⟨_, .inr rfl, hw⟩
    · rcases n with _ | n
      · exact .inr ⟨_, _, rfl⟩
      · exact .inl ⟨_, .inl rfl, hleft s _⟩
    · exact .inr ⟨_, _, rfl⟩
  unfold Writer.step
  split
  · rename_i hs
    split
    · exact .inl ⟨_, .inl rfl, by simp⟩
    · exact put _ _ (by simp [hs]) fun s rest => by simp [hs]
  · exact absurd ‹_› h
  · exact .inl ⟨_, .inl rfl, by simp⟩
  · rename_i hs
    exact put _ _ (by simp [hs]) fun s rest => by simp
  · split
    · exact .inr ⟨_, _, rfl⟩
    · exact .inr ⟨_, _, rfl⟩

def Step.next? : Step → Option Writer
  | .moved w _ => some w
  | .yielded w _ => some w
  | .stuck => none
  | .finished w _ => some w

lemma behaviour_step {body : Option Channel} {w' : Writer} (h : (w.step body).next? = some w') :
    w'.sink.behaviour = w.sink.behaviour := by
  have put : ∀ (piece : Bytes) (left : Sink → Bytes → Writer), (∀ s rest, (left s rest).sink = s) →
      (w.put body piece left).next? = some w' → w'.sink.behaviour = w.sink.behaviour := by
    intro piece left hleft hput
    have hb := w.sink.behaviour_write piece
    unfold Writer.put at hput
    rcases hs : w.sink.write piece with ⟨_ | n | e, s⟩ <;> rw [hs] at hb hput
    · rw [← Option.some.inj hput]
      exact hb
    · rcases n with _ | n
      · rw [← Option.some.inj hput]
        exact hb
      · rw [← Option.some.inj hput, hleft]
        exact hb
    · rw [← Option.some.inj hput]
      exact hb
  unfold Writer.step at h
  split at h
  · split at h
    · rw [← Option.some.inj h]
    · exact put _ _ (fun _ _ => rfl) h
  · split at h
    · rw [← Option.some.inj h]
    · split at h <;> simp only [Step.next?, Option.some.injEq, reduceCtorEq] at h <;> rw [← h]
  · rw [← Option.some.inj h]
  · exact put _ _ (fun _ _ => rfl) h
  · unfold Sink.flush at h
    split at h
    · rename_i s hs
      split at hs
      · simp at hs
      · rw [← Option.some.inj h, ← Except.ok.inj hs]
    · rw [← Option.some.inj h]

/-- A writer that finishes well has nothing left. -/
lemma buffer_of_finished {body : Option Channel} {w' : Writer}
    (h : w.step body = .finished w' (.ok ())) : w'.buffer = [] := by
  have put : ∀ (piece : Bytes) (left : Sink → Bytes → Writer),
      w.put body piece left ≠ .finished w' (.ok ()) := by
    intro piece left
    unfold Writer.put
    split <;> simp
  unfold Writer.step at h
  split at h
  · split at h
    · simp at h
    · exact absurd h (put _ _)
  · split at h
    · simp at h
    · split at h <;> simp at h
  · simp at h
  · exact absurd h (put _ _)
  · split at h
    · rw [Step.finished.injEq] at h
      rw [← h.1]
    · simp at h

def atHand (w : Writer) : Bytes :=
  match w.stage with
  | .head => w.buffer
  | .chunk rest => rest
  | _ => []

/-- Behind the head, the buffer is empty. -/
def Tidy (w : Writer) : Prop := w.stage ≠ .head → w.buffer = []

/-- Whatever was taken or at hand of `w` is so of `w'`. -/
structure Onward (w w' : Writer) : Prop where
  bytes : w'.sink.output ++ w'.atHand = w.sink.output ++ w.atHand
  tidy : w.Tidy → w'.Tidy
  behaviour : w'.sink.behaviour = w.sink.behaviour
  stage : w'.stage ≠ .flush

def Refused (w : Writer) : Prop :=
  (w.atHand ≠ [] ∧ w.sink.Refuses w.atHand) ∨ w.stage = .flush ∧ ∃ e, w.sink.flush = .error e

lemma not_refused_of_faultless (h : w.sink.behaviour.Faultless) : ¬ w.Refused := by
  rintro (⟨hhand, hrefuses⟩ | ⟨-, e, hflush⟩)
  · exact Sink.not_refuses_of_faultless h hhand hrefuses
  · simp [Sink.flush, h.flushError] at hflush

lemma put_cases {piece : Bytes} (hp : piece ≠ []) (body : Option Channel)
    (left : Sink → Bytes → Writer) (hw : w.stage ≠ .flush) (hhand : w.atHand = piece)
    (hleft : ∀ s rest, (left s rest).sink = s ∧ (left s rest).atHand = rest ∧
      (left s rest).stage ≠ .flush ∧ (w.Tidy → (left s rest).Tidy)) :
    (¬ w.Refused ∧ ∃ w', (w.put body piece left = .moved w' body ∨
        w.put body piece left = .yielded w' body) ∧ w.Onward w') ∨
      (w.Refused ∧ ∃ w' e, w.put body piece left = .finished w' (.error (.transport e)) ∧
        w'.sink.output = w.sink.output) := by
  have hrefused : w.Refused ↔ w.sink.Refuses piece := by
    simp [Refused, hhand, hp, hw]
  rw [hrefused, Sink.Refuses]
  have hb := w.sink.behaviour_write piece
  have hout := w.sink.output_write piece
  rcases hs : w.sink.write piece with ⟨_ | (_ | n) | e, s⟩ <;> rw [hs] at hb hout
  · refine .inl ⟨by simp, { w with sink := s }, .inr (by simp [put, hs]), ?_, id, hb, hw⟩
    have hsame : ({ w with sink := s } : Writer).atHand = w.atHand := rfl
    simpa [hsame] using hout
  · exact .inr ⟨.inl rfl, { w with sink := s }, .writeZero, by simp [put, hs], by simpa using hout⟩
  · obtain ⟨h1, h2, h3, h4⟩ := hleft s (piece.drop (n + 1))
    refine .inl ⟨by simp, left s (piece.drop (n + 1)), .inl (by simp [put, hs]), ?_, h4,
      by rw [h1, hb], h3⟩
    rw [h1, h2, hhand]
    simp only at hout
    rw [hout, List.append_assoc, List.take_append_drop]
  · exact .inr ⟨.inr ⟨e, rfl⟩, { w with sink := s }, e, by simp [put, hs], by simpa using hout⟩

/-- **A writer** that neither waits nor flushes goes on with the same bytes, unless it is
refused. -/
lemma step_cases (hw : w.stage ≠ .waiting) (hf : w.stage ≠ .flush) (body : Option Channel) :
    (¬ w.Refused ∧ ∃ w', (w.step body = .moved w' body ∨ w.step body = .yielded w' body) ∧
        w.Onward w') ∨
      (w.Refused ∧ ∃ w' e, w.step body = .finished w' (.error (.transport e)) ∧
        w'.sink.output = w.sink.output) := by
  obtain ⟨sink, buffer, stage⟩ := w
  cases stage with
  | head =>
    by_cases hb : buffer = []
    · subst hb
      exact .inl ⟨by simp [Refused, atHand], ⟨sink, [], .waiting⟩, .inl (by simp [step]),
        by simp [atHand], fun _ _ => rfl, rfl, by simp⟩
    · have hput := put_cases (w := ⟨sink, buffer, .head⟩) hb body
        (fun s rest => ⟨s, rest, .head⟩) hf rfl fun s rest =>
          ⟨rfl, rfl, by simp, fun _ hhead => absurd rfl hhead⟩
      simpa [step, hb] using hput
  | waiting => exact absurd rfl hw
  | chunk rest =>
    cases rest with
    | nil =>
      exact .inl ⟨by simp [Refused, atHand], ⟨sink, buffer, .waiting⟩, .inl (by simp [step]),
        by simp [atHand], fun ht _ => ht (by simp), rfl, by simp⟩
    | cons x rest =>
      exact put_cases (w := ⟨sink, buffer, .chunk (x :: rest)⟩) (List.cons_ne_nil x rest) body
        (fun s rest => ⟨s, buffer, .chunk rest⟩) hf rfl fun s rest =>
          ⟨rfl, rfl, by simp, fun ht _ => ht (by simp)⟩
  | flush => exact absurd rfl hf

lemma step_flush (hf : w.stage = .flush) (body : Option Channel) :
    (¬ w.Refused ∧ ∃ s, w.step body = .finished ⟨s, [], .flush⟩ (.ok ()) ∧
        s.output = w.sink.output ∧ s.behaviour = w.sink.behaviour) ∨
      (w.Refused ∧ ∃ w' e, w.step body = .finished w' (.error (.transport e)) ∧
        w'.sink.output = w.sink.output) := by
  have hhand : w.atHand = [] := by simp [atHand, hf]
  rcases he : w.sink.behaviour.flushError with _ | e
  · refine .inl ⟨by simp [Refused, hhand, Sink.flush, he],
      { w.sink with flushes := w.sink.flushes + 1 }, ?_, rfl, rfl⟩
    simp [step, hf, Sink.flush, he]
  · exact .inr ⟨.inr ⟨hf, e, by simp [Sink.flush, he]⟩, { w with buffer := [] }, e,
      by simp [step, hf, Sink.flush, he], rfl⟩

/-- **Over a sink without faults**, a writer goes on with the same bytes until it flushes. -/
lemma step_of_faultless (h : w.sink.behaviour.Faultless) (hw : w.stage ≠ .waiting)
    (hf : w.stage ≠ .flush) (body : Option Channel) :
    ∃ w', (w.step body = .moved w' body ∨ w.step body = .yielded w' body) ∧ w.Onward w' := by
  rcases step_cases hw hf body with ⟨-, hgo⟩ | ⟨hrefused, -⟩
  · exact hgo
  · exact absurd hrefused (not_refused_of_faultless h)

lemma step_flush_of_faultless (h : w.sink.behaviour.Faultless) (hf : w.stage = .flush)
    (body : Option Channel) :
    ∃ s, w.step body = .finished ⟨s, [], .flush⟩ (.ok ()) ∧ s.output = w.sink.output ∧
      s.behaviour = w.sink.behaviour := by
  rcases step_flush hf body with ⟨-, hdone⟩ | ⟨hrefused, -⟩
  · exact hdone
  · exact absurd hrefused (not_refused_of_faultless h)

end Writer

end Http1
