import Http1.Proofs.Receiving

/-!
Arrivals one at a time.

A question to a reader reads until there is a frame, or nothing more that has arrived. Here each of
these reads is told on its own, so that something else can happen before the next one. Main
statement: a question reads arrival after arrival, and is then one for which nothing is read.
-/

namespace Http1

namespace Source

variable {s t : Source} {q : Read}

lemma suffix_of_read (h : s.read = (q, t)) : t <:+ s := by
  rcases s with _ | ⟨(_ | ⟨x, b⟩) | _ | e, s⟩ <;> cases h
  · exact List.suffix_refl _
  all_goals exact List.suffix_cons ..

lemma unread_of_read (h : s.read = (q, t)) (hq : ∀ b, q ≠ .data b) : t.unread = s.unread := by
  rcases s with _ | ⟨(_ | ⟨x, b⟩) | _ | e, s⟩ <;> cases h <;>
    first | exact absurd rfl (hq _) | simp [unread]

end Source

namespace FrameReader

variable {r r' : FrameReader}

/-- The reader that has read what has arrived, if it has to read and something has arrived. -/
def arrival? (r : FrameReader) : Option FrameReader :=
  match r.state, r.source with
  | .live f, .bytes (x :: b) :: s =>
    if f.frame.isSome then none else some ⟨s, .of (f.next (x :: b))⟩
  | _, _ => none

lemma arrival?_eq_some (h : r.arrival? = some r') :
    ∃ f x b s, r = ⟨.bytes (x :: b) :: s, .live f⟩ ∧ f.frame = none ∧
      r' = ⟨s, .of (f.next (x :: b))⟩ := by
  obtain ⟨source, state⟩ := r
  unfold arrival? at h
  split at h
  · rename_i f x b s hstate hsource
    split at h
    · simp at h
    · rename_i hf
      obtain rfl : state = .live f := hstate
      obtain rfl : source = .bytes (x :: b) :: s := hsource
      exact ⟨f, x, b, s, rfl, by simpa using hf, (Option.some.inj h).symm⟩
  · simp at h

lemma length_arrival (h : r.arrival? = some r') : r'.source.length < r.source.length := by
  obtain ⟨f, x, b, s, rfl, -, rfl⟩ := arrival?_eq_some h
  simp

lemma potential_arrival (h : r.arrival? = some r') : r'.potential < r.potential := by
  obtain ⟨f, x, b, s, rfl, hf, rfl⟩ := arrival?_eq_some h
  have hweight : f.weight = 2 * f.buffer.length := by simp [Framing.weight, hf]
  have hheld : f.held = f.buffer.length := by simp [Framing.held, hf]
  rcases hn : f.next (x :: b) with e | g
  · simp only [potential, ReaderState.of, Source.weight, Source.unread, List.length_cons]
    omega
  · have hone : (if f.nextPhase = .entityEnd then 1 else 0) ≤ 1 := by split <;> omega
    have hw := Framing.weight_build_le hn
    have hh := Framing.held_build_le hn
    simp only [List.length_append, List.length_cons] at hw hh
    simp only [potential, ReaderState.of, Source.weight, Source.unread, List.length_cons]
    omega

/-- An arrival is read by the question that follows. -/
lemma pull_arrival (h : r.arrival? = some r') : r.pull = r'.pull := by
  obtain ⟨f, x, b, s, rfl, hf, rfl⟩ := arrival?_eq_some h
  have hread : Source.read (.bytes (x :: b) :: s) = (.data (x :: b), s) := rfl
  rw [pull]
  simp only [hf]
  split <;> rename_i hr <;> rw [hread] at hr <;> cases hr
  rcases hn : f.next (x :: b) with e | g
  · simp only [ReaderState.of]
    rw [pull]
  · rfl

lemma pull_of_frame {f : Framing} {frame : Frame} (hl : r.state = .live f)
    (hf : f.frame = some frame) : r.pull = (.frame frame, ⟨r.source, .of (f.next [])⟩) := by
  obtain ⟨source, state⟩ := r
  obtain rfl : state = .live f := hl
  rw [pull]
  simp only [hf]
  rcases hn : f.next [] with e | g <;> rfl

/-- What a question comes to for which nothing has to be read that has arrived. -/
inductive Asked (r : FrameReader) : Pull → FrameReader → Prop where
  | spent : r.state = .ended → Asked r (.ended 0) r
  | malformed {e : ParseError} :
      r.state = .failed e → Asked r (.failed (.parse e)) { r with state := .ended }
  | frame {f : Framing} {frame : Frame} :
      r.state = .live f → f.frame = some frame → Asked r (.frame frame) ⟨r.source, .of (f.next [])⟩
  | waited {f : Framing} {s : Source} :
      r.state = .live f → f.frame = none → r.source.read = (.blocked, s) →
      Asked r .blocked ⟨s, .live f⟩
  | ended {f : Framing} {s : Source} :
      r.state = .live f → f.frame = none → r.source.read = (.ended, s) →
      Asked r (.ended f.buffer.length) ⟨s, .ended⟩
  | broken {f : Framing} {e : TransportError} {s : Source} :
      r.state = .live f → f.frame = none → r.source.read = (.failed e, s) →
      Asked r (.failed (.transport e)) ⟨s, .ended⟩

lemma asked (h : r.arrival? = none) : Asked r r.pull.1 r.pull.2 := by
  obtain ⟨source, state⟩ := r
  rcases state with f | e | _
  · rcases hf : f.frame with _ | frame
    · rw [pull]
      simp only [hf]
      rcases source with _ | ⟨⟨_ | ⟨x, b⟩⟩ | _ | e, s⟩
      · exact .ended rfl hf rfl
      · exact .ended rfl hf rfl
      · simp [arrival?, hf] at h
      · exact .waited rfl hf rfl
      · exact .broken rfl hf rfl
    · rw [pull_of_frame (r := ⟨source, .live f⟩) rfl hf]
      exact .frame rfl hf
  · rw [pull]
    exact .malformed rfl
  · rw [pull]
    exact .spent rfl

/-- **A question** is put to a reader that has read what has arrived, one arrival after the
other. -/
lemma exists_asked {P : FrameReader → Prop} (h : ∀ {r r'}, P r → r.arrival? = some r' → P r')
    {r : FrameReader} (hr : P r) : ∃ r', P r' ∧ r'.Asked r.pull.1 r.pull.2 := by
  rcases ha : r.arrival? with _ | r'
  · exact ⟨r, hr, asked ha⟩
  · have hlt := length_arrival ha
    rw [pull_arrival ha]
    exact exists_asked h (h hr ha)
termination_by r.source.length

lemma source_pull (r : FrameReader) : r.pull.2.source <:+ r.source := by
  obtain ⟨s, hsuffix, hasked⟩ := exists_asked (r := r) (P := fun s => s.source <:+ r.source)
    (fun h h' => by
      obtain ⟨f, x, b, s, rfl, -, rfl⟩ := arrival?_eq_some h'
      exact (List.suffix_cons ..).trans h)
    (List.suffix_refl _)
  refine List.IsSuffix.trans ?_ hsuffix
  generalize r.pull.1 = q at hasked
  generalize r.pull.2 = r' at hasked ⊢
  cases hasked with
  | spent => exact List.suffix_refl _
  | malformed => exact List.suffix_refl _
  | frame => exact List.suffix_refl _
  | waited _ _ hs => exact Source.suffix_of_read hs
  | ended _ _ hs => exact Source.suffix_of_read hs
  | broken _ _ hs => exact Source.suffix_of_read hs

lemma source_pull_ne (h : r.arrival? = some r') : r.pull.2.source ≠ r.source := by
  have hsuffix := (pull_arrival h ▸ r'.source_pull : r.pull.2.source <:+ r'.source).length_le
  have hlt := length_arrival h
  intro heq
  rw [heq] at hsuffix
  exact absurd hlt (Nat.not_lt.2 hsuffix)

end FrameReader

end Http1
