import Http1.Proofs.Arrivals

/-!
A reader within an entity.

Of the entity some bytes are still to be handed on, and the framing holds some bytes that have been
read. It hands on what it holds of the entity as one chunk, and reads only when it holds nothing.
Main statement: what a question brings.
-/

namespace Http1

variable {l : Lexicon} {n : Nat} {b : Bytes}

namespace FrameReader

variable {r r' : FrameReader}

/-- Of an entity, `n` bytes are to be handed on, and the framing holds the bytes `b`. -/
def Amid (l : Lexicon) (n : Nat) (b : Bytes) (r : FrameReader) : Prop :=
  r.state = .of (Framing.build l (.outstanding n) b)

lemma Amid.live (h : r.Amid l n b) :
    (n = 0 ∧ r.state = .live ⟨l, .entityEnd, b, some .entityEnd⟩) ∨
      (∃ hn : 0 < n, b = [] ∧ r.state = .live ⟨l, .entity n hn, [], none⟩) ∨
      ∃ hn : 0 < n, b ≠ [] ∧
        r.state = .live ⟨l, .entity n hn, b.drop n, some (.entityChunk (b.take n))⟩ := by
  rcases Nat.eq_zero_or_pos n with rfl | hn
  · exact .inl ⟨rfl, h⟩
  · rw [Amid, Phase.outstanding_pos hn] at h
    by_cases hb : b = []
    · subst hb
      exact .inr (.inl ⟨hn, rfl, h⟩)
    · rw [Framing.build_of_scan (Framing.scan_entity_done hb)] at h
      exact .inr (.inr ⟨hn, hb, h⟩)

lemma Amid.arrival (h : r.Amid l n b) (ha : r.arrival? = some r') :
    b = [] ∧ ∃ x c s, r.source = .bytes (x :: c) :: s ∧ r'.source = s ∧ r'.Amid l n (x :: c) := by
  obtain ⟨f, x, c, s, rfl, hf, rfl⟩ := arrival?_eq_some ha
  rcases h.live with ⟨-, hlive⟩ | ⟨hn, hb, hlive⟩ | ⟨_, -, hlive⟩
  · rw [ReaderState.live.inj hlive] at hf
    cases hf
  · rw [ReaderState.live.inj hlive]
    refine ⟨hb, x, c, s, rfl, rfl, ?_⟩
    rw [Amid, Phase.outstanding_pos hn]
    rfl
  · rw [ReaderState.live.inj hlive] at hf
    cases hf

/-- What a question within an entity comes to, for which nothing has to be read. -/
inductive Brings (l : Lexicon) (n : Nat) (b : Bytes) (r : FrameReader) :
    Pull → FrameReader → Prop where
  | complete {r' : FrameReader} :
      n = 0 → r'.source = r.source → r'.state = .of (Framing.build l .requestLine b) →
      Brings l n b r (.frame .entityEnd) r'
  | chunk {c b' : Bytes} {r' : FrameReader} :
      c ≠ [] → c.length ≤ n → b = c ++ b' → r'.source = r.source → r'.Amid l (n - c.length) b' →
      Brings l n b r (.frame (.entityChunk c)) r'
  | waited {s : Source} :
      b = [] → r.source.read = (.blocked, s) → Brings l n b r .blocked ⟨s, r.state⟩
  | ended {s : Source} :
      b = [] → r.source.read = (.ended, s) → Brings l n b r (.ended 0) ⟨s, .ended⟩
  | broken {e : TransportError} {s : Source} :
      b = [] → r.source.read = (.failed e, s) →
      Brings l n b r (.failed (.transport e)) ⟨s, .ended⟩

/-- **Within an entity**, a question brings chunks of what is held, and then the end. -/
lemma Amid.brings (h : r.Amid l n b) (ha : r.arrival? = none) :
    r.Brings l n b r.pull.1 r.pull.2 := by
  rcases h.live with ⟨rfl, hlive⟩ | ⟨hn, rfl, hlive⟩ | ⟨hn, hb, hlive⟩
  · rw [pull_of_frame hlive rfl]
    exact .complete rfl rfl (by simp [Framing.next, Framing.nextPhase, Phase.next])
  · have hasked := asked ha
    generalize r.pull.1 = q at hasked ⊢
    generalize r.pull.2 = r' at hasked ⊢
    have same : ∀ {f}, r.state = .live f → f = ⟨l, .entity n hn, [], none⟩ := fun hl =>
      ReaderState.live.inj (hl.symm.trans hlive)
    cases hasked with
    | spent he => simp [hlive] at he
    | malformed he => simp [hlive] at he
    | frame hl hf => simp [same hl] at hf
    | waited hl _ hs => exact hl ▸ .waited rfl hs
    | ended hl _ hs =>
      rw [same hl]
      exact .ended rfl hs
    | broken _ _ hs => exact .broken rfl hs
  · rw [pull_of_frame hlive rfl]
    refine .chunk ?_ (List.length_take_le n b) (List.take_append_drop n b).symm rfl ?_
    · rw [Ne, List.take_eq_nil_iff]
      exact fun hnil => hnil.elim (Nat.ne_of_gt hn) hb
    · simp [Amid, Framing.next, Framing.nextPhase, Phase.next]

end FrameReader

end Http1
