import Http1.Proofs.Reception

/-!
The delivery of an entity.

Whatever the order of steps, the service receives the bytes of the entity in order and then its
end, and an exchange comes to rest with the entity consumed and not a byte more.
-/

namespace Http1

open Channel (Reception)

namespace Exchange

variable {l : Lexicon} {n : Nat} {b : Bytes} {fate : Option TransportError}
  {s : SinkBehaviour} {keeps : Prop} {x : Exchange}

/-- The entity is on its way, and the service has received so much of it. -/
def Flows (l : Lexicon) (n : Nat) (b : Bytes) (fate : Option TransportError)
    (s : SinkBehaviour) (keeps : Prop) (heard : List Reception) (x : Exchange) : Prop :=
  x.sink.behaviour = s ∧
    ∃ given got k r, Carried l n b fate given got r x ∧ Attends s keeps got r.channel x.service ∧
      heard = got.map .chunk ++ List.replicate k .ended ∧ (r.channel.finished = true ↔ 0 < k)

namespace Flows

variable {heard : List Reception}

lemma after_intake (h : Flows l n b fate s keeps heard x) (hn : n ≤ b.length) :
    Flows l n b fate s keeps heard (x.after .intake) := by
  obtain ⟨hb, given, got, k, r, hcar, hatt, rfl, hfin⟩ := h
  refine ⟨(behaviour_after x .intake).trans hb, ?_⟩
  rcases hcar.stepIntake with ⟨y, given', r', hstep, hcar', hrec, hfin', hser, -⟩ | ⟨hstuck, -⟩ |
    ⟨-, -, -, hshort, -⟩
  · have hy : x.after .intake = y :=
      hstep.elim (after_of_moved (p := .intake)) (after_of_yielded (p := .intake))
    rw [hy]
    refine ⟨given', got, k, r', hcar', ?_, rfl, by rw [hfin']; exact hfin⟩
    rw [hser]
    rcases hs : x.service with ⟨p, chunks⟩ | ⟨stage, _ | _ | _⟩ | result <;> rw [hs] at hatt <;>
      simpa [Attends, hrec, hfin'] using hatt
  · rw [after_of_stuck (p := .intake) hstuck]
    exact ⟨given, got, k, r, hcar, hatt, rfl, hfin⟩
  · omega

lemma after_service (h : Flows l n b fate s keeps heard x) :
    Flows l n b fate s keeps (heard ++ x.sight .service) (x.after .service) := by
  obtain ⟨hb, given, got, k, r, hcar, hatt, rfl, hfin⟩ := h
  refine ⟨(behaviour_after x .service).trans hb, ?_⟩
  rcases hcar.stepService hatt hb with ⟨y, got', r', hstep, hcar', hatt', hhears⟩ | ⟨hstuck, -⟩
  · have hy : x.after .service = y :=
      hstep.elim (after_of_moved (p := .service)) (after_of_yielded (p := .service))
    rw [hy]
    rcases hhears with ⟨hs, rfl, hf⟩ | ⟨c, hs, rfl, hf, hf'⟩ | ⟨hs, rfl, hf⟩ <;> rw [hs]
    · exact ⟨given, got', k, r', hcar', hatt', by simp, by rw [hf]; exact hfin⟩
    · obtain rfl : k = 0 := by
        rw [hf] at hfin
        simpa using hfin
      exact ⟨given, _, 0, r', hcar', hatt', by simp, by simp [hf']⟩
    · exact ⟨given, got', k + 1, r', hcar', hatt',
        by rw [List.append_assoc, List.replicate_succ'], by simp [hf]⟩
  · rw [after_of_stuck (p := .service) hstuck, sight_of_stuck hstuck, List.append_nil]
    exact ⟨given, got, k, r, hcar, hatt, rfl, hfin⟩

/-- **Every run keeps the delivery going.** -/
lemma run (h : Flows l n b fate s keeps heard x) (hn : n ≤ b.length) (ps : List Party) :
    Flows l n b fate s keeps (heard ++ x.seen ps) (x.run ps) := by
  induction ps generalizing x heard with
  | nil => simpa [seen] using h
  | cons p ps ih =>
    rw [seen, ← List.append_assoc]
    cases p with
    | intake => exact ih (by simpa [sight] using h.after_intake hn)
    | service => exact ih h.after_service

lemma heard_eq (h : Flows l n b fate s keeps heard x) :
    ∃ (got : List Bytes) (k : Nat), heard = got.map .chunk ++ List.replicate k .ended ∧
      got.flatten <+: b.take n ∧ (0 < k → got.flatten = b.take n) ∧
      ∀ p chunks, x.service = .planning p chunks → heard = chunks.map .chunk := by
  obtain ⟨-, given, got, k, r, hcar, hatt, rfl, hfin⟩ := h
  refine ⟨got, k, rfl, hcar.carries.begins.trans hcar.given_begins,
    fun hk => hcar.got_of_finished (hfin.2 hk), fun p chunks hs => ?_⟩
  rw [hs] at hatt
  obtain ⟨rfl, -, hf, -⟩ := hatt
  obtain rfl : k = 0 := by
    rw [hf] at hfin
    simpa using hfin
  simp

/-- **At rest**, the intake has come to the end of the entity and no further, and the service is
done with it. -/
lemma atRest (h : Flows l n b fate s keeps heard x) (hn : n ≤ b.length) (hrest : x.AtRest) :
    x.intake = .ended (.ok ()) ∧ x.reader.Stands l .requestLine (b.drop n) fate ∧
      ((∃ result, x.service = .ended result) ∨ ∃ c, x.service = .writing .waiting (.own c)) ∧
      (keeps → ∃ (got : List Bytes) (k : Nat),
        heard = got.map .chunk ++ List.replicate (k + 1) .ended ∧ got.flatten = b.take n) := by
  obtain ⟨hb, given, got, k, r, hcar, hatt, rfl, hfin⟩ := h
  have hin : x.stepIntake = .stuck := hrest .intake
  have hser : x.stepService = .stuck := hrest .service
  -- a service that has done with the stream has left it
  have left : ((∃ result, x.service = .ended result) ∨
      ∃ c, x.service = .writing .waiting (.own c)) →
      r.channel.receiving = false ∧ (keeps → r.channel.finished = true) := by
    rintro (⟨result, hs⟩ | ⟨c, hs⟩) <;> rw [hs] at hatt <;> exact hatt
  have hwhy : (∃ result, x.service = .ended result) ∨
      (∃ c, x.service = .writing .waiting (.own c)) ∨
        r.channel.sending = true ∧ r.channel.queue = [] := by
    rcases hcar.stepService hatt hb with ⟨y, -, -, hstep, -⟩ | ⟨-, hwhy⟩
    · rcases hstep with hstep | hstep <;> simp [hser] at hstep
    · exact hwhy
  rcases hcar.stepIntake with ⟨y, -, -, hstep, -⟩ | ⟨-, ⟨hended, hdone⟩ | ⟨hrec, hq⟩⟩ |
    ⟨-, -, -, hshort, -⟩
  · rcases hstep with hstep | hstep <;> simp [hin] at hstep
  · have hsend : r.channel.sending = false := by rw [hcar.sending, hdone]; rfl
    have hover : (∃ result, x.service = .ended result) ∨
        ∃ c, x.service = .writing .waiting (.own c) := by
      rcases hwhy with hwhy | hwhy | ⟨hs, -⟩
      · exact .inl hwhy
      · exact .inr hwhy
      · simp [hsend] at hs
    refine ⟨hended, ?_, hover, fun hkeeps => ?_⟩
    · have hhand : x.inHand = [] := by rw [inHand, hended]
      have hreader := hcar.reader
      rw [hdone, hhand, List.append_nil, hcar.given_length hdone] at hreader
      exact hreader
    · have hfinished := (left hover).2 hkeeps
      have hpos := hfin.1 hfinished
      obtain ⟨m, rfl⟩ : ∃ m, k = m + 1 := ⟨k - 1, by omega⟩
      exact ⟨got, m, rfl, hcar.got_of_finished hfinished⟩
  · -- the intake waits for a receiver who is there: he would receive
    exfalso
    rcases hwhy with hwhy | hwhy | ⟨-, hempty⟩
    · simp [(left (.inl hwhy)).1] at hrec
    · simp [(left (.inr hwhy)).1] at hrec
    · exact hq hempty
  · omega

end Flows

end Exchange

/-- A reader that comes to an entity of `n` bytes, of which it may have read some. -/
def FrameReader.atEntity (l : Lexicon) (n : Nat) (held : Bytes) (s : Source) : FrameReader :=
  ⟨s, .of (Framing.build l (.outstanding n) held)⟩

/-- An assembly that has released a request with an entity of `n` bytes. -/
def Assembly.opened (capacity n : Nat) : Assembly :=
  ⟨capacity, none, [], some ⟨.create n capacity, 0⟩, false⟩

namespace Exchange

variable {l : Lexicon} {n capacity : Nat} {b buffer : Bytes} {fate : Option TransportError}
  {r : FrameReader} {v : Version} {p : Plan} {sink : Sink}

lemma carried_start (hr : r.Stands l (.outstanding n) b fate) :
    Carried l n b fate [] [] ⟨.create n capacity, 0⟩
      (start v r (.opened capacity n) p sink buffer) where
  entity := rfl
  carries := Channel.carries_create n capacity
  sending := rfl
  received := rfl
  begins := List.nil_prefix
  le := Nat.zero_le n
  reader := hr
  intake := trivial

lemma flows_start (hr : r.Stands l (.outstanding n) b fate) :
    Flows l n b fate sink.behaviour (KeepsOn p sink.behaviour) []
      (start v r (.opened capacity n) p sink buffer) :=
  ⟨rfl, [], [], 0, ⟨.create n capacity, 0⟩, carried_start hr, ⟨rfl, rfl, rfl, id⟩, rfl,
    by simp [Channel.create]⟩

/-- **An entity is delivered.** Of an entity of `n` bytes that all come, in reads of any size,
the service receives the bytes in order and nothing else, and a clean end only after the last one,
whatever the order of steps. When neither party can move, the intake has consumed the entity and
nothing behind it, be there a receiver or not; one who has kept to the stream has seen its end,
and once unless he passes on what he has read to the end. A fair order brings them there. -/
theorem entity_delivered (l : Lexicon) (n : Nat) (held : Bytes) (source : Source)
    (hn : n ≤ (held ++ source.supply).length) (v : Version) (capacity : Nat) (p : Plan)
    (sink : Sink) (buffer : Bytes) (ps : List Party) :
    let b := held ++ source.supply
    let x := start v (.atEntity l n held source) (.opened capacity n) p sink buffer
    let y := x.run ps
    (∃ (got : List Bytes) (k : Nat), x.seen ps = got.map .chunk ++ List.replicate k .ended ∧
      got.flatten <+: b.take n ∧ (0 < k → got.flatten = b.take n) ∧
      ∀ q chunks, y.service = .planning q chunks → x.seen ps = chunks.map .chunk) ∧
    (y.AtRest →
      y.intake = .ended (.ok ()) ∧ y.reader.Stands l .requestLine (b.drop n) source.fate ∧
      ((∃ result, y.service = .ended result) ∨ ∃ c, y.service = .writing .waiting (.own c)) ∧
      (KeepsOn p sink.behaviour → ∃ (got : List Bytes) (k : Nat),
        x.seen ps = got.map .chunk ++ List.replicate (k + 1) .ended ∧ got.flatten = b.take n ∧
        (Concludes p → k = 0))) ∧
    ∀ σ, Fair σ → ∃ m, (x.run (first σ m)).AtRest := by
  intro b x y
  have hstands : (FrameReader.atEntity l n held source).Stands l (.outstanding n) b source.fate :=
    ⟨Phase.sound_outstanding l n, rfl, held, rfl, rfl⟩
  have hy : Flows l n b source.fate sink.behaviour (KeepsOn p sink.behaviour) (x.seen ps) y :=
    (flows_start hstands).run hn ps
  refine ⟨hy.heard_eq, fun hrest => ?_, fun σ hσ => exists_atRest hσ x⟩
  obtain ⟨hintake, hreader, hservice, hkeeps⟩ := hy.atRest hn hrest
  refine ⟨hintake, hreader, hservice, fun hk => ?_⟩
  obtain ⟨got, k, hseen, hall⟩ := hkeeps hk
  refine ⟨got, k, hseen, hall, fun hp => ?_⟩
  have hplan : ∀ q chunks, x.service = .planning q chunks → Concludes q := by
    rintro q chunks hs
    obtain ⟨rfl, -⟩ : p = q ∧ [] = chunks := by simpa [x, start] using hs
    exact hp
  have hone := count_ended_le hplan ps
  rw [hseen, List.count_append, List.count_replicate_self] at hone
  omega

/-- Three bytes of an entity, of which one has been read, one more, and then a failure. -/
def cutEntity : Source := [.bytes [98], .wait, .bytes [99, 100], .failure .reset]

theorem entity_delivered_cutEntity :
    3 ≤ ([97] ++ cutEntity.supply).length ∧
    let x := start .http11 (.atEntity (.uniform 9) 3 [97] cutEntity) (.opened 0 3)
      (.collected fun _ => .respond .default) (.ofBehaviour .willing) []
    ∀ ps, (x.run ps).AtRest → (x.run ps).intake = .ended (.ok ()) ∧
      ∃ got : List Bytes, x.seen ps = got.map .chunk ++ [.ended] ∧
        got.flatten = ([97] ++ cutEntity.supply).take 3 := by
  refine ⟨by decide, fun ps hrest => ?_⟩
  obtain ⟨hintake, -, -, hkeeps⟩ := (entity_delivered (.uniform 9) 3 [97] cutEntity (by decide)
    .http11 0 (.collected fun _ => .respond .default) (.ofBehaviour .willing) [] ps).2.1 hrest
  obtain ⟨got, k, hseen, hall, hone⟩ := hkeeps fun got a h => by simp [Plan.collected] at h
  obtain rfl : k = 0 := hone fun got status hs _ => by simp [Plan.collected]
  exact ⟨hintake, got, hseen, hall⟩

end Exchange

end Http1
