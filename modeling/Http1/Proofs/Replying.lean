import Http1.Proofs.Delivery

/-!
The reply to a request.

A handler that is settled about a request answers it in one way, however the entity comes in
chunks and however much of it the handler asks for. Its exchange then comes to rest, over a sink
without faults, with the entity consumed and the response written behind what was there before.
-/

namespace Http1

/-- A plan that comes to this answer on an entity with that body, whatever the chunks. -/
structure Plan.Gives (p : Plan) (body : Bytes) (a : Answer) : Prop where
  early : ∀ got a', got.flatten <+: body → p.early got = some a' → a' = a
  final : ∀ got, got.flatten = body → p.final got none = a

/-- How a handler takes a request. -/
inductive Reaction where
  | unmatched
  | fails (message : Text)
  /-- The entity is at hand. -/
  | responds (r : Response) (h : r.entity.isStreaming = false)

namespace Reaction

def answer : Reaction → Answer
  | unmatched => .respond (.bodiless .notFound)
  | fails message => .fail message
  | responds r _ => .respond r

def response : Reaction → Response
  | unmatched => .bodiless .notFound
  | fails _ => .bodiless .internalServerError
  | responds r _ => r

def wire (ρ : Reaction) (v : Version) : Bytes :=
  Response.encodeHead v ρ.response.status ρ.response.headers ++ ρ.response.entity.atHand

end Reaction

namespace Exchange

variable {x : Exchange} {p : Plan} {ρ : Reaction} {out wire body : Bytes}

lemma answer_reaction (x : Exchange) (ρ : Reaction) :
    (x.answer ρ.answer).service = .writing .head .none ∧
      (x.answer ρ.answer).sink = x.sink ∧
      (x.answer ρ.answer).buffer = x.buffer ++ ρ.wire x.version := by
  cases ρ with
  | responds r h =>
    refine ⟨?_, rfl, by simp [Reaction.answer, answer, respond, Writer.start, Reaction.wire,
      Reaction.response, leave]⟩
    rcases he : r.entity with _ | _ | c
    · simp [Reaction.answer, answer, respond, Writer.start, he]
    · simp [Reaction.answer, answer, respond, Writer.start, he]
    · simp [he, Entity.isStreaming] at h
  | _ =>
    refine ⟨rfl, rfl, ?_⟩
    simp [Reaction.answer, answer, respond, Writer.start, Reaction.wire, Reaction.response, leave,
      say]

/-- What the plan of a service may still find: no failure, and the end only after the body. -/
def Heeds (body : Bytes) (x : Exchange) : Prop :=
  ∀ q chunks, x.service = .planning q chunks → chunks.flatten <+: body ∧
    match x.assembly.channel? with
    | none => chunks.flatten = body
    | some c => (c.poll.1 = .ended → chunks.flatten = body) ∧ ∀ e, c.poll.1 ≠ .failed e

/-- The service is on its way from the output `out` to the response behind it. -/
structure Replies (p : Plan) (ρ : Reaction) (v : Version) (out : Bytes) (x : Exchange) : Prop where
  version : x.version = v
  faultless : x.sink.behaviour.Faultless
  service : match x.service with
    | .planning q _ => q = p ∧ x.sink.output = out ∧ x.buffer = []
    | .writing stage body => body = .none ∧ Writer.Tidy ⟨x.sink, x.buffer, stage⟩ ∧
        x.sink.output ++ Writer.atHand ⟨x.sink, x.buffer, stage⟩ = out ++ ρ.wire v
    | .ended result => result = .ok () ∧ x.sink.output = out ++ ρ.wire v ∧ x.buffer = []

variable {v : Version}

namespace Replies

lemma answer (hv : x.version = v) (hf : x.sink.behaviour.Faultless) (ho : x.sink.output = out)
    (hb : x.buffer = []) : Replies p ρ v out (x.answer ρ.answer) := by
  obtain ⟨hs, hsink, hbuffer⟩ := answer_reaction x ρ
  have hver : (x.answer ρ.answer).version = x.version := by cases ρ <;> rfl
  rw [hb, List.nil_append, hv] at hbuffer
  refine ⟨hver.trans hv, by rw [hsink]; exact hf, ?_⟩
  rw [hs]
  exact ⟨rfl, fun h => absurd rfl h, by rw [hsink, ho, Writer.atHand, hbuffer]⟩

lemma step_planning (h : Replies p ρ v out x) (hh : x.Heeds body) (hg : p.Gives body ρ.answer)
    {q : Plan} {chunks : List Bytes} (hs : x.service = .planning q chunks) :
    x.stepService.All (Replies p ρ v out) := by
  obtain ⟨hv, hf, hservice⟩ := h
  rw [hs] at hservice
  obtain ⟨rfl, ho, hb⟩ := hservice
  obtain ⟨hpre, hfind⟩ := hh q chunks hs
  rcases he : q.early chunks with _ | a
  · rcases hc : x.assembly.channel? with _ | c <;> rw [hc] at hfind
    · have hstep : x.stepService = .moved (x.answer (q.final chunks none)) := by
        simp [stepService, hs, he, hc]
      rw [hstep, hg.final chunks hfind]
      exact answer hv hf ho hb
    · obtain ⟨hend, hfail⟩ := hfind
      rcases hp : c.poll with ⟨what, c'⟩
      rw [hp] at hend hfail
      cases what with
      | pending =>
        have hstep : x.stepService = .stuck := by simp [stepService, hs, he, hc, hp]
        rw [hstep]
        trivial
      | chunk b =>
        have hstep : x.stepService = .moved { x with
            assembly := x.assembly.onChannel fun _ => c'
            service := .planning q (chunks ++ [b]) } := by
          simp [stepService, hs, he, hc, hp]
        rw [hstep]
        exact ⟨hv, hf, rfl, ho, hb⟩
      | ended =>
        have hstep : x.stepService = .moved (Exchange.answer
            { x with assembly := x.assembly.onChannel fun _ => c' } (q.final chunks none)) := by
          simp [stepService, hs, he, hc, hp]
        rw [hstep, hg.final chunks (hend rfl)]
        exact answer hv hf ho hb
      | failed e => exact absurd rfl (hfail e)
  · have hstep : x.stepService = .moved (x.answer a) := by simp [stepService, hs, he]
    rw [hstep, hg.early chunks a hpre he]
    exact answer hv hf ho hb

lemma took {w : Writer} (h : Replies p ρ v out x) (hf : w.sink.behaviour.Faultless) (ht : w.Tidy)
    (hb : w.sink.output ++ w.atHand = out ++ ρ.wire v) : Replies p ρ v out (x.took w .none none) :=
  ⟨h.version, hf, rfl, ht, hb⟩

lemma step_writing (h : Replies p ρ v out x) {stage : Stage} {body : Body}
    (hs : x.service = .writing stage body) : x.stepService.All (Replies p ρ v out) := by
  have hservice := h.service
  rw [hs] at hservice
  obtain ⟨rfl, ht, hb⟩ := hservice
  by_cases hw : stage = .waiting
  · subst hw
    have hstep : x.stepService = .moved (x.took ⟨x.sink, x.buffer, .flush⟩ .none none) := by
      simp [stepService, hs, bodyChannel, Writer.step]
    rw [hstep]
    exact h.took h.faultless (fun _ => ht (by simp)) hb
  · by_cases hf : stage = .flush
    · subst hf
      obtain ⟨sink, hflush, ho, hbeh⟩ := Writer.step_flush_of_faultless
        (w := ⟨x.sink, x.buffer, .flush⟩) h.faultless rfl none
      have hstep : x.stepService = .moved { x with
          sink := sink
          buffer := []
          assembly := x.assembly.onChannel Channel.leave
          service := .ended (.ok ()) } := by
        simp [stepService, hs, bodyChannel, hflush]
      rw [hstep]
      refine ⟨h.version, hbeh ▸ h.faultless, rfl, ?_, rfl⟩
      simpa [ho, Writer.atHand] using hb
    · obtain ⟨w, hgo, hon⟩ := Writer.step_of_faultless (w := ⟨x.sink, x.buffer, stage⟩)
        h.faultless hw hf none
      have hnext : Replies p ρ v out (x.took w .none none) :=
        h.took (hon.behaviour ▸ h.faultless) (hon.tidy ht) (hon.bytes.trans hb)
      rcases hgo with hgo | hgo <;>
        simpa [stepService, hs, bodyChannel, hgo, Move.All] using hnext

/-- **A step of the service** brings the response on its way. -/
lemma after_service (h : Replies p ρ v out x) (hh : x.Heeds body) (hg : p.Gives body ρ.answer) :
    Replies p ρ v out (x.after .service) := by
  refine after_of_all (p := .service) ?_ h
  rcases hs : x.service with ⟨q, chunks⟩ | ⟨stage, b⟩ | result
  · exact h.step_planning hh hg hs
  · exact h.step_writing hs
  · simp [step, stepService, hs, Move.All]

lemma after_intake (h : Replies p ρ v out x) : Replies p ρ v out (x.after .intake) := by
  obtain ⟨hservice, hsink, hbuffer, hversion⟩ := x.after_intake_sameService
  refine ⟨hversion.trans h.version, hsink ▸ h.faultless, ?_⟩
  rw [hservice, hsink, hbuffer]
  exact h.service

end Replies

/-! ### An entity that is delivered -/

variable {l : Lexicon} {n : Nat} {b : Bytes} {fate : Option TransportError}

lemma Flows.heeds {s : SinkBehaviour} {keeps : Prop} {heard : List Channel.Reception}
    (h : Flows l n b fate s keeps heard x) : x.Heeds (b.take n) := by
  obtain ⟨-, given, got, k, r, hcar, hatt, -, -⟩ := h
  intro q chunks hs
  rw [hs] at hatt
  obtain ⟨rfl, hrec, -, -⟩ := hatt
  refine ⟨hcar.carries.begins.trans hcar.given_begins, ?_⟩
  rw [hcar.channel?_eq]
  rcases hcar.carries.poll hrec with ⟨hp, -, -⟩ | ⟨c, hp, -⟩ | ⟨hp, hall, hpoll, hfin, -, -⟩
  · simp [hp]
  · simp [hp]
  · refine ⟨fun _ => ?_, by simp [hp]⟩
    rw [hall]
    exact hcar.given_eq_take (hpoll.whole (hpoll.finished hfin).2)

/-- The exchange has come to its end: the response is written, and the reader stands behind the
request. -/
structure Settled (l : Lexicon) (fate : Option TransportError) (rest out : Bytes)
    (s : SinkBehaviour) (x : Exchange) : Prop where
  result : x.result? = some (.ok ())
  reader : x.reader.Stands l .requestLine rest fate
  output : x.sink.output = out
  buffer : x.buffer = []
  behaviour : x.sink.behaviour = s

lemma Replies.settled (h : Replies p ρ v out x) {rest : Bytes} {s : SinkBehaviour}
    (hi : x.intake = .ended (.ok ())) (hr : x.reader.Stands l .requestLine rest fate)
    (hs : (∃ result, x.service = .ended result) ∨ ∃ c, x.service = .writing .waiting (.own c))
    (hb : x.sink.behaviour = s) : Settled l fate rest (out ++ ρ.wire v) s x := by
  have hservice := h.service
  rcases hs with ⟨result, hs⟩ | ⟨c, hs⟩ <;> rw [hs] at hservice
  · obtain ⟨rfl, ho, hbuf⟩ := hservice
    exact ⟨by simp [result?, hi, hs], hr, ho, hbuf, hb⟩
  · simp at hservice

lemma replies_start {r : FrameReader} {a : Assembly} {sink : Sink}
    (hf : sink.behaviour.Faultless) : Replies p ρ v sink.output (start v r a p sink []) :=
  ⟨rfl, hf, rfl, rfl, rfl⟩

lemma Replies.run {s : SinkBehaviour} {keeps : Prop} {heard : List Channel.Reception}
    (h : Replies p ρ v out x) (hflow : Flows l n b fate s keeps heard x) (hn : n ≤ b.length)
    (hg : p.Gives (b.take n) ρ.answer) (ps : List Party) : Replies p ρ v out (x.run ps) := by
  induction ps generalizing x heard with
  | nil => exact h
  | cons q ps ih =>
    cases q with
    | intake => exact ih h.after_intake (hflow.after_intake hn)
    | service => exact ih (h.after_service hflow.heeds hg) hflow.after_service

/-- On its way from `x` to `y` the service hears a beginning of the body, and a clean end only
after all of it. -/
def Brings (body : Bytes) (x y : Exchange) : Prop :=
  ∃ (ps : List Party) (got : List Bytes) (k : Nat), y = x.run ps ∧
    x.seen ps = got.map .chunk ++ List.replicate k .ended ∧
    got.flatten <+: body ∧ (0 < k → got.flatten = body)

/-- **An exchange with an entity settles**, whatever the turns. -/
theorem settled_opened {r : FrameReader} {sink : Sink} (capacity : Nat) (first : Party)
    (hr : r.Stands l (.outstanding n) b fate) (hn : n ≤ b.length)
    (hf : sink.behaviour.Faultless) (hg : p.Gives (b.take n) ρ.answer) :
    let x := start v r (.opened capacity n) p sink []
    Settled l fate (b.drop n) (sink.output ++ ρ.wire v) sink.behaviour (x.rounds first) ∧
      x.Brings (b.take n) (x.rounds first) := by
  intro x
  obtain ⟨⟨ps, hps⟩, hrest⟩ := x.rounds_eq_run first
  rw [hps] at hrest ⊢
  have hstart : Flows l n b fate sink.behaviour (KeepsOn p sink.behaviour) [] x := flows_start hr
  have hflow := hstart.run hn ps
  obtain ⟨hi, hreader, hs, -⟩ := hflow.atRest hn hrest
  obtain ⟨got, k, hheard, hbegins, hall, -⟩ := hflow.heard_eq
  have hreply : Replies p ρ v sink.output (x.run ps) := (replies_start hf).run hstart hn hg ps
  exact ⟨hreply.settled hi hreader hs hflow.1, ps, got, k, rfl, hheard, hbegins, hall⟩

/-! ### A request without an entity -/

/-- Nothing is left to be read of the request. -/
structure Bare (r : FrameReader) (x : Exchange) : Prop where
  reader : x.reader = r
  intake : x.intake = .ended (.ok ())
  entity : x.assembly.entity = none
  chunks : ∀ q chunks, x.service = .planning q chunks → chunks = []

namespace Bare

variable {r : FrameReader}

lemma channel?_eq (h : Bare r x) : x.assembly.channel? = none := by
  rw [Assembly.channel?, h.entity]
  rfl

lemma heeds (h : Bare r x) : x.Heeds [] := by
  intro q chunks hs
  rw [h.chunks q chunks hs, h.channel?_eq]
  exact ⟨List.nil_prefix, rfl⟩

lemma onChannel {a : Assembly} (h : a.entity = none) (f : Channel → Channel) :
    (a.onChannel f).entity = none := by simp [Assembly.onChannel, h]

lemma answer (h : Bare r x) (a : Answer) : Bare r (x.answer a) := by
  cases a with
  | forward s hs => exact ⟨h.reader, h.intake, h.entity, by simp [Exchange.answer, respond]⟩
  | respond q =>
    exact ⟨h.reader, h.intake, onChannel h.entity _, by simp [Exchange.answer, respond]⟩
  | fail m => exact ⟨h.reader, h.intake, onChannel h.entity _, by simp [Exchange.answer, respond]⟩

lemma took (h : Bare r x) (w : Writer) (body : Body) (c : Option Channel) :
    Bare r (x.took w body c) := by
  cases body <;> cases c <;>
    first
    | exact ⟨h.reader, h.intake, h.entity, by simp [Exchange.took]⟩
    | exact ⟨h.reader, h.intake, onChannel h.entity _, by simp [Exchange.took, leave]⟩

lemma after (h : Bare r x) (p : Party) : Bare r (x.after p) := by
  cases p with
  | intake =>
    rw [after_of_stuck (p := .intake) (by simp [step, stepIntake, h.intake])]
    exact h
  | service =>
    refine after_service_cases (fun y hy => ?_) h
    cases hy with
    | ready => exact h.answer _
    | bare => exact h.answer _
    | received _ hc => simp [h.channel?_eq] at hc
    | heard _ _ hc => simp [h.channel?_eq] at hc
    | wrote => exact h.took ..
    | finished => exact ⟨h.reader, h.intake, onChannel h.entity _, by simp⟩

lemma looksAt_eq (h : Bare r x) : x.looksAt = none := by
  have hnone := h.channel?_eq
  unfold looksAt
  split <;> simp [hnone]

lemma service_atRest (h : Bare r x) (hrest : x.AtRest) :
    (∃ result, x.service = .ended result) ∨ ∃ c, x.service = .writing .waiting (.own c) := by
  rcases stuck_cases (hrest .service) with hs | ⟨c, hl, -⟩
  · exact hs
  · rw [h.looksAt_eq] at hl
    simp at hl

lemma seen_eq_nil (h : Bare r x) (ps : List Party) : x.seen ps = [] := by
  induction ps generalizing x with
  | nil => rfl
  | cons p ps ih =>
    have hsight : x.sight p = [] := by
      cases p with
      | intake => rfl
      | service => rw [sight, h.looksAt_eq]; rfl
    rw [seen, hsight, List.nil_append]
    exact ih (h.after p)

lemma start {v : Version} {a : Assembly} {p : Plan} {sink : Sink} {buffer : Bytes}
    (ha : a.entity = none) (hd : a.done = true) : Bare r (start v r a p sink buffer) :=
  ⟨rfl, by simp [Exchange.start, hd], ha, by simp [Exchange.start]⟩

end Bare

/-- **An exchange without an entity settles**, whatever the turns. -/
theorem settled_bare {r : FrameReader} {a : Assembly} {sink : Sink} (first : Party)
    (ha : a.entity = none) (hd : a.done = true) (hr : r.Stands l .requestLine b fate)
    (hf : sink.behaviour.Faultless) (hg : p.Gives [] ρ.answer) :
    let x := start v r a p sink []
    Settled l fate b (sink.output ++ ρ.wire v) sink.behaviour (x.rounds first) ∧
      x.Brings [] (x.rounds first) := by
  intro x
  obtain ⟨⟨ps, hps⟩, hrest⟩ := x.rounds_eq_run first
  rw [hps] at hrest ⊢
  have hstart : Bare r x := .start ha hd
  obtain ⟨hbare, hreply⟩ : Bare r (x.run ps) ∧ Replies p ρ v sink.output (x.run ps) := by
    refine run_induction (P := fun y => Bare r y ∧ Replies p ρ v sink.output y) ?_
      ⟨hstart, replies_start hf⟩ ps
    rintro y q ⟨hy, hreply⟩
    refine ⟨hy.after q, ?_⟩
    cases q with
    | intake => exact hreply.after_intake
    | service => exact hreply.after_service hy.heeds hg
  have hb : (x.run ps).sink.behaviour = sink.behaviour := behaviour_run x ps
  refine ⟨hreply.settled hbare.intake ?_ (hbare.service_atRest hrest) hb,
    ps, [], 0, rfl, hstart.seen_eq_nil ps, List.nil_prefix, fun h => absurd h (by omega)⟩
  rw [hbare.reader]
  exact hr

end Exchange

end Http1
