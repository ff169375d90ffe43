import Http1.Proofs.Due

/-!
What a service is going to write.

The chunks that are due settle what the plan of a service comes to, and so what the service is
still going to write and how it ends, over a sink that refuses nothing. Main statement: an act
keeps this forecast, together with what has been written, unless the sink refuses something; the
service has then ended with an error, and written a part of it.
-/

namespace Http1

/-- What is going to be written, and how that ends: nothing if it waits for ever. -/
structure Forecast where
  bytes : Bytes
  result : Option (Except ConnectionError Unit)

namespace Forecast

def complete : Forecast := ⟨[], some (.ok ())⟩

def behind (b : Bytes) (f : Forecast) : Forecast := ⟨b ++ f.bytes, f.result⟩

lemma behind_behind (b c : Bytes) (f : Forecast) : (f.behind c).behind b = f.behind (b ++ c) := by
  simp [behind]

end Forecast

/-- What a stream brings that nobody adds to. -/
def Channel.forecast (c : Channel) : Forecast :=
  match h : c.poll.1 with
  | .chunk b =>
    have := length_poll_lt h
    (forecast c.poll.2).behind b
  | .failed e => ⟨[], some (.error (.entity e))⟩
  | .ended => .complete
  | .pending => ⟨[], none⟩
termination_by c.queue.length

namespace Channel

lemma forecast_eq (c : Channel) :
    c.forecast =
      match c.poll with
      | (.chunk b, c') => c'.forecast.behind b
      | (.failed e, _) => ⟨[], some (.error (.entity e))⟩
      | (.ended, _) => .complete
      | (.pending, _) => ⟨[], none⟩ := by
  rcases hp : c.poll with ⟨what, c'⟩
  rw [forecast]
  split <;> rename_i h <;> rw [hp] at h <;> obtain rfl := h <;> simp [hp]

end Channel

/-- What a plan comes to that has received some chunks when the others are due, and which of them
it leaves. -/
def Plan.comesTo (p : Plan) : List Bytes → List Bytes → Answer × List Bytes
  | got, [] => ((p.early got).getD (p.final got none), [])
  | got, chunk :: left =>
    match p.early got with
    | some a => (a, chunk :: left)
    | none => p.comesTo (got ++ [chunk]) left

namespace Plan

variable {p : Plan} {got left : List Bytes} {chunk : Bytes}

lemma comesTo_of_early {a : Answer} (h : p.early got = some a) (left : List Bytes) :
    p.comesTo got left = (a, left) := by
  cases left <;> simp [comesTo, h]

lemma comesTo_nil (h : p.early got = none) : p.comesTo got [] = (p.final got none, []) := by
  simp [comesTo, h]

lemma comesTo_cons (h : p.early got = none) :
    p.comesTo got (chunk :: left) = p.comesTo (got ++ [chunk]) left := by
  rw [comesTo, h]

end Plan

def Body.forecast (left : List Bytes) : Body → Forecast
  | .none => .complete
  | .own c => c.forecast
  | .passedOn => Forecast.complete.behind left.flatten

def Writer.forecast (w : Writer) (body : Forecast) : Forecast :=
  if w.stage = .flush then .complete else body.behind w.atHand

lemma Writer.Onward.forecast {w w' : Writer} (h : w.Onward w') (hw : w.stage ≠ .flush)
    (body : Forecast) :
    (w'.forecast body).behind w'.sink.output = (w.forecast body).behind w.sink.output := by
  rw [Writer.forecast, if_neg h.stage, Writer.forecast, if_neg hw, Forecast.behind_behind,
    Forecast.behind_behind, h.bytes]

namespace Exchange

variable {x y : Exchange} {left : List Bytes} {z : FrameReader} {t : Forecast}

def draft (x : Exchange) (left : List Bytes) : Forecast :=
  match x.service with
  | .planning .. => ⟨[], none⟩
  | .writing stage body => Writer.forecast ⟨x.sink, x.buffer, stage⟩ (body.forecast left)
  | .ended result => ⟨[], some result⟩

/-- What the service is going to write when these chunks are due. -/
def forecast (x : Exchange) (left : List Bytes) : Forecast :=
  match x.service with
  | .planning p got => (x.answer (p.comesTo got left).1).draft (p.comesTo got left).2
  | _ => x.draft left

lemma draft_answer_congr (hv : y.version = x.version) (hb : y.buffer = x.buffer) (a : Answer)
    (left : List Bytes) : (y.answer a).draft left = (x.answer a).draft left := by
  cases a <;> simp [answer, respond, draft, leave, say, Writer.start, Writer.forecast,
    Writer.atHand, hv, hb]

lemma forecast_answer (x : Exchange) (a : Answer) (left : List Bytes) :
    (x.answer a).forecast left = (x.answer a).draft left := by
  cases a <;> rfl

lemma forecast_congr (hs : y.service = x.service) (hv : y.version = x.version)
    (hb : y.buffer = x.buffer) (left : List Bytes) : y.forecast left = x.forecast left := by
  unfold forecast
  rw [hs]
  split
  · exact draft_answer_congr hv hb _ _
  · rw [draft, draft, hs, hb]
    split <;> rfl

/-- In the end, `t` is what has been written, with how that has ended, and the reader is `z`. -/
structure Foretold (t : Forecast) (z : FrameReader) (x : Exchange) : Prop where
  due : ∃ left, Due left z x ∧ (x.forecast left).behind x.sink.output = t
  tidy : x.service = .ended (.ok ()) → x.buffer = []

/-- The service has ended with an error of the transport, and written a part of `t`. -/
structure CutOff (t : Forecast) (z : FrameReader) (x : Exchange) : Prop where
  due : ∃ left, Due left z x
  service : ∃ e, x.service = .ended (.error (.transport e))
  output : x.sink.output <+: t.bytes

/-- What was foretold still is, or this fault has cut it off. -/
def ForetoldUpTo (fault : Prop) (t : Forecast) (z : FrameReader) (x : Exchange) : Prop :=
  (¬ fault ∧ Foretold t z x) ∨ (fault ∧ CutOff t z x)

/-- The sink refuses what the service is about to do. -/
def Refused (x : Exchange) : Prop :=
  ∃ stage body, x.service = .writing stage body ∧ Writer.Refused ⟨x.sink, x.buffer, stage⟩

lemma forecast_planning {p : Plan} {got : List Bytes} (hs : x.service = .planning p got)
    (left : List Bytes) :
    x.forecast left = (x.answer (p.comesTo got left).1).draft (p.comesTo got left).2 := by
  rw [forecast, hs]

lemma forecast_writing {stage : Stage} {body : Body} (hs : x.service = .writing stage body)
    (left : List Bytes) :
    x.forecast left = Writer.forecast ⟨x.sink, x.buffer, stage⟩ (body.forecast left) := by
  rw [forecast, hs, draft, hs]

/-! ### Planning -/

lemma due_answer (h : Due left z x) (hl : x.service.listens = true) (a : Answer) :
    Due left z (x.answer a) := by
  cases a with
  | forward => exact h.same rfl rfl rfl hl.symm
  | respond r =>
    refine h.leave rfl rfl rfl ?_
    rcases he : r.entity with _ | _ | _ <;> simp [answer, respond, he, Service.listens]
  | fail => exact h.leave rfl rfl rfl rfl

lemma foretold_answer {a : Answer} (left : List Bytes) (h : Due left z x)
    (hl : x.service.listens = true) (ht : ((x.answer a).draft left).behind x.sink.output = t) :
    Foretold t z (x.answer a) where
  due := ⟨left, due_answer h hl a, by rw [forecast_answer, sink_answer]; exact ht⟩
  tidy h := by cases a <;> simp [answer, respond] at h

lemma foretold_planning {p : Plan} {got : List Bytes} (hs : x.service = .planning p got)
    (h : Due left z x) (ht : (x.forecast left).behind x.sink.output = t) :
    Foretold t z (x.after .service) := by
  have hl : x.service.listens = true := by rw [hs]; rfl
  rw [forecast_planning hs] at ht
  rcases he : p.early got with _ | a
  · cases h with
    | bare hent hi hz hleft =>
      subst hleft
      have hstep : x.step .service = .moved (x.answer (p.final got none)) := by
        simp [step, stepService, hs, he, Assembly.channel?, hent]
      rw [Plan.comesTo_nil he] at ht
      rw [after_of_moved hstep]
      exact foretold_answer [] (.bare hent hi hz rfl) hl ht
    | entity h =>
      have hc := h.channel?_eq
      rcases (h.owes (h.listens.trans hl)).poll with ⟨hp, -⟩ |
        ⟨chunk, left', c', rfl, hp, howes, hsend, hrec⟩ | ⟨c', rfl, hp, howes, hsend, hrec⟩
      · rw [after_of_stuck (p := .service) (by simp [step, stepService, hs, he, hc, hp])]
        exact ⟨⟨left, .entity h, by rw [forecast_planning hs]; exact ht⟩, by simp [hs]⟩
      · have hstep : x.step .service = .moved { x with
            assembly := x.assembly.onChannel fun _ => c'
            service := .planning p (got ++ [chunk]) } := by
          simp [step, stepService, hs, he, hc, hp]
        rw [Plan.comesTo_cons he] at ht
        rw [after_of_moved hstep]
        refine ⟨⟨left', .entity (h.onChannel (f := fun _ => c') hsend
          (hrec.trans (h.listens.trans hl)) (fun _ => howes) rfl rfl rfl), ?_⟩, by simp⟩
        rw [forecast_planning rfl, ← ht]
        exact congrArg (Forecast.behind _) (draft_answer_congr (by rfl) (by rfl) _ _)
      · have hstep : x.step .service = .moved (Exchange.answer
            { x with assembly := x.assembly.onChannel fun _ => c' } (p.final got none)) := by
          simp [step, stepService, hs, he, hc, hp]
        rw [Plan.comesTo_nil he] at ht
        rw [after_of_moved hstep]
        refine foretold_answer [] (.entity (h.onChannel (f := fun _ => c') hsend
          (hrec.trans h.listens) (fun _ => howes) rfl rfl rfl)) hl ?_
        rw [← ht]
        exact congrArg (Forecast.behind _) (draft_answer_congr (by rfl) (by rfl) _ _)
  · have hstep : x.step .service = .moved (x.answer a) := by simp [step, stepService, hs, he]
    rw [Plan.comesTo_of_early he] at ht
    rw [after_of_moved hstep]
    exact foretold_answer left h hl ht

/-! ### Writing -/

lemma took_bodyChannel (x : Exchange) (w : Writer) (body : Body) :
    (x.took w body (x.bodyChannel body)).service = .writing w.stage body ∧
      (x.took w body (x.bodyChannel body)).sink = w.sink ∧
      (x.took w body (x.bodyChannel body)).buffer = w.buffer := by
  cases body with
  | none => exact ⟨rfl, rfl, rfl⟩
  | own c => exact ⟨rfl, rfl, rfl⟩
  | passedOn => rcases hc : x.assembly.channel? with _ | c <;> simp [took, bodyChannel, hc, leave]

lemma due_took {stage : Stage} {body : Body} (h : Due left z x)
    (hs : x.service = .writing stage body) (w : Writer) :
    Due left z (x.took w body (x.bodyChannel body)) := by
  cases body with
  | none => exact h.same rfl rfl rfl (by simp [took, hs, Service.listens])
  | own c => exact h.same rfl rfl rfl (by simp [took, bodyChannel, hs, Service.listens])
  | passedOn =>
    have hl : x.service.listens = true := by rw [hs]; rfl
    cases h with
    | bare hent hi hz hleft =>
      have hc : x.bodyChannel .passedOn = none := by simp [bodyChannel, Assembly.channel?, hent]
      rw [hc]
      exact .bare (by simp [took, leave, Assembly.onChannel, hent]) hi hz hleft
    | entity h =>
      have hc : x.bodyChannel .passedOn = some _ := h.channel?_eq
      rw [hc]
      exact .entity (h.onChannel (f := fun _ => _) rfl (h.listens.trans hl) h.owes rfl rfl rfl)

lemma foretold_writing {stage : Stage} {body : Body} (left : List Bytes) (hd : Due left z y)
    (hs : y.service = .writing stage body)
    (ht : (Writer.forecast ⟨y.sink, y.buffer, stage⟩ (body.forecast left)).behind y.sink.output =
      t) :
    Foretold t z y :=
  ⟨⟨left, hd, by rw [forecast_writing hs]; exact ht⟩, by simp [hs]⟩

def endService (x : Exchange) (w : Writer) (result : Except ConnectionError Unit) : Exchange :=
  { x with
    sink := w.sink
    buffer := w.buffer
    assembly := x.assembly.onChannel Channel.leave
    service := .ended result }

lemma foretold_ended {w : Writer} {result : Except ConnectionError Unit} (h : Due left z x)
    (ht : Forecast.behind w.sink.output ⟨[], some result⟩ = t)
    (hb : result = .ok () → w.buffer = []) :
    Foretold t z (x.endService w result) :=
  ⟨⟨left, h.leave rfl rfl rfl rfl, ht⟩, fun hs => hb (Service.ended.inj hs)⟩

lemma cutOff_ended {w : Writer} {e : TransportError} (h : Due left z x)
    (ht : w.sink.output <+: t.bytes) : CutOff t z (x.endService w (.error (.transport e))) :=
  ⟨⟨left, h.leave rfl rfl rfl rfl⟩, ⟨e, rfl⟩, ht⟩

lemma after_wrote {stage : Stage} {body : Body} (hs : x.service = .writing stage body) {w : Writer}
    {c : Option Channel}
    (hw : Writer.step ⟨x.sink, x.buffer, stage⟩ (x.bodyChannel body) = .moved w c ∨
      Writer.step ⟨x.sink, x.buffer, stage⟩ (x.bodyChannel body) = .yielded w c) :
    x.after .service = x.took w body c := by
  rcases hw with hw | hw
  · exact after_of_moved (p := .service) (by simp [step, stepService, hs, hw])
  · exact after_of_yielded (p := .service) (by simp [step, stepService, hs, hw])

lemma after_finished {stage : Stage} {body : Body} (hs : x.service = .writing stage body)
    {w : Writer} {result : Except ConnectionError Unit}
    (hw : Writer.step ⟨x.sink, x.buffer, stage⟩ (x.bodyChannel body) = .finished w result) :
    x.after .service = x.endService w result :=
  after_of_moved (p := .service) (by simp [step, stepService, hs, hw, endService])

lemma refused_iff {stage : Stage} {body : Body} (hs : x.service = .writing stage body) :
    x.Refused ↔ Writer.Refused ⟨x.sink, x.buffer, stage⟩ := by
  constructor
  · rintro ⟨stage', body', hs', h⟩
    obtain ⟨rfl, -⟩ := Service.writing.inj (hs.symm.trans hs')
    exact h
  · exact fun h => ⟨stage, body, hs, h⟩

lemma foretold_waiting_own {c : Channel} (hs : x.service = .writing .waiting (.own c))
    (h : Due left z x) (ht : c.forecast.behind x.sink.output = t) :
    Foretold t z (x.after .service) := by
  have same : ∀ (w : Writer) (c' : Channel), Due left z (x.took w (.own c) (some c')) :=
    fun w c' => h.same rfl rfl rfl (by simp [took, hs, Service.listens])
  rw [c.forecast_eq] at ht
  rcases hp : c.poll with ⟨b | e | _ | _, c'⟩ <;> rw [hp] at ht
  · rw [after_wrote hs (w := ⟨x.sink, x.buffer, .chunk b⟩) (c := some c')
      (.inl (by simp [bodyChannel, Writer.step, hp]))]
    exact foretold_writing left (same _ _) rfl ht
  · have hend : Writer.step ⟨x.sink, x.buffer, .waiting⟩ (x.bodyChannel (.own c)) =
        .finished ⟨x.sink, x.buffer, .waiting⟩ (.error (.entity e)) := by
      simp [bodyChannel, Writer.step, hp]
    rw [after_finished hs hend]
    exact foretold_ended h ht (by simp)
  · rw [after_wrote hs (w := ⟨x.sink, x.buffer, .flush⟩) (c := some c')
      (.inl (by simp [bodyChannel, Writer.step, hp]))]
    exact foretold_writing left (same _ _) rfl ht
  · rw [after_of_stuck (p := .service)
      (by simp [step, stepService, hs, bodyChannel, Writer.step, hp])]
    exact foretold_writing left h hs (by rw [Body.forecast, c.forecast_eq, hp]; exact ht)

lemma foretold_waiting_passedOn (hs : x.service = .writing .waiting .passedOn) (h : Due left z x)
    (ht : (Body.forecast left .passedOn).behind x.sink.output = t) :
    Foretold t z (x.after .service) := by
  have hl : x.service.listens = true := by rw [hs]; rfl
  cases h with
  | bare hent hi hz hleft =>
    subst hleft
    rw [after_wrote hs (w := ⟨x.sink, x.buffer, .flush⟩) (c := none)
      (.inl (by simp [bodyChannel, Writer.step, Assembly.channel?, hent]))]
    exact foretold_writing []
      (.bare (by simp [took, leave, Assembly.onChannel, hent]) hi hz rfl) rfl ht
  | entity h =>
    have hc : x.bodyChannel .passedOn = some _ := h.channel?_eq
    rcases (h.owes (h.listens.trans hl)).poll with ⟨hp, -⟩ |
      ⟨chunk, left', c', rfl, hp, howes, hsend, hrec⟩ | ⟨c', rfl, hp, howes, hsend, hrec⟩
    · rw [after_of_stuck (p := .service) (by simp [step, stepService, hs, hc, Writer.step, hp])]
      exact foretold_writing left (.entity h) hs ht
    · rw [after_wrote hs (w := ⟨x.sink, x.buffer, .chunk chunk⟩) (c := some c')
        (.inl (by simp [hc, Writer.step, hp]))]
      refine foretold_writing left' (.entity (h.onChannel (f := fun _ => c') hsend
        (hrec.trans (h.listens.trans hl)) (fun _ => howes) rfl rfl rfl)) rfl ?_
      rw [← ht]
      simp [Writer.forecast, Writer.atHand, Body.forecast, Forecast.behind, took, Forecast.complete]
    · rw [after_wrote hs (w := ⟨x.sink, x.buffer, .flush⟩) (c := some c')
        (.inl (by simp [hc, Writer.step, hp]))]
      exact foretold_writing [] (.entity (h.onChannel (f := fun _ => c') hsend
        (hrec.trans (h.listens.trans hl)) (fun _ => howes) rfl rfl rfl)) rfl ht

lemma foretold_waiting {body : Body} (hs : x.service = .writing .waiting body) (h : Due left z x)
    (ht : (body.forecast left).behind x.sink.output = t) : Foretold t z (x.after .service) := by
  cases body with
  | none =>
    rw [after_wrote hs (w := ⟨x.sink, x.buffer, .flush⟩) (c := none)
      (.inl (by simp [bodyChannel, Writer.step]))]
    exact foretold_writing left (h.same rfl rfl rfl (by simp [took, hs, Service.listens])) rfl ht
  | own c => exact foretold_waiting_own hs h ht
  | passedOn => exact foretold_waiting_passedOn hs h ht

lemma foretold_flush {body : Body} (hs : x.service = .writing .flush body) (h : Due left z x)
    (ht : Forecast.complete.behind x.sink.output = t) :
    ForetoldUpTo x.Refused t z (x.after .service) := by
  rw [refused_iff hs]
  rcases Writer.step_flush (w := ⟨x.sink, x.buffer, .flush⟩) rfl (x.bodyChannel body) with
    ⟨hgoes, s, hstep, hout, -⟩ | ⟨hrefused, w, e, hstep, hout⟩
  · rw [after_finished hs hstep]
    exact .inl ⟨hgoes, foretold_ended h (by rw [hout]; exact ht) fun _ => rfl⟩
  · rw [after_finished hs hstep]
    refine .inr ⟨hrefused, cutOff_ended h ?_⟩
    rw [hout, ← ht]
    exact List.prefix_append ..

/-- A service that writes goes on, unless it is refused. -/
lemma foretold_put {stage : Stage} {body : Body} (hs : x.service = .writing stage body)
    (hw : stage ≠ .waiting) (hf : stage ≠ .flush) (h : Due left z x)
    (ht : (x.forecast left).behind x.sink.output = t) :
    ForetoldUpTo x.Refused t z (x.after .service) := by
  rw [refused_iff hs]
  rw [forecast_writing hs] at ht
  rcases Writer.step_cases (w := ⟨x.sink, x.buffer, stage⟩) hw hf (x.bodyChannel body) with
    ⟨hgoes, w, hstep, hon⟩ | ⟨hrefused, w, e, hstep, hout⟩
  · obtain ⟨hservice, hsink, hbuffer⟩ := x.took_bodyChannel w body
    rw [after_wrote hs hstep]
    refine .inl ⟨hgoes, foretold_writing left (due_took h hs w) hservice ?_⟩
    rw [hsink, hbuffer, ← ht]
    exact hon.forecast hf (body.forecast left)
  · rw [after_finished hs hstep]
    refine .inr ⟨hrefused, cutOff_ended h ?_⟩
    rw [hout, ← ht]
    exact List.prefix_append ..

/-! ### Acts -/

namespace Foretold

/-- **A step of the service** keeps what is foretold, unless it is refused. -/
lemma after_service (h : Foretold t z x) :
    ForetoldUpTo x.Refused t z (x.after .service) := by
  obtain ⟨left, hd, ht⟩ := h.due
  have idle : (∀ stage body, x.service ≠ .writing stage body) → ¬ x.Refused :=
    fun hs ⟨stage, body, hs', _⟩ => hs stage body hs'
  rcases hs : x.service with ⟨p, got⟩ | ⟨stage, body⟩ | result
  · exact .inl ⟨idle (by simp [hs]), foretold_planning hs hd ht⟩
  · by_cases hw : stage = .waiting
    · subst hw
      rw [forecast_writing hs] at ht
      refine .inl ⟨?_, foretold_waiting hs hd ht⟩
      simp [refused_iff hs, Writer.Refused, Writer.atHand]
    · by_cases hf : stage = .flush
      · subst hf
        rw [forecast_writing hs] at ht
        exact foretold_flush hs hd ht
      · exact foretold_put hs hw hf hd ht
  · rw [after_of_stuck (p := .service) (by simp [step, stepService, hs])]
    exact .inl ⟨idle (by simp [hs]), h⟩

lemma facing (h : Foretold t z x) (b : SinkBehaviour) : Foretold t z (x.facing b) := by
  obtain ⟨left, hd, ht⟩ := h.due
  refine ⟨⟨left, hd.same rfl rfl rfl rfl, ?_⟩, h.tidy⟩
  rw [← ht]
  exact congrArg (Forecast.behind _) (forecast_congr (by rfl) (by rfl) (by rfl) left)

/-- **An act of the intake** keeps what is foretold. -/
lemma on_intake (h : Foretold t z x) : Foretold t z (x.on .intake) := by
  obtain ⟨left, hd, ht⟩ := h.due
  obtain ⟨hservice, hsink, hbuffer, hversion⟩ := x.on_intake_sameService
  refine ⟨⟨left, hd.on_intake, ?_⟩, by rw [hservice, hbuffer]; exact h.tidy⟩
  rw [forecast_congr hservice hversion hbuffer, hsink]
  exact ht

end Foretold

/-- Along these acts, the sink refuses something. -/
def MeetsFault (x : Exchange) : List Act → Prop
  | [] => False
  | a :: acts => (∃ b, a = .service b ∧ (x.facing b).Refused) ∨ (x.on a).MeetsFault acts

lemma CutOff.through (h : CutOff t z x) (acts : List Act) : CutOff t z (x.through acts) := by
  refine through_induction (P := CutOff t z) (fun y a hy => ?_) h acts
  obtain ⟨⟨left, hd⟩, ⟨e, hs⟩, hout⟩ := hy
  cases a with
  | intake =>
    obtain ⟨hservice, hsink, -⟩ := y.on_intake_sameService
    exact ⟨⟨left, hd.on_intake⟩, ⟨e, hservice.trans hs⟩, hsink ▸ hout⟩
  | service b =>
    have hfacing : (y.facing b).service = .ended (.error (.transport e)) := hs
    rw [on, after_of_stuck (p := .service) (by simp [step, stepService, hfacing])]
    exact ⟨⟨left, hd.same rfl rfl rfl rfl⟩, ⟨e, hs⟩, hout⟩

/-- **Along all acts**, what is foretold comes, up to a fault. -/
lemma Foretold.through (h : Foretold t z x) (acts : List Act) :
    ForetoldUpTo (x.MeetsFault acts) t z (x.through acts) := by
  induction acts generalizing x with
  | nil => exact .inl ⟨id, h⟩
  | cons a acts ih =>
    cases a with
    | intake => simpa [ForetoldUpTo, MeetsFault] using ih h.on_intake
    | service b =>
      rcases (h.facing b).after_service with ⟨hgoes, hnext⟩ | ⟨hrefused, hcut⟩
      · have hon : Foretold t z (x.on (.service b)) := hnext
        simpa [ForetoldUpTo, MeetsFault, hgoes] using ih hon
      · exact .inr ⟨.inl ⟨b, rfl, hrefused⟩, CutOff.through hcut acts⟩

lemma not_meetsFault {acts : List Act} (h : ∀ b, Act.service b ∈ acts → b.Faultless) :
    ¬ x.MeetsFault acts := by
  induction acts generalizing x with
  | nil => exact id
  | cons a acts ih =>
    rintro (⟨b, rfl, stage, body, -, hrefused⟩ | hrest)
    · exact Writer.not_refused_of_faultless (h b (List.mem_cons_self ..)) hrefused
    · exact ih (fun b hb => h b (List.mem_cons_of_mem _ hb)) hrest

/-- **At rest**, what has been foretold has come. -/
lemma Foretold.atRest (h : Foretold t z x) (hrest : x.AtRest) :
    x.sink.output = t.bytes ∧ x.result? = t.result ∧
      (t.result = some (.ok ()) → x.buffer = []) := by
  obtain ⟨left, hd, rfl⟩ := h.due
  obtain ⟨hi, -, ⟨result, hs⟩ | ⟨c, hs⟩⟩ := hd.atRest hrest
  · have hf : x.forecast left = ⟨[], some result⟩ := by rw [forecast, hs, draft, hs]
    rw [hf]
    refine ⟨by simp [Forecast.behind], by simp [result?, hi, hs, Forecast.behind], fun hok => ?_⟩
    obtain rfl : result = .ok () := Option.some.inj hok
    exact h.tidy hs
  · have hstuck := hrest .service
    have hf : x.forecast left = ⟨[], none⟩ := by
      rcases hp : c.poll with ⟨_ | _ | _ | _, c'⟩
      · simp [step, stepService, hs, bodyChannel, Writer.step, hp] at hstuck
      · simp [step, stepService, hs, bodyChannel, Writer.step, hp] at hstuck
      · simp [step, stepService, hs, bodyChannel, Writer.step, hp] at hstuck
      · rw [forecast_writing hs, Body.forecast, c.forecast_eq, hp]
        rfl
    rw [hf]
    exact ⟨by simp [Forecast.behind], by simp [result?, hi, hs, Forecast.behind],
      by simp [Forecast.behind]⟩

end Exchange

end Http1
