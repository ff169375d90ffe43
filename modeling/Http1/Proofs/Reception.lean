import Http1.Proofs.Intake
import Http1.Proofs.Writing

/-!
The service as the receiver of an entity whose bytes all come.

The service looks at the stream of the request while it plans, and while it writes a response
that passes the stream on. What it receives is recorded as it is seen. Every step keeps what the
intake has delivered, and the service has a step to take unless it is done, waits for a stream of
its own, or has received all that is there.
-/

namespace Http1

open Channel (Reception)

namespace Exchange

variable {x : Exchange}

/-! ### What the service may do -/

/-- What a step of the service makes of an exchange: an answer that is ready, one for a request
without an entity, a chunk that is received, the answer at the end of the stream, or what the writer
does. -/
inductive ServiceStep (x : Exchange) : Exchange → Prop where
  | ready {p : Plan} {got : List Bytes} {a : Answer} :
      x.service = .planning p got → p.early got = some a → ServiceStep x (x.answer a)
  | bare {p : Plan} {got : List Bytes} :
      x.service = .planning p got → x.assembly.channel? = none →
      ServiceStep x (x.answer (p.final got none))
  | received {p : Plan} {got : List Bytes} {c c' : Channel} {chunk : Bytes} :
      x.service = .planning p got → x.assembly.channel? = some c → c.poll = (.chunk chunk, c') →
      ServiceStep x { x with
        assembly := x.assembly.onChannel fun _ => c'
        service := .planning p (got ++ [chunk]) }
  | heard {p : Plan} {got : List Bytes} {c c' : Channel} (word : Option EntityError) :
      x.service = .planning p got → x.assembly.channel? = some c →
      c.poll = (word.elim .ended .failed, c') →
      ServiceStep x (Exchange.answer { x with assembly := x.assembly.onChannel fun _ => c' }
        (p.final got word))
  | wrote {stage : Stage} {body : Body} {w : Writer} {c : Option Channel} :
      x.service = .writing stage body →
      (Writer.step ⟨x.sink, x.buffer, stage⟩ (x.bodyChannel body) = .moved w c ∨
        Writer.step ⟨x.sink, x.buffer, stage⟩ (x.bodyChannel body) = .yielded w c) →
      ServiceStep x (x.took w body c)
  | finished {stage : Stage} {body : Body} {w : Writer} {result : Except ConnectionError Unit} :
      x.service = .writing stage body →
      Writer.step ⟨x.sink, x.buffer, stage⟩ (x.bodyChannel body) = .finished w result →
      ServiceStep x { x with
        sink := w.sink
        buffer := w.buffer
        assembly := x.assembly.onChannel Channel.leave
        service := .ended result }

/-- **Every step of the service** is one of these. -/
lemma stepService_cases (x : Exchange) : x.stepService.All x.ServiceStep := by
  unfold stepService
  split
  · trivial
  · rename_i p got hs
    split
    · exact .ready hs ‹_›
    · split
      · exact .bare hs ‹_›
      · rename_i c hc
        split
        · trivial
        · exact .received hs hc ‹_›
        · exact .heard none hs hc ‹_›
        · exact .heard (some _) hs hc ‹_›
  · rename_i stage body hs
    split
    · exact .wrote hs (.inl ‹_›)
    · exact .wrote hs (.inr ‹_›)
    · trivial
    · exact .finished hs ‹_›

lemma after_service_cases {P : Exchange → Prop} (h : ∀ y, x.ServiceStep y → P y) (hx : P x) :
    P (x.after .service) := by
  refine after_of_all (p := .service) ?_ hx
  have hserved := x.stepService_cases
  rw [step]
  rcases hs : x.stepService with y | y | _ <;> rw [hs] at hserved
  · exact h y hserved
  · exact h y hserved
  · trivial

/-! ### What the service receives -/

/-- The stream of the request, if the service looks at it in its next step. -/
def looksAt (x : Exchange) : Option Channel :=
  match x.service with
  | .planning p got => if (p.early got).isSome then none else x.assembly.channel?
  | .writing .waiting .passedOn => x.assembly.channel?
  | _ => none

/-- What a party receives from the stream of the request in its next step. -/
def sight (x : Exchange) : Party → List Reception
  | .intake => []
  | .service => (x.looksAt.map fun c => c.poll.1).toList.filter (· ≠ .pending)

def seen (x : Exchange) : List Party → List Reception
  | [] => []
  | p :: ps => x.sight p ++ (x.after p).seen ps

lemma seen_append (x : Exchange) (ps qs : List Party) :
    x.seen (ps ++ qs) = x.seen ps ++ (x.run ps).seen qs := by
  induction ps generalizing x with
  | nil => rfl
  | cons p ps ih => rw [List.cons_append, seen, ih, run_cons, seen, List.append_assoc]

/-- A service that cannot move is done, waits for a stream of its own, or finds nothing yet. -/
lemma stuck_cases {x : Exchange} (h : x.stepService = .stuck) :
    ((∃ result, x.service = .ended result) ∨ ∃ c, x.service = .writing .waiting (.own c)) ∨
      ∃ c, x.looksAt = some c ∧ c.poll.1 = .pending := by
  rcases hs : x.service with ⟨p, got⟩ | ⟨stage, body⟩ | result
  · right
    rcases he : p.early got with _ | a
    · rcases hc : x.assembly.channel? with _ | c
      · simp [stepService, hs, he, hc] at h
      · refine ⟨c, by simp [looksAt, hs, he, hc], ?_⟩
        rcases hp : c.poll with ⟨what, c'⟩
        cases what <;> simp_all [stepService]
    · simp [stepService, hs, he] at h
  · by_cases hw : stage = .waiting
    · subst hw
      cases body with
      | none => simp [stepService, hs, bodyChannel, Writer.step] at h
      | own c => exact .inl (.inr ⟨c, rfl⟩)
      | passedOn =>
        right
        rcases hc : x.assembly.channel? with _ | c
        · simp [stepService, hs, bodyChannel, Writer.step, hc] at h
        · refine ⟨c, by simp [looksAt, hs, hc], ?_⟩
          rcases hp : c.poll with ⟨what, c'⟩
          cases what <;> simp_all [stepService, bodyChannel, Writer.step]
    · rcases Writer.step_of_not_waiting (w := ⟨x.sink, x.buffer, stage⟩) hw (x.bodyChannel body)
        with ⟨w, hgo | hgo, -⟩ | ⟨w, result, hgo⟩ <;> simp [stepService, hs, hgo] at h
  · exact .inl (.inl ⟨result, rfl⟩)

lemma sight_of_stuck {x : Exchange} (h : x.stepService = .stuck) : x.sight .service = [] := by
  rcases stuck_cases h with (⟨result, hs⟩ | ⟨c, hs⟩) | ⟨c, hl, hp⟩
  · simp [sight, looksAt, hs]
  · simp [sight, looksAt, hs]
  · simp [sight, hl, hp]

/-! ### Where the service is -/

/-- The plan asks for more until the stream is at its end, unless it passes the stream on, and
then to a sink that takes it. -/
def KeepsOn (p : Plan) (s : SinkBehaviour) : Prop :=
  ∀ got a, p.early got = some a → (∃ status hs, a = .forward status hs) ∧ s.Faultless

/-- The service is where it should be with the request's stream: it has left it, unless it plans
or passes it on. A service that keeps to the stream leaves it after its end. -/
def Attends (s : SinkBehaviour) (keeps : Prop) (got : List Bytes) (c : Channel) : Service → Prop
  | .planning p chunks =>
    chunks = got ∧ c.receiving = true ∧ c.finished = false ∧ (keeps → KeepsOn p s)
  | .writing stage .passedOn =>
    c.receiving = true ∧ (stage = .flush → c.finished = true) ∧
      (keeps → c.finished = true ∨ s.Faultless)
  | _ => c.receiving = false ∧ (keeps → c.finished = true)

variable {l : Lexicon} {n : Nat} {b given : Bytes} {fate : Option TransportError}
  {s : SinkBehaviour} {keeps : Prop} {got : List Bytes} {r : Receiving} {x y : Exchange}

/-! ### Steps -/

/-- What a step of the service has made of the stream, and what it has received from it. -/
def Hears (x : Exchange) (got got' : List Bytes) (c c' : Channel) : Prop :=
  (x.sight .service = [] ∧ got' = got ∧ c'.finished = c.finished) ∨
    (∃ chunk, x.sight .service = [.chunk chunk] ∧ got' = got ++ [chunk] ∧ c.finished = false ∧
      c'.finished = false) ∨
    (x.sight .service = [.ended] ∧ got' = got ∧ c'.finished = true)

def Serves (l : Lexicon) (n : Nat) (b : Bytes) (fate : Option TransportError)
    (s : SinkBehaviour) (keeps : Prop) (given : Bytes) (got : List Bytes) (r : Receiving)
    (x : Exchange) : Prop :=
  ∃ y got' r', (x.stepService = .moved y ∨ x.stepService = .yielded y) ∧
    Carried l n b fate given got' r' y ∧ Attends s keeps got' r'.channel y.service ∧
    x.Hears got got' r.channel r'.channel

namespace Carried

lemma answer (h : Carried l n b fate given got r x) (hr : r.channel.receiving = true)
    (s : SinkBehaviour) (keeps : Prop) (a : Answer)
    (hk : keeps → r.channel.finished = true ∨ (∃ status hs, a = .forward status hs) ∧ s.Faultless) :
    ∃ r', Carried l n b fate given got r' (x.answer a) ∧
      Attends s keeps got r'.channel (x.answer a).service ∧
      r'.channel.finished = r.channel.finished := by
  cases a with
  | forward status hs =>
    have hkeeps : keeps → r.channel.finished = true ∨ s.Faultless :=
      fun hkeeps => (hk hkeeps).imp_right And.right
    exact ⟨r, h.same rfl rfl rfl, ⟨hr, by simp [Writer.start], hkeeps⟩, rfl⟩
  | respond q =>
    have hfin : keeps → r.channel.finished = true := by simpa using hk
    refine ⟨{ r with channel := r.channel.leave },
      h.onChannel h.carries.leave rfl rfl rfl rfl, ?_, rfl⟩
    rcases hq : q.entity with _ | _ | _ <;> simp only [Exchange.answer, respond, hq] <;>
      exact ⟨rfl, hfin⟩
  | fail m =>
    exact ⟨{ r with channel := r.channel.leave }, h.onChannel h.carries.leave rfl rfl rfl rfl,
      ⟨rfl, show keeps → r.channel.finished = true by simpa using hk⟩, rfl⟩

lemma serves_planning (h : Carried l n b fate given got r x) {p : Plan} {chunks : List Bytes}
    (hs : x.service = .planning p chunks) (ha : Attends s keeps got r.channel x.service) :
    Serves l n b fate s keeps given got r x ∨
      x.stepService = .stuck ∧ r.channel.sending = true ∧ r.channel.queue = [] := by
  rw [hs] at ha
  obtain ⟨rfl, hr, hf, hk⟩ := ha
  rcases he : p.early chunks with _ | a
  · have hlook : x.looksAt = some r.channel := by simp [looksAt, hs, he, h.channel?_eq]
    rcases h.carries.poll hr with ⟨hp, hsend, hq⟩ | ⟨c, hp, -, hcar, hfin, hsend, hrec⟩ |
      ⟨hp, hall, hcar, hfin, hsend, hrec⟩
    · refine .inr ⟨?_, hsend, hq⟩
      rcases hpoll : r.channel.poll with ⟨q, c⟩
      obtain rfl : q = .pending := by rw [← hp, hpoll]
      simp [Exchange.stepService, hs, he, h.channel?_eq, hpoll]
    · rcases hpoll : r.channel.poll with ⟨q, c'⟩
      rw [hpoll] at hp hcar hfin hsend hrec
      obtain rfl : q = .chunk c := hp
      have hcar' : c'.Carries n given (chunks ++ [c]).flatten := by simpa using hcar
      refine .inl ⟨{ x with
          assembly := x.assembly.onChannel fun _ => c'
          service := .planning p (chunks ++ [c]) }, chunks ++ [c], { r with channel := c' },
        .inl (by simp [Exchange.stepService, hs, he, h.channel?_eq, hpoll]),
        h.onChannel (f := fun _ => c') hcar' hsend rfl rfl rfl, ⟨rfl, hrec, hfin, hk⟩,
        .inr (.inl ⟨c, ?_, rfl, hf, hfin⟩)⟩
      simp [sight, hlook, hpoll]
    · rcases hpoll : r.channel.poll with ⟨q, c'⟩
      rw [hpoll] at hp hcar hfin hsend hrec
      obtain rfl : q = .ended := hp
      have hmid : Carried l n b fate given chunks { r with channel := c' }
          { x with assembly := x.assembly.onChannel fun _ => c' } :=
        h.onChannel (f := fun _ => c') hcar hsend rfl rfl rfl
      obtain ⟨r', hcar', hatt, hfin'⟩ := hmid.answer hrec s keeps (p.final chunks none)
        fun _ => .inl hfin
      refine .inl ⟨_, chunks, r',
        .inl (by simp [Exchange.stepService, hs, he, h.channel?_eq, hpoll]), hcar', hatt,
        .inr (.inr ⟨?_, rfl, hfin'.trans hfin⟩)⟩
      simp [sight, hlook, hpoll]
  · have hlook : x.looksAt = none := by simp [looksAt, hs, he]
    obtain ⟨r', hcar, hatt, hfin⟩ := h.answer hr s keeps a fun hkeeps =>
      .inr (hk hkeeps _ _ he)
    exact .inl ⟨x.answer a, chunks, r', .inl (by simp [Exchange.stepService, hs, he]), hcar, hatt,
      .inl ⟨by simp [sight, hlook], rfl, hfin⟩⟩

lemma serves_finished (h : Carried l n b fate given got r x) (hlook : x.looksAt = none)
    (hk : keeps → r.channel.finished = true) (sink : Sink) (buffer : Bytes)
    (result : Except ConnectionError Unit)
    (hs : x.stepService = .moved { x with
      sink := sink
      buffer := buffer
      assembly := x.assembly.onChannel Channel.leave
      service := .ended result }) : Serves l n b fate s keeps given got r x :=
  ⟨_, got, { r with channel := r.channel.leave }, .inl hs,
    h.onChannel h.carries.leave rfl rfl rfl rfl, ⟨rfl, hk⟩,
    .inl ⟨by simp [sight, hlook], rfl, rfl⟩⟩

lemma serves_took (h : Carried l n b fate given got r x) {body : Body} (hb : body ≠ .passedOn)
    (hr : r.channel.receiving = false) (hk : keeps → r.channel.finished = true)
    (hlook : x.looksAt = none) (w : Writer) (c : Option Channel)
    (hs : x.stepService = .moved (x.took w body c) ∨ x.stepService = .yielded (x.took w body c)) :
    Serves l n b fate s keeps given got r x := by
  refine ⟨x.took w body c, got, r, hs, ?_, ?_, .inl ⟨by simp [sight, hlook], rfl, rfl⟩⟩
  · cases body with
    | passedOn => exact absurd rfl hb
    | none => exact h.same rfl rfl rfl
    | own d => cases c <;> exact h.same rfl rfl rfl
  · cases body with
    | passedOn => exact absurd rfl hb
    | none => exact ⟨hr, hk⟩
    | own d => cases c <;> exact ⟨hr, hk⟩

lemma serves_aside (h : Carried l n b fate given got r x) {stage : Stage} {body : Body}
    (hs : x.service = .writing stage body) (hb : body ≠ .passedOn)
    (ha : Attends s keeps got r.channel x.service) :
    Serves l n b fate s keeps given got r x ∨
      x.stepService = .stuck ∧ ∃ c, x.service = .writing .waiting (.own c) := by
  obtain ⟨hr, hk⟩ : r.channel.receiving = false ∧ (keeps → r.channel.finished = true) := by
    cases body <;> simp_all [Attends]
  have hlook : x.looksAt = none := by
    cases stage <;> cases body <;> simp_all [looksAt]
  -- whatever the writer does, unless it has to wait for its own body
  have goes : ∀ {q : Writer.Step}, Writer.step ⟨x.sink, x.buffer, stage⟩ (x.bodyChannel body) = q →
      q ≠ .stuck → Serves l n b fate s keeps given got r x := by
    intro q hstep hstuck
    cases q with
    | moved w c =>
      exact h.serves_took hb hr hk hlook w c (.inl (by simp only [Exchange.stepService, hs, hstep]))
    | yielded w c =>
      exact h.serves_took hb hr hk hlook w c (.inr (by simp only [Exchange.stepService, hs, hstep]))
    | stuck => exact absurd rfl hstuck
    | finished w result =>
      exact h.serves_finished hlook hk w.sink w.buffer result
        (by simp only [Exchange.stepService, hs, hstep])
  by_cases hw : stage = .waiting
  · subst hw
    cases body with
    | passedOn => exact absurd rfl hb
    | none => exact .inl (goes rfl (by simp [Writer.step, bodyChannel]))
    | own c =>
      by_cases hstuck : Writer.step ⟨x.sink, x.buffer, .waiting⟩ (some c) = .stuck
      · exact .inr ⟨by simp [Exchange.stepService, hs, bodyChannel, hstuck], c, hs⟩
      · exact .inl (goes rfl hstuck)
  · refine .inl (goes rfl ?_)
    rcases Writer.step_of_not_waiting (w := ⟨x.sink, x.buffer, stage⟩) hw (x.bodyChannel body) with
      ⟨w, hstep | hstep, -⟩ | ⟨w, result, hstep⟩ <;> simp [hstep]

lemma serves_busy (h : Carried l n b fate given got r x) {stage : Stage}
    (hs : x.service = .writing stage .passedOn) (hw : stage ≠ .waiting)
    (ha : Attends s keeps got r.channel x.service) (hb : x.sink.behaviour = s) :
    Serves l n b fate s keeps given got r x := by
  rw [hs] at ha
  obtain ⟨hr, hflush, hk⟩ := ha
  have hbody : x.bodyChannel .passedOn = some r.channel := h.channel?_eq
  have hlook : x.looksAt = none := by
    rcases stage with _ | _ | _ | _ <;> simp_all [looksAt]
  rcases Writer.step_of_not_waiting (w := ⟨x.sink, x.buffer, stage⟩) hw (some r.channel) with
    ⟨w, hstep, hnot⟩ | ⟨w, result, hstep⟩
  · refine ⟨x.took w .passedOn (some r.channel), got, r, ?_,
      h.onChannel (f := fun _ => r.channel) h.carries rfl rfl rfl rfl,
      ⟨hr, fun hf => absurd hf hnot, hk⟩, .inl ⟨by simp [sight, hlook], rfl, rfl⟩⟩
    rcases hstep with hstep | hstep <;> simp [Exchange.stepService, hs, hbody, hstep]
  · refine h.serves_finished hlook (fun hkeeps => ?_) w.sink w.buffer result
      (by simp only [Exchange.stepService, hs, hbody, hstep])
    by_cases hf : stage = .flush
    · exact hflush hf
    · rcases hk hkeeps with hfin | hless
      · exact hfin
      · obtain ⟨w', hgo, -⟩ := Writer.step_of_faultless (w := ⟨x.sink, x.buffer, stage⟩)
          (hb ▸ hless) hw hf (some r.channel)
        rcases hgo with hgo | hgo <;> simp [hgo] at hstep

lemma serves_waiting (h : Carried l n b fate given got r x)
    (hs : x.service = .writing .waiting .passedOn) (ha : Attends s keeps got r.channel x.service) :
    Serves l n b fate s keeps given got r x ∨
      x.stepService = .stuck ∧ r.channel.sending = true ∧ r.channel.queue = [] := by
  rw [hs] at ha
  obtain ⟨hr, -, hk⟩ := ha
  have hbody : x.bodyChannel .passedOn = some r.channel := h.channel?_eq
  have hlook : x.looksAt = some r.channel := by simp [looksAt, hs, h.channel?_eq]
  rcases h.carries.poll hr with ⟨hp, hsend, hq⟩ | ⟨c, hp, hf, hcar, hfin, hsend, hrec⟩ |
    ⟨hp, hall, hcar, hfin, hsend, hrec⟩ <;>
    rcases hpoll : r.channel.poll with ⟨q, c'⟩ <;> simp only [hpoll] at hp
  · subst hp
    exact .inr ⟨by simp [Exchange.stepService, hs, hbody, Writer.step, hpoll], hsend, hq⟩
  · subst hp
    rw [hpoll] at hcar hfin hsend hrec
    have hcar' : c'.Carries n given (got ++ [c]).flatten := by simpa using hcar
    refine .inl ⟨x.took ⟨x.sink, x.buffer, .chunk c⟩ .passedOn (some c'), got ++ [c],
      { r with channel := c' },
      .inl (by simp [Exchange.stepService, hs, hbody, Writer.step, hpoll]),
      h.onChannel (f := fun _ => c') hcar' hsend rfl rfl rfl,
      ⟨hrec, by simp, fun hkeeps => (hk hkeeps).imp_left fun hdone => by simp [hf] at hdone⟩,
      .inr (.inl ⟨c, ?_, rfl, hf, hfin⟩)⟩
    simp [sight, hlook, hpoll]
  · subst hp
    rw [hpoll] at hcar hfin hsend hrec
    refine .inl ⟨x.took ⟨x.sink, x.buffer, .flush⟩ .passedOn (some c'), got,
      { r with channel := c' },
      .inl (by simp [Exchange.stepService, hs, hbody, Writer.step, hpoll]),
      h.onChannel (f := fun _ => c') hcar hsend rfl rfl rfl,
      ⟨hrec, fun _ => hfin, fun _ => .inl hfin⟩,
      .inr (.inr ⟨?_, rfl, hfin⟩)⟩
    simp [sight, hlook, hpoll]

/-- **A step of the service** on an entity whose bytes all come: it goes on, unless it is done,
waits for a stream of its own, or has received all that is there of one that is still coming. -/
lemma stepService (h : Carried l n b fate given got r x)
    (ha : Attends s keeps got r.channel x.service) (hb : x.sink.behaviour = s) :
    Serves l n b fate s keeps given got r x ∨
      x.stepService = .stuck ∧ ((∃ result, x.service = .ended result) ∨
        (∃ c, x.service = .writing .waiting (.own c)) ∨
        r.channel.sending = true ∧ r.channel.queue = []) := by
  rcases hs : x.service with ⟨p, chunks⟩ | ⟨stage, body⟩ | result
  · rcases h.serves_planning hs ha with hgo | ⟨hstuck, hwait⟩
    · exact .inl hgo
    · exact .inr ⟨hstuck, .inr (.inr hwait)⟩
  · by_cases hb : body = .passedOn
    · subst hb
      by_cases hw : stage = .waiting
      · subst hw
        rcases h.serves_waiting hs ha with hgo | ⟨hstuck, hwait⟩
        · exact .inl hgo
        · exact .inr ⟨hstuck, .inr (.inr hwait)⟩
      · exact .inl (h.serves_busy hs hw ha hb)
    · rcases h.serves_aside hs hb ha with hgo | ⟨hstuck, hown⟩
      · exact .inl hgo
      · exact .inr ⟨hstuck, .inr (.inl (hs ▸ hown))⟩
  · exact .inr ⟨by simp [Exchange.stepService, hs], .inl ⟨result, rfl⟩⟩

end Carried

/-! ### The end of the stream -/

/-- The service has nothing more to ask of the stream. -/
def Concluded : Service → Prop
  | .planning .. => False
  | .writing stage .passedOn => stage = .flush
  | _ => True

/-- The plan does not pass on a stream that it has read to its end. -/
def Concludes (p : Plan) : Prop :=
  ∀ got status hs, p.early got = none → p.final got none ≠ .forward status hs

lemma concluded_took {body : Body} (hb : body ≠ .passedOn) (w : Writer) (c : Option Channel) :
    Concluded (x.took w body c).service := by
  cases body with
  | passedOn => exact absurd rfl hb
  | none => trivial
  | own d => cases c <;> trivial

lemma concluded_answer {a : Answer} (h : ∀ status hs, a ≠ .forward status hs) :
    Concluded (x.answer a).service := by
  cases a with
  | forward status hs => exact absurd rfl (h status hs)
  | respond q =>
    rcases hq : q.entity with _ | _ | _ <;> simp [Exchange.answer, respond, hq, Concluded]
  | fail m => trivial

lemma concluded_after (h : Concluded x.service) (p : Party) :
    x.sight p = [] ∧ Concluded (x.after p).service := by
  cases p with
  | intake =>
    exact ⟨rfl, by rw [x.after_intake_sameService.1]; exact h⟩
  | service =>
    constructor
    · have hlook : x.looksAt = none := by
        unfold looksAt
        split <;> simp_all [Concluded]
      simp [sight, hlook]
    · refine after_service_cases (P := fun y => Concluded y.service) (fun y hy => ?_) h
      cases hy with
      | ready hs => exact absurd h (by simp [hs, Concluded])
      | bare hs => exact absurd h (by simp [hs, Concluded])
      | received hs => exact absurd h (by simp [hs, Concluded])
      | heard _ hs => exact absurd h (by simp [hs, Concluded])
      | @wrote stage body w c hs hw =>
        rw [hs] at h
        refine concluded_took (fun hb => ?_) w c
        -- a stream that is passed on is flushed by now, which finishes
        subst hb
        obtain rfl : stage = .flush := h
        rcases hf : x.sink.flush with e | k <;> simp [Writer.step, hf] at hw
      | finished => trivial

lemma concluded_of_ended (hp : ∀ q chunks, x.service = .planning q chunks → Concludes q)
    (h : .ended ∈ x.sight .service) : Concluded (x.after .service).service := by
  obtain ⟨c, hl, hpoll⟩ : ∃ c, x.looksAt = some c ∧ c.poll.1 = .ended := by
    simpa [sight] using h
  rcases hc : c.poll with ⟨what, c'⟩
  obtain rfl : what = .ended := by rw [← hpoll, hc]
  unfold looksAt at hl
  split at hl
  · rename_i q got hs
    split at hl
    · simp at hl
    · rename_i he
      have hnone : q.early got = none := by simpa using he
      have hstep : x.step .service = .moved (Exchange.answer
          { x with assembly := x.assembly.onChannel fun _ => c' } (q.final got none)) := by
        simp [step, Exchange.stepService, hs, hnone, hl, hc]
      rw [after_of_moved hstep]
      exact concluded_answer fun status headers => hp q got hs got status headers hnone
  · rename_i hs
    have hbody : x.bodyChannel .passedOn = some c := hl
    have hstep : x.step .service =
        .moved (x.took ⟨x.sink, x.buffer, .flush⟩ .passedOn (some c')) := by
      simp [step, Exchange.stepService, hs, hbody, Writer.step, hc]
    rw [after_of_moved hstep]
    rfl
  · simp at hl

lemma planning_answer {a : Answer} {q : Plan} {chunks : List Bytes} :
    (x.answer a).service ≠ .planning q chunks := by
  cases a <;> simp [Exchange.answer, respond]

lemma planning_took {w : Writer} {body : Body} {c : Option Channel} {q : Plan}
    {chunks : List Bytes} : (x.took w body c).service ≠ .planning q chunks := by
  cases body <;> cases c <;> simp [took]

lemma planning_after (x : Exchange) (p : Party) (q : Plan) (chunks : List Bytes)
    (h : (x.after p).service = .planning q chunks) :
    ∃ chunks', x.service = .planning q chunks' := by
  cases p with
  | intake => exact ⟨chunks, x.after_intake_sameService.1 ▸ h⟩
  | service =>
    refine after_service_cases
      (P := fun y => y.service = .planning q chunks → ∃ chunks', x.service = .planning q chunks')
      (fun y hserved hy => ?_) (fun hx => ⟨chunks, hx⟩) h
    cases hserved with
    | @received q' got _ _ _ hs =>
      obtain ⟨rfl, -⟩ : q' = q ∧ _ := by simpa using hy
      exact ⟨got, hs⟩
    | ready => exact (planning_answer hy).elim
    | bare => exact (planning_answer hy).elim
    | heard => exact (planning_answer hy).elim
    | wrote => exact (planning_took hy).elim
    | finished => simp at hy

lemma seen_of_concluded (h : Concluded x.service) (ps : List Party) : x.seen ps = [] := by
  induction ps generalizing x with
  | nil => rfl
  | cons p ps ih =>
    obtain ⟨hsight, hnext⟩ := concluded_after h p
    rw [seen, hsight, ih hnext]
    rfl

/-- **One end**: a service that does not pass on a stream at its end hears of the end once. -/
lemma count_ended_le (hp : ∀ q chunks, x.service = .planning q chunks → Concludes q)
    (ps : List Party) : (x.seen ps).count .ended ≤ 1 := by
  induction ps generalizing x with
  | nil => simp [seen]
  | cons p ps ih =>
    have hnext : ∀ q chunks, (x.after p).service = .planning q chunks → Concludes q := by
      intro q chunks hs
      obtain ⟨chunks', hs'⟩ := planning_after x p q chunks hs
      exact hp q chunks' hs'
    have hshort : (x.sight p).length ≤ 1 := by
      cases p with
      | intake => simp [sight]
      | service =>
        have hlook : ((x.looksAt.map fun c => c.poll.1).toList).length ≤ 1 := by
          cases x.looksAt <;> simp
        exact Nat.le_trans (List.length_filter_le ..) hlook
    rw [seen, List.count_append]
    by_cases hend : .ended ∈ x.sight p
    · cases p with
      | intake => simp [sight] at hend
      | service =>
        rw [seen_of_concluded (concluded_of_ended hp hend), List.count_nil]
        exact Nat.le_trans List.count_le_length hshort
    · rw [List.count_eq_zero_of_not_mem hend, Nat.zero_add]
      exact ih hnext

/-! ### The behaviour of the sink -/

lemma sink_answer (x : Exchange) (a : Answer) : (x.answer a).sink = x.sink := by cases a <;> rfl

lemma sink_took (x : Exchange) (w : Writer) (body : Body) (c : Option Channel) :
    (x.took w body c).sink = w.sink := by
  cases body <;> cases c <;> rfl

lemma behaviour_after (x : Exchange) (p : Party) :
    (x.after p).sink.behaviour = x.sink.behaviour := by
  cases p with
  | intake => rw [x.after_intake_sameService.2.1]
  | service =>
    refine after_service_cases (P := fun y => y.sink.behaviour = x.sink.behaviour)
      (fun y hserved => ?_) rfl
    cases hserved with
    | received => rfl
    | ready => exact congrArg Sink.behaviour (sink_answer _ _)
    | bare => exact congrArg Sink.behaviour (sink_answer _ _)
    | heard => exact congrArg Sink.behaviour (sink_answer _ _)
    | @wrote stage body w c _ hw =>
      have hnext : (Writer.step ⟨x.sink, x.buffer, stage⟩ (x.bodyChannel body)).next? = some w := by
        rcases hw with hw | hw <;> rw [hw] <;> rfl
      exact (congrArg Sink.behaviour (sink_took x w body c)).trans (Writer.behaviour_step hnext)
    | finished _ hw => exact Writer.behaviour_step (by rw [hw]; rfl)

lemma behaviour_run (x : Exchange) (ps : List Party) :
    (x.run ps).sink.behaviour = x.sink.behaviour :=
  run_induction (P := fun y => y.sink.behaviour = x.sink.behaviour)
    (fun y p hy => (behaviour_after y p).trans hy) rfl ps

end Exchange

end Http1
