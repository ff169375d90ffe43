import Http1.Assembly
import Http1.FrameReader
import Http1.Handler
import Http1.Log
import Http1.Response.Writer

/-!
An exchange: a request that has been released, and the response to it.

Two parties are at work. The intake reads the rest of the request's entity into its channel, and
waits while the channel is full; the service carries out the handler's plan on what the channel
brings and writes the response. Each of them moves step by step, and either may move at any
time. The connection lets them take turns, each as long as it can, and begins each round with
the one that came second in the round before.

Main statement: every step lowers the exchange, first by whether the plan is still open and then
by what is left to be read, queued and written, so no order of turns goes on for ever.
-/

namespace Http1

inductive Intake where
  | reading
  /-- A chunk that is in hand until the channel has room. -/
  | holding (chunk : Bytes)
  | ended (result : Except ConnectionError Unit)

/-- Where the entity of a response comes from. -/
inductive Body where
  | none
  /-- A stream of its own. -/
  | own (c : Channel)
  /-- The stream of the request. -/
  | passedOn

inductive Service where
  | planning (p : Plan) (got : List Bytes)
  | writing (stage : Stage) (body : Body)
  | ended (result : Except ConnectionError Unit)

structure Exchange where
  version : Version
  reader : FrameReader
  assembly : Assembly
  intake : Intake
  service : Service
  sink : Sink
  buffer : Bytes
  log : List Record

inductive Party where
  | intake
  | service
  deriving DecidableEq, Repr

def Party.other : Party → Party
  | intake => service
  | service => intake

namespace Exchange

inductive Move where
  | moved (x : Exchange)
  /-- The party has moved, and then waits for the transport. -/
  | yielded (x : Exchange)
  /-- The party is done, or waits for the other one. -/
  | stuck

def unparsedText (n : Nat) : Text :=
  "end of input with ".toList ++ decimal n ++ " unparsed bytes".toList

def say (x : Exchange) (l : Level) (t : Text) : Exchange := { x with log := x.log ++ [⟨l, t⟩] }

/-! ### The intake -/

def sayUnparsed (x : Exchange) (n : Nat) : Exchange :=
  if n = 0 then x else x.say .debug (unparsedText n)

/-- The intake ends and leaves the channel. -/
def endIntake (x : Exchange) (result : Except ConnectionError Unit) : Exchange :=
  { x with assembly := x.assembly.drop, intake := .ended result }

/-- What the end of input in the middle of an entity is reported as. -/
def cutShort (a : Assembly) : ConnectionError :=
  match a.truncated? with
  | some e => .entity e
  | none => .unexpectedFrame

def stepIntake (x : Exchange) : Move :=
  match x.intake with
  | .ended _ => .stuck
  | .holding chunk =>
    match x.assembly.deliver chunk with
    | (.blocked _, _) => .stuck
    | (_, a) => .moved { x with assembly := a, intake := .reading }
  | .reading =>
    if x.assembly.done then .moved (x.endIntake (.ok ()))
    else
      match x.reader.pull with
      | (.blocked, r) => .yielded { x with reader := r }
      | (.frame f, r) =>
        match x.assembly.push f with
        | (.blocked chunk, a) =>
          .moved { x with reader := r, assembly := a, intake := .holding chunk }
        | (.refused, a) =>
          .moved ({ x with reader := r, assembly := a }.endIntake (.error .unexpectedFrame))
        | (_, a) => .moved { x with reader := r, assembly := a }
      | (.failed (.transport e), r) =>
        .moved ({ x with reader := r, assembly := x.assembly.abort (.transport e) }.endIntake
          (.error (.transport e)))
      | (.failed e, r) => .moved ({ x with reader := r }.endIntake (.error e))
      | (.ended n, r) =>
        .moved (({ x with reader := r }.sayUnparsed n).endIntake (.error (cutShort x.assembly)))

/-! ### The service -/

def bodyChannel (x : Exchange) : Body → Option Channel
  | .none => none
  | .own c => some c
  | .passedOn => x.assembly.channel?

/-- The service leaves the request's stream. -/
def leave (x : Exchange) : Exchange := { x with assembly := x.assembly.onChannel Channel.leave }

def respond (x : Exchange) (r : Response) (body : Body) : Exchange :=
  let w := Writer.start x.sink x.buffer x.version r
  { x with sink := w.sink, buffer := w.buffer, service := .writing w.stage body }

/-- Takes up an answer. An answer that does not pass the request's entity on leaves it. -/
def answer (x : Exchange) : Answer → Exchange
  | .respond r =>
    x.leave.respond r
      (match r.entity with
      | .streaming c => .own c
      | _ => .none)
  | .forward s hs => x.respond ⟨s, hs, .empty⟩ .passedOn
  | .fail message =>
    (x.say .error ("handler failed: ".toList ++ message)).leave.respond
      (.bodiless .internalServerError) .none

def took (x : Exchange) (w : Writer) (body : Body) (c : Option Channel) : Exchange :=
  let x := { x with sink := w.sink, buffer := w.buffer }
  match body, c with
  | .none, _ => { x with service := .writing w.stage .none }
  | .own _, some c => { x with service := .writing w.stage (.own c) }
  | .own _, none => { x with service := .writing w.stage .none }
  | .passedOn, some c =>
    { x with assembly := x.assembly.onChannel fun _ => c, service := .writing w.stage .passedOn }
  | .passedOn, none => { x.leave with service := .writing w.stage .passedOn }

def stepService (x : Exchange) : Move :=
  match x.service with
  | .ended _ => .stuck
  | .planning p got =>
    match p.early got with
    | some a => .moved (x.answer a)
    | none =>
      match x.assembly.channel? with
      | none => .moved (x.answer (p.final got none))
      | some c =>
        match c.poll with
        | (.pending, _) => .stuck
        | (.chunk b, c) =>
          .moved { x with
            assembly := x.assembly.onChannel fun _ => c
            service := .planning p (got ++ [b]) }
        | (.ended, c) =>
          .moved ({ x with assembly := x.assembly.onChannel fun _ => c }.answer (p.final got none))
        | (.failed e, c) =>
          .moved
            ({ x with assembly := x.assembly.onChannel fun _ => c }.answer (p.final got (some e)))
  | .writing stage body =>
    match ({ sink := x.sink, buffer := x.buffer, stage := stage : Writer }).step
        (x.bodyChannel body) with
    | .moved w c => .moved (x.took w body c)
    | .yielded w c => .yielded (x.took w body c)
    | .stuck => .stuck
    | .finished w result =>
      .moved { x with
        sink := w.sink
        buffer := w.buffer
        assembly := x.assembly.onChannel Channel.leave
        service := .ended result }

def step (x : Exchange) (p : Party) : Move :=
  match p with
  | .intake => x.stepIntake
  | .service => x.stepService

/-! ### Progress -/

/-- One while the plan is open: what its answer will weigh is not known before. -/
def rank (x : Exchange) : Nat :=
  match x.service with
  | .planning .. => 1
  | _ => 0

def intakeCost (x : Exchange) : Nat :=
  match x.intake with
  | .reading => 1
  | .holding chunk => 2 * chunk.length + 4
  | .ended _ => 0

def serviceCost (x : Exchange) : Nat :=
  match x.service with
  | .writing stage body =>
    Writer.cost ⟨x.sink, x.buffer, stage⟩ +
      match body with
      | .own c => c.load
      | _ => 0
  | _ => 0

/-- What is left to be read, queued and written. -/
def potential (x : Exchange) : Nat :=
  x.reader.potential + x.intakeCost + x.assembly.load + x.serviceCost

/-- The exchange `y` has less before it than `x`. -/
def Below (y x : Exchange) : Prop :=
  y.rank < x.rank ∨ y.rank = x.rank ∧ y.potential < x.potential

theorem Below.trans {z y x : Exchange} (h : Below z y) (h' : Below y x) : Below z x := by
  unfold Below at *
  omega

/-- Wherever the step goes, it goes below `x`. -/
def Move.Below (x : Exchange) : Move → Prop
  | moved y => y.Below x
  | yielded y => y.Below x
  | stuck => True

/-- To end the intake lowers the exchange, if the reader and the channel have gained nothing. -/
theorem endIntake_below {x : Exchange} (hi : x.intake = .reading) {r : FrameReader} {a : Assembly}
    (h : r.potential + a.load ≤ x.reader.potential + x.assembly.load) (log : List Record)
    (result : Except ConnectionError Unit) :
    ({ x with reader := r, assembly := a, log := log }.endIntake result).Below x := by
  have hdrop := a.load_drop_le
  refine .inr ⟨rfl, ?_⟩
  simp only [potential, intakeCost, serviceCost, hi, endIntake]
  omega

theorem stepIntake_below (x : Exchange) : x.stepIntake.Below x := by
  unfold stepIntake
  split
  · trivial
  · rename_i chunk hi
    have h := (x.assembly.load_deliver chunk).1
    split
    · trivial
    · rename_i a hd
      rw [hd] at h
      refine .inr ⟨rfl, ?_⟩
      simp only [potential, intakeCost, serviceCost, hi] at h ⊢
      omega
  · rename_i hi
    split
    · exact endIntake_below hi (Nat.le_refl _) x.log _
    · have hp := x.reader.pull_potential
      split
      · rename_i r hr
        simp only [hr, FrameReader.Pull.price] at hp
        refine .inr ⟨rfl, ?_⟩
        simp only [potential, intakeCost, serviceCost, hi]
        omega
      · rename_i f r hr
        simp only [hr, FrameReader.Pull.price, FrameReader.price] at hp
        have hl := x.assembly.load_push f
        split
        · rename_i chunk a ha
          obtain ⟨hc, he⟩ := hl.2 chunk (by rw [ha])
          simp only [ha] at he
          refine .inr ⟨rfl, ?_⟩
          simp only [potential, intakeCost, serviceCost, hi]
          omega
        · rename_i a ha
          have hload := hl.1
          simp only [ha] at hload
          exact endIntake_below hi (by omega) x.log _
        · rename_i a ha
          have hload := hl.1
          simp only [ha] at hload
          refine .inr ⟨rfl, ?_⟩
          simp only [potential, intakeCost, serviceCost, hi]
          omega
      · rename_i e r hr
        simp only [hr, FrameReader.Pull.price] at hp
        have hload := x.assembly.load_abort_le (.transport e)
        exact endIntake_below hi (by omega) x.log _
      · rename_i e r _ hr
        simp only [hr, FrameReader.Pull.price] at hp
        exact endIntake_below hi (by omega) x.log _
      · rename_i n r hr
        simp only [hr, FrameReader.Pull.price] at hp
        have hle : r.potential + x.assembly.load ≤ x.reader.potential + x.assembly.load := by omega
        unfold sayUnparsed
        split
        · exact endIntake_below hi hle x.log _
        · exact endIntake_below hi hle (x.log ++ [⟨.debug, unparsedText n⟩]) _

theorem load_onChannel_const_le (a : Assembly) (c : Channel) :
    (a.onChannel fun _ => c).load ≤ c.load := by
  unfold Assembly.load Assembly.channel? Assembly.onChannel
  cases a.entity <;> simp

theorem load_leave_zero (a : Assembly) : (a.onChannel Channel.leave).load = 0 := by
  unfold Assembly.load Assembly.channel? Assembly.onChannel
  cases a.entity <;> simp

/-- What is in the request's stream while a body other than it is written. -/
def aside (x : Exchange) : Body → Nat
  | .passedOn => 0
  | _ => x.assembly.load

/-- An answer closes the plan. -/
theorem rank_answer (x : Exchange) (a : Answer) : (x.answer a).rank = 0 := by
  cases a <;> rfl

theorem took_potential (x : Exchange) (w : Writer) (body : Body) (c : Option Channel) :
    (x.took w body c).rank = 0 ∧
      (x.took w body c).potential ≤
        x.reader.potential + x.intakeCost + w.cost + Writer.bodyLoad c + x.aside body := by
  obtain ⟨sink, buffer, stage⟩ := w
  unfold took
  dsimp only
  split
  · refine ⟨rfl, ?_⟩
    simp only [potential, intakeCost, serviceCost, aside]
    omega
  · refine ⟨rfl, ?_⟩
    simp only [potential, intakeCost, serviceCost, aside, Writer.bodyLoad,
      Option.map_some, Option.getD_some]
    omega
  · refine ⟨rfl, ?_⟩
    simp only [potential, intakeCost, serviceCost, aside]
    omega
  · rename_i c
    have := load_onChannel_const_le x.assembly c
    refine ⟨rfl, ?_⟩
    simp only [potential, intakeCost, serviceCost, aside, Writer.bodyLoad,
      Option.map_some, Option.getD_some]
    omega
  · have := load_leave_zero x.assembly
    refine ⟨rfl, ?_⟩
    simp only [potential, intakeCost, serviceCost, aside, leave]
    omega

theorem planning_below {x : Exchange} {p : Plan} {got : List Bytes}
    (hs : x.service = .planning p got) : x.stepService.Below x := by
  have hrank : x.rank = 1 := by simp [rank, hs]
  have close : ∀ (y : Exchange) (a : Answer), (y.answer a).Below x := fun y a =>
    .inl (by rw [rank_answer, hrank]; omega)
  simp only [stepService, hs]
  split
  · exact close _ _
  · split
    · exact close _ _
    · rename_i c hc
      have hload := c.load_poll
      split
      · trivial
      · rename_i b c' hp
        have h1 := hload.2 b (by rw [hp])
        have h2 := load_onChannel_const_le x.assembly c'
        have h3 : x.assembly.load = c.load := by simp [Assembly.load, hc]
        simp only [hp] at h1
        refine .inr ⟨by simp [rank, hs], ?_⟩
        simp only [potential, intakeCost, serviceCost, hs]
        omega
      · exact close _ _
      · exact close _ _

theorem writing_below {x : Exchange} {stage : Stage} {body : Body}
    (hs : x.service = .writing stage body) : x.stepService.Below x := by
  have hrank : x.rank = 0 := by simp [rank, hs]
  have hpot : x.potential = x.reader.potential + x.intakeCost +
      Writer.cost ⟨x.sink, x.buffer, stage⟩ + Writer.bodyLoad (x.bodyChannel body) +
        x.aside body := by
    cases body <;>
      simp only [potential, serviceCost, hs, bodyChannel, aside, Writer.bodyLoad, Assembly.load,
        Option.map_none, Option.getD_none, Option.map_some, Option.getD_some] <;> omega
  have hstep := Writer.step_below ⟨x.sink, x.buffer, stage⟩ (x.bodyChannel body)
  have wrote : ∀ {w : Writer} {c : Option Channel},
      w.cost + Writer.bodyLoad c <
        Writer.cost ⟨x.sink, x.buffer, stage⟩ + Writer.bodyLoad (x.bodyChannel body) →
      (x.took w body c).Below x := fun {w c} hlt => by
    obtain ⟨h1, h2⟩ := x.took_potential w body c
    exact .inr ⟨by rw [h1, hrank], by omega⟩
  simp only [stepService, hs]
  split
  · rename_i w c hw
    rw [hw] at hstep
    exact wrote hstep
  · rename_i w c hw
    rw [hw] at hstep
    exact wrote hstep
  · trivial
  · have h1 := load_leave_zero x.assembly
    have h2 : 0 < Writer.cost ⟨x.sink, x.buffer, stage⟩ := by
      unfold Writer.cost; split <;> omega
    refine .inr ⟨by simp [rank, hs], ?_⟩
    have h3 : Writer.cost ⟨x.sink, x.buffer, stage⟩ ≤ x.serviceCost := by
      simp only [serviceCost, hs]; omega
    simp only [potential, intakeCost] at h3 ⊢
    simp only [serviceCost] at h3 ⊢
    omega

theorem stepService_below (x : Exchange) : x.stepService.Below x := by
  rcases hs : x.service with ⟨p, got⟩ | ⟨stage, body⟩ | result
  · exact planning_below hs
  · exact writing_below hs
  · simp only [stepService, hs]
    trivial

/-- **Every step lowers the exchange**, whichever party takes it. -/
theorem step_below (p : Party) (x : Exchange) : (x.step p).Below x := by
  cases p
  · exact x.stepIntake_below
  · exact x.stepService_below

end Exchange

end Http1
