import Http1.Proofs.Arrivals
import Http1.Proofs.Serving

/-!
The courses that a connection may take.

`Connection.serve` lets the parties of an exchange take turns in one order, over a sink that
behaves in one way, and an intake reads until it has a frame. In a course the parties move in any
order until neither can, also between two reads, and the sink may behave in another way whenever
the service has its turn. Main statements: what an act of the intake comes to, that a connection
has a course whatever the transport does, and that serving is one.
-/

namespace Http1

namespace Exchange

variable {x y : Exchange} {b : SinkBehaviour}

/-! ### What the intake may do -/

/-- What a step of the intake makes of an exchange: the chunk in hand is delivered, the entity is
over, or the reader has been asked. -/
inductive IntakeStep (x : Exchange) : Exchange → Prop where
  | delivered {chunk : Bytes} {p : Assembly.Pushed} {a : Assembly} :
      x.intake = .holding chunk → x.assembly.deliver chunk = (p, a) → (∀ c, p ≠ .blocked c) →
      IntakeStep x { x with assembly := a, intake := .reading }
  | complete : x.intake = .reading → x.assembly.done = true → IntakeStep x (x.endIntake (.ok ()))
  | waited {r : FrameReader} :
      x.intake = .reading → x.assembly.done = false → x.reader.pull = (.blocked, r) →
      IntakeStep x { x with reader := r }
  | held {f : Frame} {r : FrameReader} {chunk : Bytes} {a : Assembly} :
      x.intake = .reading → x.assembly.done = false → x.reader.pull = (.frame f, r) →
      x.assembly.push f = (.blocked chunk, a) →
      IntakeStep x { x with reader := r, assembly := a, intake := .holding chunk }
  | refused {f : Frame} {r : FrameReader} {a : Assembly} :
      x.intake = .reading → x.assembly.done = false → x.reader.pull = (.frame f, r) →
      x.assembly.push f = (.refused, a) →
      IntakeStep x ({ x with reader := r, assembly := a }.endIntake (.error .unexpectedFrame))
  | pushed {f : Frame} {r : FrameReader} {p : Assembly.Pushed} {a : Assembly} :
      x.intake = .reading → x.assembly.done = false → x.reader.pull = (.frame f, r) →
      x.assembly.push f = (p, a) → (∀ c, p ≠ .blocked c) → p ≠ .refused →
      IntakeStep x { x with reader := r, assembly := a }
  | failed {e : ConnectionError} {r : FrameReader} {a : Assembly} :
      x.intake = .reading → x.assembly.done = false → x.reader.pull = (.failed e, r) →
      (a = x.assembly ∨ ∃ why, a = x.assembly.abort why) →
      IntakeStep x ({ x with reader := r, assembly := a }.endIntake (.error e))
  | ended {n : Nat} {r : FrameReader} :
      x.intake = .reading → x.assembly.done = false → x.reader.pull = (.ended n, r) →
      IntakeStep x
        (({ x with reader := r }.sayUnparsed n).endIntake (.error (cutShort x.assembly)))

/-- **Every step of the intake** is one of these. -/
lemma stepIntake_cases (x : Exchange) : x.stepIntake.All x.IntakeStep := by
  unfold stepIntake
  split
  · trivial
  · split
    · trivial
    · rename_i hi _ p a hblocked hdel
      exact .delivered hi hdel hblocked
  · rename_i hi
    split
    · rename_i hd
      exact .complete hi hd
    · rename_i hd
      have hd : x.assembly.done = false := by simpa using hd
      split
      · exact .waited hi hd ‹_›
      · split
        · exact .held hi hd ‹_› ‹_›
        · exact .refused hi hd ‹_› ‹_›
        · rename_i hpull _ p a hblocked hrefused hpush
          exact .pushed hi hd hpull hpush hblocked hrefused
      · exact .failed hi hd ‹_› (.inr ⟨_, rfl⟩)
      · exact .failed hi hd ‹_› (.inl rfl)
      · exact .ended hi hd ‹_›

lemma after_intake_cases {P : Exchange → Prop} (h : ∀ y, x.IntakeStep y → P y) (hx : P x) :
    P (x.after .intake) := by
  refine after_of_all (p := .intake) ?_ hx
  have hstep := x.stepIntake_cases
  rw [step]
  rcases hs : x.stepIntake with y | y | _ <;> rw [hs] at hstep
  · exact h y hstep
  · exact h y hstep
  · trivial

/-! ### What the service leaves alone -/

def SameIntake (y x : Exchange) : Prop :=
  y.reader = x.reader ∧ y.intake = x.intake ∧ y.version = x.version

lemma sameIntake_answer (x : Exchange) (a : Answer) : (x.answer a).SameIntake x := by
  cases a <;> exact ⟨rfl, rfl, rfl⟩

lemma sameIntake_took (x : Exchange) (w : Writer) (body : Body) (c : Option Channel) :
    (x.took w body c).SameIntake x := by
  cases body <;> cases c <;> exact ⟨rfl, rfl, rfl⟩

lemma after_service_sameIntake (x : Exchange) : (x.after .service).SameIntake x := by
  refine after_service_cases (P := (SameIntake · x)) (fun y hy => ?_) ⟨rfl, rfl, rfl⟩
  cases hy with
  | ready => exact sameIntake_answer x _
  | bare => exact sameIntake_answer x _
  | received => exact ⟨rfl, rfl, rfl⟩
  | heard => exact sameIntake_answer _ _
  | wrote => exact sameIntake_took x ..
  | finished => exact ⟨rfl, rfl, rfl⟩

/-! ### Acts -/

/-- What may happen next: the intake has its turn, or the service does, over a sink that behaves
so. -/
inductive Act where
  | intake
  | service (b : SinkBehaviour)

def facing (x : Exchange) (b : SinkBehaviour) : Exchange :=
  { x with sink := { x.sink with behaviour := b } }

/-- What an act comes to. An intake whose step takes bytes off the source does one read of it. -/
def on (x : Exchange) : Act → Exchange
  | .intake =>
    match x.reader.arrival? with
    | some r =>
      if (x.after .intake).reader.source = x.reader.source then x.after .intake
      else { x with reader := r }
    | none => x.after .intake
  | .service b => (x.facing b).after .service

def through (x : Exchange) (acts : List Act) : Exchange := acts.foldl on x

@[simp] lemma through_nil (x : Exchange) : x.through [] = x := rfl

@[simp] lemma through_cons (x : Exchange) (a : Act) (acts : List Act) :
    x.through (a :: acts) = (x.on a).through acts := rfl

lemma through_append (x : Exchange) (as bs : List Act) :
    x.through (as ++ bs) = (x.through as).through bs := List.foldl_append

lemma through_induction {P : Exchange → Prop} (h : ∀ y a, P y → P (y.on a)) (hx : P x)
    (acts : List Act) : P (x.through acts) := by
  induction acts generalizing x with
  | nil => exact hx
  | cons a acts ih => exact ih (h x a hx)

/-! ### The reader in an act -/

lemma reader_after_intake (x : Exchange) :
    (x.after .intake).reader = x.reader ∨ x.intake = .reading ∧ x.assembly.done = false := by
  refine after_intake_cases
    (P := fun y => y.reader = x.reader ∨ x.intake = .reading ∧ x.assembly.done = false)
    (fun y hy => ?_) (.inl rfl)
  cases hy with
  | delivered => exact .inl rfl
  | complete => exact .inl rfl
  | waited hi hd => exact .inr ⟨hi, hd⟩
  | held hi hd => exact .inr ⟨hi, hd⟩
  | refused hi hd => exact .inr ⟨hi, hd⟩
  | pushed hi hd => exact .inr ⟨hi, hd⟩
  | failed hi hd => exact .inr ⟨hi, hd⟩
  | ended hi hd => exact .inr ⟨hi, hd⟩

lemma reader_after_reading (hi : x.intake = .reading) (hd : x.assembly.done = false) :
    (x.after .intake).reader = x.reader.pull.2 := by
  rcases hp : x.reader.pull with ⟨_ | e | _ | _, r⟩
  · rename_i f
    rcases hpush : x.assembly.push f with ⟨_ | _ | _ | _, a⟩ <;>
      simp [after, step, stepIntake, hi, hd, hp, hpush, endIntake]
  · rcases e with _ | _ | _ | _ <;> simp [after, step, stepIntake, hi, hd, hp, endIntake]
  · simp [after, step, stepIntake, hi, hd, hp, endIntake, reader_sayUnparsed]
  · simp [after, step, stepIntake, hi, hd, hp]

/-- **An act of the intake** is a read of what has arrived, or a step for which nothing has to be
read. -/
lemma on_intake (x : Exchange) :
    (∃ r, x.intake = .reading ∧ x.assembly.done = false ∧ x.reader.arrival? = some r ∧
      x.on .intake = { x with reader := r }) ∨
    (x.intake = .reading → x.assembly.done = false → x.reader.arrival? = none) ∧
      x.on .intake = x.after .intake := by
  rcases ha : x.reader.arrival? with _ | r
  · exact .inr ⟨fun _ _ => rfl, by simp [on, ha]⟩
  · by_cases hs : (x.after .intake).reader.source = x.reader.source
    · refine .inr ⟨fun hi hd => ?_, by simp [on, ha, hs]⟩
      rw [reader_after_reading hi hd] at hs
      exact absurd hs (FrameReader.source_pull_ne ha)
    · rcases x.reader_after_intake with hsame | ⟨hi, hd⟩
      · exact absurd (congrArg FrameReader.source hsame) hs
      · exact .inl ⟨r, hi, hd, rfl, by simp [on, ha, hs]⟩

lemma on_intake_sameService (x : Exchange) : (x.on .intake).SameService x := by
  rcases x.on_intake with ⟨r, -, -, -, hon⟩ | ⟨-, hon⟩ <;> rw [hon]
  · exact ⟨rfl, rfl, rfl, rfl⟩
  · exact x.after_intake_sameService

/-! ### Acts that come to an end -/

/-- A writer is stuck only on a body that has nothing for it yet, whatever the sink. -/
lemma stepService_facing (b : SinkBehaviour) (h : x.stepService = .stuck) :
    (x.facing b).stepService = .stuck := by
  rcases hs : x.service with ⟨p, got⟩ | ⟨stage, body⟩ | result
  · rcases he : p.early got with _ | a
    · rcases hc : x.assembly.channel? with _ | c
      · simp [stepService, hs, he, hc] at h
      · rcases hp : c.poll with ⟨what, c'⟩
        cases what <;> simp_all [stepService, facing]
    · simp [stepService, hs, he] at h
  · by_cases hw : stage = .waiting
    · subst hw
      rcases hc : x.bodyChannel body with _ | c
      · simp [stepService, hs, hc, Writer.step] at h
      · have hc' : (x.facing b).bodyChannel body = some c := by rw [← hc]; cases body <;> rfl
        rcases hp : c.poll with ⟨what, c'⟩
        cases what <;> simp_all [stepService, facing, Writer.step]
    · rcases Writer.step_of_not_waiting (w := ⟨x.sink, x.buffer, stage⟩) hw (x.bodyChannel body)
        with ⟨w, hgo | hgo, -⟩ | ⟨w, result, hgo⟩ <;> simp [stepService, hs, hgo] at h
  · simp [stepService, facing, hs]

/-- Where a party can move, it has an act that lowers the exchange. -/
lemma exists_on_below (b : SinkBehaviour) (h : ¬ x.AtRest) :
    ∃ a, (∀ b', a = .service b' → b' = b) ∧ (x.on a).Below x := by
  obtain ⟨p, hp⟩ := Classical.not_forall.1 h
  cases p with
  | intake =>
    refine ⟨.intake, by simp, ?_⟩
    rcases x.on_intake with ⟨r, -, -, ha, hon⟩ | ⟨-, hon⟩
    · rw [hon]
      have hlt := FrameReader.potential_arrival ha
      refine .inr ⟨rfl, ?_⟩
      simp only [potential, intakeCost, serviceCost]
      omega
    · rw [hon]
      exact after_below hp
  | service =>
    refine ⟨.service b, fun b' hb' => (Act.service.inj hb').symm, ?_⟩
    have hstuck : (x.facing b).step .service ≠ .stuck := fun hstuck =>
      hp (stepService_facing (x := x.facing b) x.sink.behaviour hstuck)
    exact after_below hstuck

/-- **Every exchange can be brought to rest**, whatever the sink. -/
lemma exists_through_atRest (b : SinkBehaviour) (x : Exchange) :
    ∃ acts, (∀ b', Act.service b' ∈ acts → b' = b) ∧ (x.through acts).AtRest := by
  by_cases hx : x.AtRest
  · exact ⟨[], by simp, hx⟩
  · obtain ⟨a, ha, hbelow⟩ := exists_on_below b hx
    obtain ⟨acts, hacts, hrest⟩ := exists_through_atRest b (x.on a)
    refine ⟨a :: acts, fun b' hb' => ?_, hrest⟩
    rcases List.mem_cons.1 hb' with rfl | hb'
    · exact ha b' rfl
    · exact hacts b' hb'
termination_by (x.rank, x.potential)
decreasing_by exact below_lex hbelow

/-! ### Runs -/

/-- What the reader may still bring becomes no more. -/
lemma potential_on (x : Exchange) (a : Act) : (x.on a).NoMore x := by
  cases a with
  | intake =>
    rcases x.on_intake with ⟨r, -, -, ha, hon⟩ | ⟨-, hon⟩ <;> rw [hon]
    · exact Nat.le_of_lt (FrameReader.potential_arrival ha)
    · rcases x.reader_after_intake with hsame | ⟨hi, hd⟩
      · exact Nat.le_of_eq (congrArg FrameReader.potential hsame)
      · rw [NoMore, reader_after_reading hi hd]
        exact Nat.le_trans (Nat.le_add_right _ _) x.reader.pull_potential
  | service b =>
    exact Nat.le_of_eq (congrArg FrameReader.potential (after_service_sameIntake (x.facing b)).1)

lemma potential_through (x : Exchange) (acts : List Act) : (x.through acts).NoMore x :=
  through_induction (P := (NoMore · x)) (fun y a hy => Nat.le_trans (potential_on y a) hy)
    (Nat.le_refl _) acts

lemma stepIntake_ne_stuck (x : Exchange) (hi : x.intake = .reading) : x.stepIntake ≠ .stuck := by
  rcases hd : x.assembly.done with _ | _
  · rcases hp : x.reader.pull with ⟨_ | e | _ | _, r⟩
    · rename_i f
      rcases hpush : x.assembly.push f with ⟨_ | _ | _ | _, a⟩ <;>
        simp [stepIntake, hi, hd, hp, hpush]
    · rcases e with _ | _ | _ | _ <;> simp [stepIntake, hi, hd, hp]
    · simp [stepIntake, hi, hd, hp]
    · simp [stepIntake, hi, hd, hp]
  · simp [stepIntake, hi, hd]

lemma after_intake_congr (hi : x.intake = .reading) (hd : x.assembly.done = false)
    {r : FrameReader} (hr : r.pull = x.reader.pull) :
    ({ x with reader := r } : Exchange).after .intake = x.after .intake := by
  have hstep : ({ x with reader := r } : Exchange).stepIntake = x.stepIntake := by
    simp only [stepIntake, hi, hd, hr]
    rfl
  have hmoved := x.stepIntake_ne_stuck hi
  rw [after, after, step, step, hstep]
  split <;> simp_all

lemma after_intake_eq_through (x : Exchange) :
    ∃ acts, (∀ b, Act.service b ∉ acts) ∧ x.after .intake = x.through acts := by
  rcases x.on_intake with ⟨r, hi, hd, ha, hon⟩ | ⟨-, hon⟩
  · have hlt := FrameReader.length_arrival ha
    obtain ⟨acts, hacts, hthrough⟩ := after_intake_eq_through { x with reader := r }
    refine ⟨.intake :: acts, by simpa using hacts, ?_⟩
    rw [through_cons, hon, ← hthrough,
      after_intake_congr hi hd (FrameReader.pull_arrival ha).symm]
  · exact ⟨[.intake], by simp, by rw [through_cons, hon, through_nil]⟩
termination_by x.reader.source.length

/-- **A run is a list of acts**. -/
lemma run_eq_through (x : Exchange) (ps : List Party) :
    ∃ acts, (∀ b, Act.service b ∈ acts → b = x.sink.behaviour) ∧ x.run ps = x.through acts := by
  induction ps generalizing x with
  | nil => exact ⟨[], by simp, rfl⟩
  | cons p ps ih =>
    -- the first step as acts, which leave the behaviour of the sink as it is
    obtain ⟨acts, hacts, hstep⟩ : ∃ acts, (∀ b, Act.service b ∈ acts → b = x.sink.behaviour) ∧
        x.after p = x.through acts := by
      cases p with
      | intake =>
        obtain ⟨acts, hacts, hstep⟩ := after_intake_eq_through x
        exact ⟨acts, fun b hb => absurd hb (hacts b), hstep⟩
      | service => exact ⟨[.service x.sink.behaviour], by simp, rfl⟩
    obtain ⟨acts', hacts', hrun⟩ := ih (x.after p)
    rw [behaviour_after] at hacts'
    refine ⟨acts ++ acts', fun b hb => ?_, by rw [run_cons, hrun, hstep, through_append]⟩
    exact (List.mem_append.1 hb).elim (hacts b) (hacts' b)

end Exchange

/-! ### Connections -/

namespace Connection

open Exchange (Act)

/-- What a request comes to whose exchange has gone from `x` to `y`. -/
def conclude (s : Session) (q : Request) (x y : Exchange) : Progress :=
  let e : Served := ⟨q, x, y⟩
  let s' : Session := ⟨y.reader, y.sink, y.buffer, s.log ++ y.log⟩
  match y.result? with
  | none => .last e ⟨none, s'⟩
  | some (.error why) => .last e ⟨some (.error why), s'⟩
  | some (.ok _) =>
    let s' := s'.say .debug (servedText q.shouldClose)
    if q.shouldClose then
      match s'.sink.shutdown with
      | .ok k => .last e ⟨some (.ok ()), { s' with sink := k }⟩
      | .error why => .last e ⟨some (.error (.transport why)), s'⟩
    else .more e s'

/-- How a connection ends that finds no next request. -/
def farewell? (s : Session) : Session.Received × FrameReader → Option Outcome
  | (.failed e, r) => some ⟨some (.error e), { s with reader := r }⟩
  | (.ended n, r) =>
    let s := { s with reader := r }
    some ⟨some (.ok ()), if n = 0 then s else s.say .debug (Exchange.unparsedText n)⟩
  | (.request .., _) => none

/-- A request that is handed over, what happens while it is served, and how the sink behaves
after that. -/
structure Episode where
  request : Request
  start : Exchange
  acts : List Act
  shutdown : SinkBehaviour

namespace Episode

def finish (e : Episode) : Exchange := (e.start.through e.acts).facing e.shutdown

def served (e : Episode) : Served := ⟨e.request, e.start, e.finish⟩

def progress (s : Session) (e : Episode) : Progress := conclude s e.request e.start e.finish

/-- The episode begins with the next request of the session, over a sink that behaves in such
ways, and ends when neither party can move. -/
structure Opens (c : Connection) (B : SinkBehaviour → Prop) (s : Session) (e : Episode) :
    Prop where
  received : ∃ a r, Session.receive s.reader (.create c.entityBuffer) = (.request e.request a, r) ∧
    e.start = Exchange.start e.request.line.version r a (c.plan e.request) s.sink s.buffer
  acts : ∀ b, Act.service b ∈ e.acts → B b
  shutdown : B e.shutdown
  atRest : (e.start.through e.acts).AtRest

end Episode

/-- **The courses of a connection** over a sink that behaves in such ways: the requests that it
hands over, and its outcome. -/
inductive Course (c : Connection) (B : SinkBehaviour → Prop) :
    Session → List Episode → Outcome → Prop where
  | done {s : Session} {o : Outcome} :
      farewell? s (Session.receive s.reader (.create c.entityBuffer)) = some o → Course c B s [] o
  | last {s : Session} {e : Episode} {o : Outcome} {e' : Served} :
      e.Opens c B s → e.progress s = .last e' o → Course c B s [e] o
  | more {s s' : Session} {e : Episode} {es : List Episode} {o : Outcome} {e' : Served} :
      e.Opens c B s → e.progress s = .more e' s' → Course c B s' es o → Course c B s (e :: es) o

/-- The sessions between two requests that a connection may come to. -/
inductive Comes (c : Connection) (B : SinkBehaviour → Prop) (s : Session) : Session → Prop where
  | start : Comes c B s s
  | next {s' s'' : Session} {e : Episode} {e' : Served} :
      Comes c B s s' → e.Opens c B s' → e.progress s' = .more e' s'' → Comes c B s s''

variable {c : Connection} {B : SinkBehaviour → Prop} {s : Session}

/-! ### Every connection has a course -/

lemma progress_more {e : Episode} {e' : Served} {s' : Session} (h : e.progress s = .more e' s') :
    s'.reader = e.finish.reader ∧ s'.sink = e.finish.sink ∧ s'.buffer = e.finish.buffer ∧
      e.finish.result? = some (.ok ()) ∧ e.request.shouldClose = false := by
  unfold Episode.progress conclude at h
  dsimp only at h
  split at h
  · simp at h
  · simp at h
  · rename_i hresult
    split at h
    · split at h <;> simp at h
    · rename_i hclose
      simp only [Progress.more.injEq] at h
      obtain ⟨-, rfl⟩ := h
      exact ⟨rfl, rfl, rfl, hresult, by simpa using hclose⟩

/-- A request that is the last one has failed or never ends, or the sink has been shut down. -/
lemma progress_last {e : Episode} {e' : Served} {o : Outcome} (h : e.progress s = .last e' o) :
    (o.result = e.finish.result? ∧ o.result ≠ some (.ok ()) ∧
        o.session.sink = e.finish.sink) ∨
      e.finish.result? = some (.ok ()) ∧ e.request.shouldClose = true ∧
        ((e.finish.sink.shutdown = .ok o.session.sink ∧ o.result = some (.ok ())) ∨
          ∃ why, e.finish.sink.shutdown = .error why ∧ o.result = some (.error (.transport why)) ∧
            o.session.sink = e.finish.sink) := by
  unfold Episode.progress conclude at h
  dsimp only at h
  split at h
  · rename_i hresult
    obtain ⟨-, rfl⟩ := Progress.last.inj h
    exact .inl ⟨hresult.symm, by simp, rfl⟩
  · rename_i why hresult
    obtain ⟨-, rfl⟩ := Progress.last.inj h
    exact .inl ⟨hresult.symm, by simp, rfl⟩
  · rename_i hresult
    split at h
    · rename_i hclose
      refine .inr ⟨hresult, hclose, ?_⟩
      split at h
      · rename_i k hshut
        obtain ⟨-, rfl⟩ := Progress.last.inj h
        exact .inl ⟨hshut, rfl⟩
      · rename_i why hshut
        obtain ⟨-, rfl⟩ := Progress.last.inj h
        exact .inr ⟨why, hshut, rfl, rfl⟩
    · cases h

lemma progress_served {e : Episode} {e' : Served}
    (h : (∃ o, e.progress s = .last e' o) ∨ ∃ s', e.progress s = .more e' s') :
    e' = e.served := by
  have hall : ∀ p, conclude s e.request e.start e.finish = p →
      (∀ o, p = .last e' o → e' = e.served) ∧ ∀ s', p = .more e' s' → e' = e.served := by
    rintro p rfl
    unfold conclude
    dsimp only
    split
    · simp +contextual [Episode.served, eq_comm]
    · simp +contextual [Episode.served, eq_comm]
    · split
      · split <;> simp +contextual [Episode.served, eq_comm]
      · simp +contextual [Episode.served, eq_comm]
  exact h.elim (fun ⟨o, ho⟩ => (hall _ ho).1 o rfl) fun ⟨s', hs⟩ => (hall _ hs).2 s' rfl

lemma progress_ne_done (s : Session) (e : Episode) (o : Outcome) : e.progress s ≠ .done o := by
  unfold Episode.progress conclude
  dsimp only
  split
  · simp
  · simp
  · split
    · split <;> simp
    · simp

lemma Episode.Opens.potential_lt {e : Episode} (h : e.Opens c B s) {e' : Served} {s' : Session}
    (hp : e.progress s = .more e' s') : s'.reader.potential < s.reader.potential := by
  obtain ⟨a, r, hr, hstart⟩ := h.received
  have hreceive :=
    Session.receive_potential s.reader (.create c.entityBuffer) e.request a (by rw [hr])
  rw [hr] at hreceive
  have hfinish : e.finish.reader.potential ≤ e.start.reader.potential :=
    e.start.potential_through e.acts
  rw [(progress_more hp).1]
  rw [hstart] at hfinish
  exact Nat.lt_of_le_of_lt hfinish hreceive

lemma exists_episode {b : SinkBehaviour} (hb : B b) {q : Request} {a : Assembly} {r : FrameReader}
    (h : Session.receive s.reader (.create c.entityBuffer) = (.request q a, r)) :
    ∃ e : Episode, e.Opens c B s := by
  obtain ⟨acts, hacts, hrest⟩ := Exchange.exists_through_atRest b
    (.start q.line.version r a (c.plan q) s.sink s.buffer)
  exact ⟨⟨q, _, acts, b⟩, ⟨a, r, h, rfl⟩, fun b' hb' => hacts b' hb' ▸ hb, hb, hrest⟩

/-- **Every connection has a course**, from any session on. -/
theorem exists_course (c : Connection) {b : SinkBehaviour} (hb : B b) (s : Session) :
    ∃ es o, Course c B s es o := by
  rcases hr : Session.receive s.reader (.create c.entityBuffer) with
    ⟨⟨q, a⟩ | e | n, r⟩
  · obtain ⟨e, he⟩ := exists_episode hb hr
    rcases hp : e.progress s with o | ⟨e', o⟩ | ⟨e', s'⟩
    · exact absurd hp (progress_ne_done s e o)
    · exact ⟨_, _, .last he hp⟩
    · have hlt := he.potential_lt hp
      obtain ⟨es, o, hcourse⟩ := exists_course c hb s'
      exact ⟨_, _, .more he hp hcourse⟩
  · exact ⟨_, _, .done (by rw [hr]; rfl)⟩
  · exact ⟨_, _, .done (by rw [hr]; rfl)⟩
termination_by s.reader.potential

/-! ### Serving is a course -/

lemma serveNext_of_request {q : Request} {a : Assembly} {r : FrameReader}
    (h : Session.receive s.reader (.create c.entityBuffer) = (.request q a, r)) :
    let x := Exchange.start q.line.version r a (c.plan q) s.sink s.buffer
    c.serveNext s = conclude s q x (x.rounds .intake) := by
  rw [serveNext, h]
  rfl

lemma serveNext_of_farewell {o : Outcome}
    (h : farewell? s (Session.receive s.reader (.create c.entityBuffer)) = some o) :
    c.serveNext s = .done o := by
  rw [serveNext]
  rcases hr : Session.receive s.reader (.create c.entityBuffer) with ⟨⟨q, a⟩ | e | n, r⟩ <;>
    rw [hr] at h
  · simp [farewell?] at h
  · rw [← Option.some.inj h]
  · rw [← Option.some.inj h]

lemma exists_episode_of_rounds (hb : B s.sink.behaviour) {q : Request} {a : Assembly}
    {r : FrameReader}
    (h : Session.receive s.reader (.create c.entityBuffer) = (.request q a, r)) :
    let x := Exchange.start q.line.version r a (c.plan q) s.sink s.buffer
    ∃ e : Episode, e.Opens c B s ∧ e.request = q ∧ e.start = x ∧
      e.finish = x.rounds .intake := by
  intro x
  obtain ⟨⟨ps, hps⟩, hrest⟩ := x.rounds_eq_run .intake
  obtain ⟨acts, hacts, hrun⟩ := x.run_eq_through ps
  rw [hps, hrun] at hrest
  refine ⟨⟨q, x, acts, s.sink.behaviour⟩,
    ⟨⟨a, r, h, rfl⟩, fun b hin => hacts b hin ▸ hb, hb, hrest⟩, rfl, rfl, ?_⟩
  have hsame : (x.through acts).sink.behaviour = s.sink.behaviour := by
    rw [← hrun]
    exact Exchange.behaviour_run x ps
  rw [hps, hrun, Episode.finish, ← hsame]
  rfl

/-- **Serving is a course**. -/
theorem serveFrom_course (c : Connection) (s : Session) (hb : B s.sink.behaviour) :
    ∃ es, Course c B s es (c.serveFrom s) ∧
      c.history s = es.map Episode.served := by
  rcases hr : Session.receive s.reader (.create c.entityBuffer) with ⟨⟨q, a⟩ | e | n, r⟩
  · obtain ⟨e, he, rfl, hstart, hfinish⟩ := exists_episode_of_rounds hb hr
    have hnext : c.serveNext s = e.progress s := by
      rw [serveNext_of_request hr, Episode.progress, hstart, hfinish]
    rcases hp : e.progress s with o | ⟨e', o⟩ | ⟨e', s'⟩
    · exact absurd hp (progress_ne_done s e o)
    · rw [serveFrom_eq, history_eq, hnext, hp]
      exact ⟨_, .last he hp, by simp [progress_served (.inl ⟨o, hp⟩)]⟩
    · have hlt := he.potential_lt hp
      have hb' : B s'.sink.behaviour := by
        rw [(progress_more hp).2.1]
        exact he.shutdown
      obtain ⟨es, hcourse, hhistory⟩ := serveFrom_course c s' hb'
      rw [serveFrom_eq, history_eq, hnext, hp]
      exact ⟨_, .more he hp hcourse, by simp [progress_served (.inr ⟨s', hp⟩), hhistory]⟩
  · have hover : farewell? s (.failed e, r) = some ⟨some (.error e), { s with reader := r }⟩ := rfl
    rw [← hr] at hover
    rw [serveFrom_eq, history_eq, serveNext_of_farewell hover]
    exact ⟨[], .done hover, rfl⟩
  · obtain ⟨o, hover⟩ : ∃ o, farewell? s (.ended n, r) = some o := ⟨_, rfl⟩
    rw [← hr] at hover
    rw [serveFrom_eq, history_eq, serveNext_of_farewell hover]
    exact ⟨[], .done hover, rfl⟩
termination_by s.reader.potential

end Connection

end Http1
