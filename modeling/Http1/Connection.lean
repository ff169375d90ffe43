import Http1.Exchange.Turns
import Http1.KeepAlive

/-!
A connection: requests are served one at a time, until the peer closes, a response has to close,
or something fails.
-/

namespace Http1

/-- What a connection serves requests with. -/
structure Connection where
  handler : Handler
  lexicon : Lexicon
  /-- How many chunks of a request's entity may wait for the handler. -/
  entityBuffer : Nat

/-- What is there between two requests. -/
structure Session where
  reader : FrameReader
  sink : Sink
  buffer : Bytes
  log : List Record

namespace Session

def start (l : Lexicon) (source : Source) (b : SinkBehaviour) : Session :=
  ⟨.create source l, .ofBehaviour b, [], []⟩

def say (s : Session) (l : Level) (t : Text) : Session := { s with log := s.log ++ [⟨l, t⟩] }

/-- The next request, as far as it takes to release it. -/
inductive Received where
  | request (r : Request) (a : Assembly)
  | failed (e : ConnectionError)
  | ended (unparsed : Nat)

/-- Reads frames into an assembly until it releases its request. -/
def receive (r : FrameReader) (a : Assembly) : Received × FrameReader :=
  match h : r.pull with
  | (.blocked, r') =>
    have : r'.potential < r.potential := by
      have := r.pull_potential
      simp only [h, FrameReader.Pull.price] at this
      omega
    receive r' a
  | (.frame f, r') =>
    have : r'.potential < r.potential := by
      have := r.pull_potential
      simp only [h, FrameReader.Pull.price, FrameReader.price] at this
      omega
    match a.push f with
    | (.released q, a) => (.request q a, r')
    | (.refused, _) => (.failed .unexpectedFrame, r')
    | (_, a) => receive r' a
  | (.failed e, r') => (.failed e, r')
  | (.ended n, r') => (.ended n, r')
termination_by r.potential

/-- A request is paid for. -/
theorem receive_potential (r : FrameReader) (a : Assembly) :
    ∀ q b, (receive r a).1 = .request q b → (receive r a).2.potential < r.potential := by
  fun_induction receive r a with
  | case1 r a r' h hlt ih => exact fun q b hq => Nat.lt_trans (ih q b hq) hlt
  | case2 r a f r' h hlt q a' hp => exact fun _ _ _ => hlt
  | case3 r a f r' h hlt a' hp => simp
  | case4 r a f r' h hlt p a' hp h1 h2 ih => exact fun q b hq => Nat.lt_trans (ih q b hq) hlt
  | case5 => simp
  | case6 => simp

end Session

namespace Connection

/-- The plan for a request; one that the handler does not accept is not found. -/
def plan (c : Connection) (r : Request) : Plan :=
  if c.handler.accepts r then c.handler.plan r else .now (.respond (.bodiless .notFound))

/-- The result of a connection, and what it leaves. -/
structure Outcome where
  /-- Nothing if the connection waits for ever. -/
  result : Option (Except ConnectionError Unit)
  session : Session

def servedText (close : Bool) : Text :=
  "request served, keep alive: ".toList ++ (if close then "false".toList else "true".toList)

/-- A request that has been served: as it was handed over, and its exchange at the start and at
the end. -/
structure Served where
  request : Request
  start : Exchange
  finish : Exchange

/-- What serving the next request comes to. -/
inductive Progress where
  /-- There is no next request. -/
  | done (o : Outcome)
  /-- The request was the last one. -/
  | last (e : Served) (o : Outcome)
  | more (e : Served) (s : Session)

def serveNext (c : Connection) (s : Session) : Progress :=
  match Session.receive s.reader (.create c.entityBuffer) with
  | (.failed e, r) => .done ⟨some (.error e), { s with reader := r }⟩
  | (.ended n, r) =>
    let s := { s with reader := r }
    .done ⟨some (.ok ()), if n = 0 then s else s.say .debug (Exchange.unparsedText n)⟩
  | (.request q a, r) =>
    let x := Exchange.start q.line.version r a (c.plan q) s.sink s.buffer
    let y := x.rounds .intake
    let e : Served := ⟨q, x, y⟩
    let s' : Session := ⟨y.reader, y.sink, y.buffer, s.log ++ y.log⟩
    match y.result? with
    | none => .last e ⟨none, s'⟩
    | some (.error why) => .last e ⟨some (.error why), s'⟩
    | some (.ok _) =>
      let s' := s'.say .debug (servedText q.shouldClose)
      if q.shouldClose then
        match s'.sink.shutdown with
        | .ok k => .last e ⟨some (.ok ()), { s' with sink := k }⟩
        | .error why => .last e ⟨some (.error (.transport why)), s'⟩
      else .more e s'

theorem serveNext_potential {c : Connection} {s s' : Session} {e : Served}
    (h : c.serveNext s = .more e s') : s'.reader.potential < s.reader.potential := by
  have hp := Session.receive_potential s.reader (.create c.entityBuffer)
  unfold serveNext at h
  split at h
  · simp at h
  · simp at h
  · rename_i q a r hr
    have h1 := hp q a (by rw [hr])
    have h2 := (Exchange.start q.line.version r a (c.plan q) s.sink s.buffer).rounds_noMore .intake
    rw [hr] at h1
    dsimp only at h
    split at h
    · simp at h
    · simp at h
    · split at h
      · split at h <;> simp at h
      · simp only [Progress.more.injEq] at h
        rw [← h.2]
        exact Nat.lt_of_le_of_lt h2 h1

/-- Serves requests until the connection is over. -/
def serveFrom (c : Connection) (s : Session) : Outcome :=
  match h : c.serveNext s with
  | .done o => o
  | .last _ o => o
  | .more _ s' =>
    have := serveNext_potential h
    c.serveFrom s'
termination_by s.reader.potential

/-- What is said of an error that ends a connection. -/
def warning? : ConnectionError → Option Text
  | .parse e => some
      ("malformed request, closing connection: ".toList ++ (ConnectionError.parse e).message)
  | .entity e => some ("request entity failed, closing connection: ".toList ++ e.message)
  | _ => none

def serve (c : Connection) (source : Source) (b : SinkBehaviour) : Outcome :=
  let o := c.serveFrom (.start c.lexicon source b)
  match o.result with
  | some (.error e) =>
    match warning? e with
    | some t => { o with session := o.session.say .warn t }
    | none => o
  | _ => o

/-- What a peer receives that sends these bytes and then closes its side. -/
def reply (c : Connection) (sent : Bytes) : Bytes :=
  (c.serve [.bytes sent] .willing).session.sink.output

end Connection

end Http1
