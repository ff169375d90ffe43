import Mathlib.Data.List.Forall2
import Http1.Handler.Stock
import Http1.Proofs.Receiving
import Http1.Proofs.Replying

/-!
Serving as a sequence.

A connection reads, assembles, answers and writes with several parties at work, one state ahead of
what it serves. To a handler that is settled about its requests all of that amounts to a sequence:
the requests that the framing completes are answered one after the other, up to the first that
closes, and the bytes behind the last one tell how it ends.
-/

namespace Http1

open Framing (reading)
open Session (Continues)

namespace Sent

def request (capacity : Nat) (m : Sent) : Request :=
  ⟨m.line, m.headers,
    if m.body = [] then .empty else .streaming (.create m.body.length capacity)⟩

def closes (m : Sent) : Bool := shouldClose m.line.version m.headers

/-- The requests up to the first that closes. -/
def served : List Sent → List Sent
  | [] => []
  | m :: ms => if m.closes then [m] else m :: served ms

end Sent

/-- A handler whose way with a request depends on the line, the headers and the body alone. -/
structure Handler.Reacts (h : Handler) (capacity : Nat) (react : Sent → Reaction) : Prop where
  accepts : ∀ m, h.accepts (m.request capacity) = false ↔ react m = .unmatched
  gives : ∀ m, h.accepts (m.request capacity) = true →
    (h.plan (m.request capacity)).Gives m.body (react m).answer

lemma Plan.gives_now (body : Bytes) (a : Answer) : (Plan.now a).Gives body a where
  early _ _ _ h := (Option.some.inj h).symm
  final _ _ := rfl

lemma Handler.Reacts.plan_gives {c : Connection} {react : Sent → Reaction}
    (h : c.handler.Reacts c.entityBuffer react) (m : Sent) :
    (c.plan (m.request c.entityBuffer)).Gives m.body (react m).answer := by
  rcases ha : c.handler.accepts (m.request c.entityBuffer) with _ | _
  · rw [Connection.plan, ha, if_neg (by simp), (h.accepts m).1 ha]
    exact Plan.gives_now m.body _
  · rw [Connection.plan, ha, if_pos rfl]
    exact h.gives m ha

/-! ### The entity of a request -/

variable {l : Lexicon} {b : Bytes}

/-- The whole entity comes off its bytes at once. -/
lemma takes_entity (l : Lexicon) {n : Nat} (hn : 0 < n) (h : n ≤ b.length) :
    (Phase.outstanding n).Takes l b (.entityChunk (b.take n)) (b.drop n) ∧
      (Phase.outstanding n).next (.entityChunk (b.take n)) = .entityEnd := by
  have hlen : (b.take n).length = n := by
    rw [List.length_take]
    omega
  rw [Phase.outstanding_pos hn]
  refine ⟨⟨b.take n, rfl, ?_, by omega, (List.take_append_drop n b).symm⟩, ?_⟩
  · rw [Ne, ← List.length_eq_zero_iff]
    omega
  · rw [Phase.next, hlen, Nat.sub_self, Phase.outstanding_zero]

/-- A request whose entity has come is gathered, and what follows it. -/
lemma continues_outstanding (l : Lexicon) (line : RequestLine) (hs : List Header) {n : Nat}
    (h : n ≤ b.length) :
    Continues (reading l (.outstanding n) b) ⟨some line, hs, []⟩ [⟨line, hs, b.take n⟩]
      (reading l .requestLine (b.drop n)) .empty := by
  have hend : ∀ (c : Bytes) (d : Draft), Continues (reading l .entityEnd c) d
      (d.sent? .entityEnd).toList (reading l .requestLine c) .empty :=
    fun c d => Session.continues_takes (p := .entityEnd) (b := c) rfl d
  by_cases hn : 0 < n
  · obtain ⟨htakes, hnext⟩ := takes_entity l hn h
    have hchunk := Session.continues_takes htakes ⟨some line, hs, []⟩
    rw [hnext] at hchunk
    exact hchunk.trans (hend _ _)
  · obtain rfl : n = 0 := by omega
    exact hend b _

/-- Bytes that fall short of an entity complete no request, and leave the framing within it. -/
lemma reading_short (l : Lexicon) {n : Nat} (h : b.length < n) :
    (∀ d : Draft, d.gather (reading l (.outstanding n) b).1 = [] ∧
      d.after (reading l (.outstanding n) b).1 = { d with body := d.body ++ b }) ∧
    ∃ m hm, (reading l (.outstanding n) b).2 = .ok ⟨l, .entity m hm, [], none⟩ ∧
      n = b.length + m := by
  rw [Phase.outstanding_pos (by omega)]
  by_cases hb : b = []
  · subst hb
    rw [Framing.reading_entity_nil]
    exact ⟨fun d => ⟨rfl, by rw [List.append_nil]; rfl⟩, n, by omega, rfl, by simp⟩
  · have hpos : 0 < n - b.length := by omega
    rw [Framing.reading_entity hb, List.drop_of_length_le (by omega), Phase.outstanding_pos hpos,
      Framing.reading_entity_nil l hpos, List.take_of_length_le (by omega)]
    exact ⟨fun d => ⟨rfl, rfl⟩, n - b.length, hpos, rfl, by omega⟩

/-! ### One request -/

namespace Connection

/-- A session before these bytes and the end that comes after them, with nothing left of the
response before. -/
structure Ready (l : Lexicon) (b : Bytes) (fate : Option TransportError) (s : Session) : Prop where
  reader : s.reader.Stands l .requestLine b fate
  faultless : s.sink.behaviour.Faultless
  buffer : s.buffer = []

/-- How a connection ends that is not closed. -/
def ending (run : Framing.Run) : Except ConnectionError Unit :=
  match run.2 with
  | .error e => .error (.parse e)
  | .ok _ => .ok ()

lemma ending_congr {run run' : Framing.Run} (h : run.2 = run'.2) : ending run = ending run' := by
  rw [ending, h, ending]

/-- A request of this kind is handed over: line and headers as they came, and a stream that brings
the body. -/
structure Served.Hands (capacity : Nat) (e : Served) (m : Sent) : Prop where
  request : e.request = m.request capacity
  body : e.start.Brings m.body e.finish

/-- What serving the next request comes to, before bytes that read so. -/
inductive Advances (c : Connection) (react : Sent → Reaction) (fate : Option TransportError)
    (run : Framing.Run) (s : Session) : Progress → Prop where
  | done {o : Outcome} : Draft.empty.gather run.1 = [] → Outside run →
      (fate = none → o.result = some (ending run)) → o.session.sink = s.sink →
      Advances c react fate run s (.done o)
  | last {m : Sent} {b : Bytes} {e : Served} {o : Outcome} :
      Continues run .empty [m] (reading c.lexicon .requestLine b) .empty →
      m.closes = true → e.Hands c.entityBuffer m → e.start.sink = s.sink →
      o.result = some (.ok ()) →
      o.session.sink.output = s.sink.output ++ (react m).wire m.line.version →
      Advances c react fate run s (.last e o)
  | more {m : Sent} {b : Bytes} {e : Served} {s' : Session} :
      Continues run .empty [m] (reading c.lexicon .requestLine b) .empty →
      m.closes = false → e.Hands c.entityBuffer m → e.start.sink = s.sink →
      Ready c.lexicon b fate s' →
      s'.sink.output = s.sink.output ++ (react m).wire m.line.version →
      Advances c react fate run s (.more e s')
  /-- The bytes end within the entity. -/
  | cut {line : RequestLine} {hs : List Header} {n : Nat} {b : Bytes} {r : FrameReader}
      {next : Progress} :
      Session.receive s.reader (.create c.entityBuffer) =
        (.request ⟨line, hs, .streaming (.create n c.entityBuffer)⟩ (.opened c.entityBuffer n), r) →
      r.Stands c.lexicon (.outstanding n) b fate → b.length < n →
      Continues run .empty [] (reading c.lexicon (.outstanding n) b) ⟨some line, hs, []⟩ →
      Advances c react fate run s next

variable {c : Connection} {react : Sent → Reaction} {fate : Option TransportError} {s : Session}

lemma advances_of_settled {run : Framing.Run} {rest : Bytes} {m : Sent} {a : Assembly}
    {r : FrameReader} (hs : Ready c.lexicon b fate s)
    (hr : Session.receive s.reader (.create c.entityBuffer) =
      (.request (m.request c.entityBuffer) a, r))
    (hx : let x := Exchange.start m.line.version r a (c.plan (m.request c.entityBuffer)) s.sink []
      Exchange.Settled c.lexicon fate rest (s.sink.output ++ (react m).wire m.line.version)
        s.sink.behaviour (x.rounds .intake) ∧ x.Brings m.body (x.rounds .intake))
    (hc : Continues run .empty [m] (reading c.lexicon .requestLine rest) .empty) :
    Advances c react fate run s (c.serveNext s) := by
  obtain ⟨hx, hbrings⟩ := hx
  have hfaultless := hs.faultless
  rw [← hx.behaviour] at hfaultless
  have hclose : (m.request c.entityBuffer).shouldClose = m.closes := rfl
  have hversion : (m.request c.entityBuffer).line.version = m.line.version := rfl
  rw [serveNext, hr]
  simp only [hs.buffer, hversion, hx.result, hclose]
  rcases hm : m.closes with _ | _
  · exact .more hc hm ⟨rfl, hbrings⟩ rfl ⟨hx.reader, hfaultless, hx.buffer⟩ hx.output
  · simp only [if_true, Session.say, Sink.shutdown, hfaultless.shutdownError]
    exact .last hc hm ⟨rfl, hbrings⟩ rfl rfl hx.output

/-- **One request is served**, if there is one. -/
lemma serveNext_advances (h : c.handler.Reacts c.entityBuffer react)
    (hs : Ready c.lexicon b fate s) :
    Advances c react fate (reading c.lexicon .requestLine b) s (c.serveNext s) := by
  have hyields := Session.receive_yields (k := c.entityBuffer) hs.reader .line
  rcases hr : Session.receive s.reader (.create c.entityBuffer) with ⟨q, r⟩
  rw [hr] at hyields
  cases hyields with
  | @bare line headers rest a _ he hd hstands hc =>
    have hx := Exchange.settled_bare (v := line.version) .intake he hd hstands hs.faultless
      (h.plan_gives ⟨line, headers, []⟩)
    exact advances_of_settled (m := ⟨line, headers, []⟩) hs hr hx hc
  | @streaming line headers n rest _ hn hstands hc =>
    by_cases hlong : n ≤ rest.length
    · have hrequest : Sent.request c.entityBuffer ⟨line, headers, rest.take n⟩ =
          ⟨line, headers, .streaming (.create n c.entityBuffer)⟩ := by
        have hlen : (rest.take n).length = n := List.length_take_of_le hlong
        have hne : rest.take n ≠ [] := by
          rw [Ne, ← List.length_eq_zero_iff]
          omega
        rw [Sent.request, if_neg hne, hlen]
      rw [← hrequest] at hr
      have hx := Exchange.settled_opened (v := line.version) c.entityBuffer .intake hstands hlong
        hs.faultless (h.plan_gives ⟨line, headers, rest.take n⟩)
      exact advances_of_settled hs hr hx
        (hc.trans (continues_outstanding c.lexicon line headers hlong))
    · exact .cut hr hstands (by omega) hc
  | malformed hone htwo =>
    rw [serveNext, hr]
    refine .done hone (fun f hf => ?_) (fun _ => by rw [ending, htwo]) rfl
    simp [htwo] at hf
  | broken hfate hone htwo hout =>
    rw [serveNext, hr]
    refine .done hone hout (fun hnone => ?_) rfl
    simp [hnone] at hfate
  | ended _ hone htwo hout =>
    rw [serveNext, hr]
    refine .done hone hout (fun _ => by rw [ending, htwo]) ?_
    dsimp only
    split <;> rfl

/-- Bytes that end outside an entity cut none short. -/
lemma Outside.not_cut {run : Framing.Run} (hout : Outside run) {l : Lexicon} {n : Nat}
    {ms : List Sent} {d d' : Draft} (hshort : b.length < n)
    (hc : Continues run d ms (reading l (.outstanding n) b) d') : False := by
  obtain ⟨-, m, hm, hends, -⟩ := reading_short l hshort
  exact hout _ (hc.ends.trans hends) m hm rfl

/-! ### All requests -/

def history (c : Connection) (s : Session) : List Served :=
  match h : c.serveNext s with
  | .done _ => []
  | .last e _ => [e]
  | .more e s' =>
    have := serveNext_potential h
    e :: c.history s'
termination_by s.reader.potential

lemma serveFrom_eq (c : Connection) (s : Session) :
    c.serveFrom s =
      match c.serveNext s with
      | .done o => o
      | .last _ o => o
      | .more _ s' => c.serveFrom s' := by
  rw [serveFrom]
  split <;> simp_all

lemma history_eq (c : Connection) (s : Session) :
    c.history s =
      match c.serveNext s with
      | .done _ => []
      | .last e _ => [e]
      | .more e s' => e :: c.history s' := by
  rw [history]
  split <;> simp_all

def replies (react : Sent → Reaction) (ms : List Sent) : Bytes :=
  ms.flatMap fun m => (react m).wire m.line.version

/-- The outcome and the history are those of a sequence: of the requests `ms`, those up to the
first that closes are handed over in order, each when the responses to those before are written,
and the connection ends with `ends` if none of them closes. -/
structure Sequential (capacity : Nat) (react : Sent → Reaction) (out : Bytes) (ms : List Sent)
    (ends : Except ConnectionError Unit) (o : Outcome) (handed : List Served) : Prop where
  result : o.result = some (if (Sent.served ms).any Sent.closes then .ok () else ends)
  output : o.session.sink.output = out ++ replies react (Sent.served ms)
  requests : List.Forall₂ (Served.Hands capacity) handed (Sent.served ms)
  before : ∀ i e, handed[i]? = some e →
    e.start.sink.output = out ++ replies react ((Sent.served ms).take i)

namespace Sequential

variable {k : Nat} {out : Bytes} {ends : Except ConnectionError Unit} {o : Outcome} {m : Sent}
  {ms : List Sent} {e : Served}

lemma done (hr : o.result = some ends) (ho : o.session.sink.output = out) :
    Sequential k react out [] ends o [] where
  result := hr
  output := by simp [Sent.served, replies, ho]
  requests := .nil
  before i e h := by simp at h

lemma last (hm : m.closes = true) (hq : e.Hands k m)
    (hs : e.start.sink.output = out) (hr : o.result = some (.ok ()))
    (ho : o.session.sink.output = out ++ (react m).wire m.line.version) :
    Sequential k react out (m :: ms) ends o [e] where
  result := by simp [Sent.served, hm, hr]
  output := by simp [Sent.served, hm, replies, ho]
  requests := by simpa [Sent.served, hm] using hq
  before i e' h := by
    obtain ⟨rfl, rfl⟩ : i = 0 ∧ e' = e := by
      rcases i with _ | i
      · exact ⟨rfl, (Option.some.inj h).symm⟩
      · simp at h
    simp [replies, hs]

lemma more {handed : List Served} (hm : m.closes = false) (hq : e.Hands k m)
    (hs : e.start.sink.output = out)
    (h : Sequential k react (out ++ (react m).wire m.line.version) ms ends o handed) :
    Sequential k react out (m :: ms) ends o (e :: handed) where
  result := by simpa [Sent.served, hm] using h.result
  output := by simpa [Sent.served, hm, replies] using h.output
  requests := by simpa [Sent.served, hm, hq] using h.requests
  before i e' he := by
    rcases i with _ | i
    · obtain rfl : e = e' := Option.some.inj he
      simp [replies, hs]
    · simpa [Sent.served, hm, replies] using h.before i e' he

end Sequential

/-- **From any point between two requests**, a connection serves what is before it. -/
lemma serveFrom_sequential (h : c.handler.Reacts c.entityBuffer react) {ms : List Sent}
    (hs : Ready c.lexicon b none s) (hout : Outside (reading c.lexicon .requestLine b))
    (hms : Draft.empty.gather (reading c.lexicon .requestLine b).1 = ms) :
    Sequential c.entityBuffer react s.sink.output ms (ending (reading c.lexicon .requestLine b))
      (c.serveFrom s) (c.history s) := by
  induction ms generalizing s b with
  | nil =>
    have hadv := serveNext_advances h hs
    rw [serveFrom_eq, history_eq]
    generalize c.serveNext s = next at hadv ⊢
    cases hadv with
    | done _ _ hr ho => exact .done (hr rfl) (by rw [ho])
    | last hc => exact absurd (hms.symm.trans hc.gather) (by simp)
    | more hc => exact absurd (hms.symm.trans hc.gather) (by simp)
    | cut _ _ hshort hc => exact (hout.not_cut hshort hc).elim
  | cons m ms ih =>
    have hadv := serveNext_advances h hs
    rw [serveFrom_eq, history_eq]
    generalize c.serveNext s = next at hadv ⊢
    cases hadv with
    | done hone => simp [hms] at hone
    | last hc hm hq hsink hr ho =>
      obtain ⟨rfl, -⟩ := List.cons.inj (hms.symm.trans hc.gather)
      exact .last hm hq (by rw [hsink]) hr ho
    | more hc hm hq hsink hready ho =>
      obtain ⟨rfl, hrest⟩ := List.cons.inj (hms.symm.trans hc.gather)
      have hout' := fun f hf => hout f (hc.ends.trans hf)
      rw [ending_congr hc.ends]
      refine .more hm hq (by rw [hsink]) ?_
      rw [← ho]
      exact ih hready hout' hrest.symm
    | cut _ _ hshort hc => exact (hout.not_cut hshort hc).elim

/-- What is said in the end changes neither the result nor the output. -/
lemma serve_eq (c : Connection) (source : Source) (s : SinkBehaviour) :
    (c.serve source s).result = (c.serveFrom (.start c.lexicon source s)).result ∧
      (c.serve source s).session.sink = (c.serveFrom (.start c.lexicon source s)).session.sink := by
  unfold serve
  dsimp only
  split
  · split <;> exact ⟨rfl, rfl⟩
  · exact ⟨rfl, rfl⟩

/-- **A connection serves a sequence.** The bytes that a transport brings, in reads of any size,
are framed into some messages `ms` and what has come of one more. To a handler whose way with a
request depends on its line, headers and body alone, the connection hands the requests of `ms` over,
once and in order, up to the first that closes, each when the responses to those before are written;
it writes their responses and nothing else; and it ends well if one of them closes, and else as the
framing does. -/
theorem serve_sequential {c : Connection} {react : Sent → Reaction}
    (h : c.handler.Reacts c.entityBuffer react) {source : Source} (hsource : source.fate = none)
    {s : SinkBehaviour} (hs : s.Faultless) {pieces : List Framing.Piece}
    (hpieces : Framing.total pieces = source.supply)
    (hout : Outside ((Framing.init c.lexicon).play pieces)) :
    ∃ (ms : List Message) (tail : List Frame),
      ((Framing.init c.lexicon).play pieces).1 = ms.flatMap Message.frames ++ tail ∧
      Frame.entityEnd ∉ tail ∧
      Sequential c.entityBuffer react [] (ms.map Message.sent)
        (ending ((Framing.init c.lexicon).play pieces)) (c.serve source s)
        (c.history (.start c.lexicon source s)) := by
  obtain ⟨ms, tail, q, hms, hq⟩ := Framing.frames_play c.lexicon pieces
  refine ⟨ms, tail, hms, hq.not_mem, ?_⟩
  have hmerge := Framing.merge_play c.lexicon pieces
  rw [hpieces] at hmerge
  have htwo : ((Framing.init c.lexicon).play pieces).2 =
      (reading c.lexicon .requestLine source.supply).2 := by rw [← hmerge]; rfl
  have hone : Draft.empty.gather (reading c.lexicon .requestLine source.supply).1 =
      ms.map Message.sent := by
    rw [← hmerge, Framing.Run.merge, Draft.gather_merge, hms, Draft.gather_messages ms hq.not_mem]
  have hready : Ready c.lexicon source.supply none (.start c.lexicon source s) :=
    ⟨hsource ▸ FrameReader.stands_create source c.lexicon, hs, rfl⟩
  have hseq := serveFrom_sequential h hready (fun f hf => hout f (htwo.trans hf)) hone
  obtain ⟨hresult, hsink⟩ := serve_eq c source s
  rw [ending_congr htwo]
  exact {
    result := hresult.trans hseq.result
    output := by rw [hsink]; exact hseq.output
    requests := hseq.requests
    before := hseq.before }

/-! ### An echo -/

lemma isStreaming_ofBytes (b : Bytes) : (Entity.ofBytes b).isStreaming = false := by
  unfold Entity.ofBytes
  split <;> rfl

def echoing : Connection where
  handler := ⟨fun _ => true, fun _ => .echo⟩
  lexicon := (Limits.mk 14 9 9 9 9).lexicon
  entityBuffer := 1

def echoed (m : Sent) : Reaction :=
  .responds (.ok octetStream (.ofBytes m.body)) (isStreaming_ofBytes m.body)

lemma echo_gives (b : Bytes) : Plan.echo.Gives b (.respond (.ok octetStream (.ofBytes b))) where
  early got a _ h := by simp [Plan.echo, Plan.fromBytes, Plan.collected] at h
  final := by
    rintro got rfl
    rfl

lemma echoing_reacts : echoing.handler.Reacts echoing.entityBuffer echoed where
  accepts m := by simp [echoing, echoed]
  gives m _ := echo_gives m.body

def putBytes : Bytes :=
  [80, 85, 84, 32, 42, 32, 72, 84, 84, 80, 47, 49, 46, 49, 13, 10, 67, 111, 110, 116, 101, 110,
    116, 45, 76, 101, 110, 103, 116, 104, 58, 50, 13, 10, 13, 10, 97, 98]

def cutPut : Source := [.bytes (putBytes.take 20), .wait, .bytes (putBytes.drop 20)]

def putMessage : Message where
  line := ⟨.standard .put, .asterisk, .http11⟩
  headers := [.contentLength 2]
  chunks := [[97, 98]]
  headers_ne := by simp
  chunks_ne := by simp
  length_chunks := rfl

lemma play_putBytes : (Framing.init echoing.lexicon).play [⟨.atOnce, putBytes⟩] =
    (putMessage.frames, .ok (Framing.init echoing.lexicon)) := by
  have hline : (Framing.init echoing.lexicon).next putBytes = .ok ⟨echoing.lexicon, .requestLine,
      putBytes.drop 16, some (.requestLine putMessage.line)⟩ := rfl
  rw [Framing.play, Framing.advance, hline, Framing.Run.andThen_ok, Framing.play,
    Framing.drain_of_next (g := ⟨echoing.lexicon, .header, putBytes.drop 34,
      some (.header (.contentLength 2))⟩) rfl rfl,
    Framing.drain_of_next (g := ⟨echoing.lexicon, .headerOrEnd [.contentLength 2],
      putBytes.drop 36, some (.entityStart 2)⟩) rfl rfl,
    Framing.drain_of_next (g := ⟨echoing.lexicon, .entity 2 (by decide), [],
      some (.entityChunk [97, 98])⟩) rfl rfl,
    Framing.drain_of_next (g := ⟨echoing.lexicon, .entityEnd, [], some .entityEnd⟩) rfl rfl,
    Framing.drain_of_next (g := Framing.init echoing.lexicon) rfl rfl, Framing.drain_of_none rfl]
  rfl

theorem serve_sequential_cutPut :
    cutPut.fate = none ∧ SinkBehaviour.willing.Faultless ∧
      Framing.total [⟨.atOnce, putBytes⟩] = cutPut.supply ∧
      Sequential 1 echoed [] [⟨putMessage.line, [.contentLength 2], [97, 98]⟩] (.ok ())
        (echoing.serve cutPut .willing)
        (echoing.history (.start echoing.lexicon cutPut .willing)) := by
  have hfate : cutPut.fate = none := rfl
  have hfaultless : SinkBehaviour.willing.Faultless :=
    ⟨by simp [SinkBehaviour.willing], rfl, rfl, rfl⟩
  have hpieces : Framing.total [⟨.atOnce, putBytes⟩] = cutPut.supply := rfl
  have hout : Outside ((Framing.init echoing.lexicon).play [⟨.atOnce, putBytes⟩]) := by
    rw [play_putBytes]
    rintro f hf n h
    cases hf
    simp [Framing.init]
  obtain ⟨ms, tail, hms, htail, hseq⟩ :=
    serve_sequential echoing_reacts hfate hfaultless hpieces hout
  have hsent : ms.map Message.sent = [putMessage.sent] := by
    rw [← Draft.gather_messages ms htail, ← hms, play_putBytes]
    rfl
  rw [hsent, play_putBytes] at hseq
  exact ⟨hfate, hfaultless, hpieces, hseq⟩

end Connection

end Http1
