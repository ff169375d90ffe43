import Http1.Proofs.Forecast

/-!
The consumption of entities.

A handler may receive the whole entity of a request, some of it, or nothing. Whatever it does,
however the parties move, however much a read brings and whatever the sink takes, an entity whose
bytes all come is consumed to its end and not further. Main statement: what a connection hands over
does not depend on what its handler receives.
-/

namespace Http1

open Framing (reading)
open Session (Continues)

variable {l : Lexicon} {b rest : Bytes} {fate : Option TransportError}

/-! ### Answers at hand -/

/-- The answer is a response whose entity is empty or at hand, or a failure. -/
def Answer.AtHand : Answer → Prop
  | .respond r => r.entity.isStreaming = false
  | .forward .. => False
  | .fail _ => True

structure Plan.AtHand (p : Plan) : Prop where
  early : ∀ got a, p.early got = some a → a.AtHand
  final : ∀ got word, (p.final got word).AtHand

def Handler.AtHand (h : Handler) : Prop := ∀ q, (h.plan q).AtHand

lemma Handler.AtHand.plan {c : Connection} (h : c.handler.AtHand) (q : Request) :
    (c.plan q).AtHand := by
  unfold Connection.plan
  split
  · exact h q
  · exact ⟨fun got a ha => Option.some.inj ha ▸ rfl, fun got word => rfl⟩

lemma Plan.AtHand.comesTo {p : Plan} (h : p.AtHand) (got left : List Bytes) :
    (p.comesTo got left).1.AtHand := by
  induction left generalizing got with
  | nil =>
    rcases he : p.early got with _ | a
    · rw [Plan.comesTo_nil he]
      exact h.final got none
    · rw [Plan.comesTo_of_early he]
      exact h.early got a he
  | cons chunk left ih =>
    rcases he : p.early got with _ | a
    · rw [Plan.comesTo_cons he]
      exact ih _
    · rw [Plan.comesTo_of_early he]
      exact h.early got a he

lemma Answer.AtHand.draft {a : Answer} (h : a.AtHand) (x : Exchange) (left : List Bytes) :
    ((x.answer a).draft left).result = some (.ok ()) := by
  cases a with
  | forward => exact h.elim
  | fail m => rfl
  | respond r =>
    rcases he : r.entity with _ | _ | c
    · simp [Exchange.draft, Exchange.answer, Exchange.respond, he, Writer.start, Writer.forecast,
        Body.forecast, Forecast.complete, Forecast.behind]
    · simp [Exchange.draft, Exchange.answer, Exchange.respond, he, Writer.start, Writer.forecast,
        Body.forecast, Forecast.complete, Forecast.behind]
    · rw [Answer.AtHand, he] at h
      cases h

/-! ### Requests -/

def Sent.outline (m : Sent) : RequestLine × List Header × Nat := (m.line, m.headers, m.body.length)

namespace Connection

variable {c : Connection} {B : SinkBehaviour → Prop} {s : Session} {e : Episode} {t : Forecast}
  {left : List Bytes} {z : FrameReader}

/-- A request that has been received is that of the message `m`, before the bytes `rest`: of its
entity the chunks `left` are due, and then the reader is `z`. -/
structure Comprises (l : Lexicon) (k : Nat) (b : Bytes) (fate : Option TransportError) (q : Request)
    (a : Assembly) (r : FrameReader) (m : Sent) (rest : Bytes) (left : List Bytes)
    (z : FrameReader) : Prop where
  request : q = m.request k
  continues : Continues (reading l .requestLine b) .empty [m] (reading l .requestLine rest) .empty
  start : r.Stands l (if m.body = [] then .requestLine else .outstanding m.body.length)
    (m.body ++ rest) fate
  finish : z.Stands l .requestLine rest fate
  due : ∀ v p sink buffer, Exchange.Due left z (.start v r a p sink buffer)

/-- **A request that is received** is there as a whole, if the bytes cut no entity short. -/
lemma receive_comprises {q : Request} {a : Assembly} {r : FrameReader} {k : Nat}
    (hr : s.reader.Stands l .requestLine b fate) (hout : Outside (reading l .requestLine b))
    (h : Session.receive s.reader (.create k) = (.request q a, r)) :
    ∃ m rest left z, Comprises l k b fate q a r m rest left z := by
  have hyields := Session.receive_yields (k := k) hr .line
  rw [h] at hyields
  cases hyields with
  | @bare line hs rest _ _ he hd hstands hc =>
    exact ⟨⟨line, hs, []⟩, rest, [], r, rfl, hc, hstands, hstands,
      fun v p sink buffer => .start_bare he hd⟩
  | @streaming line hs n b' _ hn hstands hc =>
    by_cases hlong : n ≤ b'.length
    · obtain ⟨left, z, hfeeds, hsum, hz⟩ := hstands.exists_feeds hlong
      have hlen : (b'.take n).length = n := List.length_take_of_le hlong
      have hne : b'.take n ≠ [] := by
        rw [Ne, ← List.length_eq_zero_iff]
        omega
      refine ⟨⟨line, hs, b'.take n⟩, b'.drop n, left, z, ?_,
        hc.trans (continues_outstanding l line hs hlong), ?_, hz,
        fun v p sink buffer => hsum ▸ .start_opened hfeeds⟩
      · rw [Sent.request, if_neg hne, hlen]
      · simpa [hne, hlen] using hstands
    · exact (hout.not_cut (by omega) hc).elim

namespace Episode

/-- What was foretold of the episode has come. -/
structure Fulfils (t : Forecast) (e : Episode) : Prop where
  output : e.finish.sink.output = t.bytes
  result : e.finish.result? = t.result
  buffer : t.result = some (.ok ()) → e.finish.buffer = []

/-- What was foretold of the episode has been cut off. -/
def CutsOff (t : Forecast) (e : Episode) : Prop :=
  (∃ why, e.finish.result? = some (.error (.transport why))) ∧ e.finish.sink.output <+: t.bytes

/-- What is written in the end, with what has been written, if nothing is refused. -/
def foretold (s : Session) (left : List Bytes) (e : Episode) : Forecast :=
  (e.start.forecast left).behind s.sink.output

/-- **An episode comes to what is foretold**, unless the sink refuses something. The entity is
consumed in both cases. -/
lemma Opens.comes (h : e.Opens c B s) (hd : Exchange.Due left z e.start) :
    e.finish.reader = z ∧
      ((¬ e.start.MeetsFault e.acts ∧ e.Fulfils (e.foretold s left)) ∨
        (e.start.MeetsFault e.acts ∧ e.CutsOff (e.foretold s left))) := by
  obtain ⟨a, r, -, hstart⟩ := h.received
  have hsink : e.start.sink = s.sink := by rw [hstart]; rfl
  have hplan : e.start.service ≠ .ended (.ok ()) := by rw [hstart]; simp [Exchange.start]
  have hfirst : Exchange.Foretold (e.foretold s left) z e.start :=
    ⟨⟨left, hd, by rw [hsink, foretold]⟩, fun hs => absurd hs hplan⟩
  rcases hfirst.through e.acts with ⟨hnone, hlast⟩ | ⟨hfault, ⟨left', hd'⟩, ⟨why, hs⟩, hprefix⟩
  · obtain ⟨left', hd', -⟩ := hlast.due
    obtain ⟨houtput, hresult, hbuffer⟩ := hlast.atRest h.atRest
    exact ⟨(hd'.atRest h.atRest).2.1, .inl ⟨hnone, houtput, hresult, hbuffer⟩⟩
  · obtain ⟨hintake, hreader, -⟩ := hd'.atRest h.atRest
    have hi : e.finish.intake = .ended (.ok ()) := hintake
    have hs' : e.finish.service = .ended (.error (.transport why)) := hs
    exact ⟨hreader, .inr ⟨hfault, ⟨why, by simp [Exchange.result?, hi, hs']⟩, hprefix⟩⟩

lemma Opens.fulfils (h : e.Opens c SinkBehaviour.Faultless s) (hd : Exchange.Due left z e.start) :
    e.Fulfils (e.foretold s left) := by
  rcases (h.comes hd).2 with ⟨-, hcomes⟩ | ⟨hfault, -⟩
  · exact hcomes
  · exact absurd hfault (Exchange.not_meetsFault h.acts)

/-- The episode is about this request, which stands before the bytes `rest`: its reader is in front
of the body and then behind it. -/
structure Spans (l : Lexicon) (k : Nat) (fate : Option TransportError) (m : Sent) (rest : Bytes)
    (e : Episode) : Prop where
  request : e.request = m.request k
  start : e.start.reader.Stands l
    (if m.body = [] then .requestLine else .outstanding m.body.length) (m.body ++ rest) fate
  finish : e.finish.reader.Stands l .requestLine rest fate

/-- **A request that comes is consumed**, whatever its handler and the sink do. -/
lemma Opens.spans (h : e.Opens c B s) (hr : s.reader.Stands c.lexicon .requestLine b fate)
    (hout : Outside (reading c.lexicon .requestLine b)) :
    ∃ m rest, Continues (reading c.lexicon .requestLine b) .empty [m]
        (reading c.lexicon .requestLine rest) .empty ∧
      e.Spans c.lexicon c.entityBuffer fate m rest := by
  obtain ⟨a, r, hq, hstart⟩ := h.received
  obtain ⟨m, rest, left, z, hm⟩ := receive_comprises hr hout hq
  have hfinish := (h.comes (hstart ▸ hm.due _ _ _ _)).1
  exact ⟨m, rest, hm.continues, hm.request, by rw [hstart]; exact hm.start,
    by rw [hfinish]; exact hm.finish⟩

lemma Opens.result_of_atHand (h : e.Opens c SinkBehaviour.Faultless s) (hh : c.handler.AtHand)
    (hr : s.reader.Stands c.lexicon .requestLine b fate)
    (hout : Outside (reading c.lexicon .requestLine b)) : e.finish.result? = some (.ok ()) := by
  obtain ⟨a, r, hq, hstart⟩ := h.received
  obtain ⟨m, rest, left, z, hm⟩ := receive_comprises hr hout hq
  refine (h.fulfils (hstart ▸ hm.due _ _ _ _)).result.trans ?_
  rw [foretold, hstart]
  exact ((hh.plan e.request).comesTo [] left).draft _ _

end Episode

/-- How a connection ends whose requests have all been served. -/
def endingBy (fate : Option TransportError) (run : Framing.Run) : Except ConnectionError Unit :=
  match run.2, fate with
  | .error e, _ => .error (.parse e)
  | .ok _, some e => .error (.transport e)
  | .ok _, none => .ok ()

lemma endingBy_congr {run run' : Framing.Run} (h : run.2 = run'.2) :
    endingBy fate run = endingBy fate run' := by
  unfold endingBy
  rw [h]

lemma farewell_ends (hr : s.reader.Stands l .requestLine b fate) {o : Outcome}
    (h : farewell? s (Session.receive s.reader (.create c.entityBuffer)) = some o) :
    Draft.empty.gather (reading l .requestLine b).1 = [] ∧
      o.result = some (endingBy fate (reading l .requestLine b)) ∧
      o.session.sink = s.sink := by
  have hyields := Session.receive_yields (k := c.entityBuffer) hr .line
  rcases hq : Session.receive s.reader (.create c.entityBuffer) with ⟨q, r⟩
  rw [hq] at hyields h
  cases hyields with
  | bare => simp [farewell?] at h
  | streaming => simp [farewell?] at h
  | malformed hone htwo =>
    rw [← Option.some.inj h]
    exact ⟨hone, by simp [endingBy, htwo], rfl⟩
  | broken hfate hone htwo =>
    rw [← Option.some.inj h]
    exact ⟨hone, by simp [endingBy, htwo, hfate], rfl⟩
  | ended hfate hone htwo =>
    rw [← Option.some.inj h]
    refine ⟨hone, by simp [endingBy, htwo, hfate], ?_⟩
    dsimp only
    split <;> rfl

/-! ### All requests -/

/-- What is seen of a request: its line, its headers, and how long its entity is. -/
def outline (q : Request) : RequestLine × List Header × Nat := (q.line, q.headers, q.entity.length)

lemma outline_request (k : Nat) (m : Sent) : outline (m.request k) = m.outline := by
  unfold Sent.request outline Sent.outline
  split <;> simp_all [Entity.length, Channel.create]

/-- The requests that a connection hands over are those that the bytes complete, up to the first
that closes, and it ends as the bytes do if none of them closes. -/
lemma Course.requests {es : List Episode} {o : Outcome}
    (h : Course c SinkBehaviour.Faultless s es o) (hh : c.handler.AtHand)
    (hr : s.reader.Stands c.lexicon .requestLine b fate)
    (hout : Outside (reading c.lexicon .requestLine b)) :
    let ms := Sent.served (Draft.empty.gather (reading c.lexicon .requestLine b).1)
    List.Forall₂ (fun e m => ∃ rest, Episode.Spans c.lexicon c.entityBuffer fate m rest e) es ms ∧
      o.result = some (if ms.any Sent.closes then .ok ()
        else endingBy fate (reading c.lexicon .requestLine b)) := by
  induction h generalizing b with
  | done hq =>
    obtain ⟨hnone, hends, -⟩ := farewell_ends hr hq
    simp [hnone, Sent.served, hends]
  | @last s e o e' he hp =>
    obtain ⟨m, rest, hc, hspans⟩ := he.spans hr hout
    have hclose : e.request.shouldClose = m.closes := by rw [hspans.request]; rfl
    have hms := hc.gather
    have hok := he.result_of_atHand hh hr hout
    rcases progress_last hp with ⟨hsame, hnot, -⟩ | ⟨-, hcloses, ⟨-, hresult⟩ | ⟨why, hshut, -⟩⟩
    · exact absurd (hsame.trans hok) hnot
    · rw [hclose] at hcloses
      simp only [List.singleton_append] at hms
      simp only [hms, Sent.served, hcloses, if_true]
      exact ⟨.cons ⟨rest, hspans⟩ .nil, by simp [hcloses, hresult]⟩
    · have hnone : e.finish.sink.behaviour.shutdownError = none := he.shutdown.shutdownError
      simp [Sink.shutdown, hnone] at hshut
  | @more s s' e es o e' he hp hrest ih =>
    obtain ⟨m, rest, hc, hspans⟩ := he.spans hr hout
    have hclose : e.request.shouldClose = m.closes := by rw [hspans.request]; rfl
    have hms := hc.gather
    obtain ⟨hreader, -, -, -, hcloses⟩ := progress_more hp
    rw [hclose] at hcloses
    obtain ⟨hes, hresult⟩ := ih (hreader ▸ hspans.finish)
      fun f hf => hout f (hc.ends.trans hf)
    simp only [List.singleton_append] at hms
    simp only [hms, Sent.served, hcloses, if_false, Bool.false_eq_true]
    refine ⟨.cons ⟨rest, hspans⟩ hes, ?_⟩
    rw [endingBy_congr hc.ends, List.any_cons, hcloses, Bool.false_or, hresult]

/-- The reader is before the entity of the request and what follows it, and then before what
follows it. -/
def Episode.Exact (l : Lexicon) (fate : Option TransportError) (e : Episode) : Prop :=
  ∃ body rest, body.length = e.request.entity.length ∧
    e.start.reader.Stands l (if body = [] then .requestLine else .outstanding body.length)
      (body ++ rest) fate ∧
    e.finish.reader.Stands l .requestLine rest fate

lemma Episode.Spans.exact {k : Nat} {m : Sent} (h : e.Spans l k fate m rest) : e.Exact l fate := by
  refine ⟨m.body, rest, ?_, h.start, h.finish⟩
  have hlen := congrArg (·.2.2) (outline_request k m)
  rw [h.request]
  exact hlen.symm

lemma outlines_eq {k : Nat} {es : List Episode} {ms : List Sent}
    (h : List.Forall₂ (fun e m => ∃ rest, Episode.Spans l k fate m rest e) es ms) :
    es.map (outline ·.request) = ms.map Sent.outline ∧
      ∀ e ∈ es, e.Exact l fate := by
  induction h with
  | nil => simp
  | @cons e m es ms he _ ih =>
    obtain ⟨rest, he⟩ := he
    refine ⟨by simp [ih.1, he.request, outline_request], fun e' he' => ?_⟩
    rcases List.mem_cons.1 he' with rfl | he'
    · exact he.exact
    · exact ih.2 e' he'

lemma willing_faultless : SinkBehaviour.willing.Faultless :=
  ⟨by simp [SinkBehaviour.willing], rfl, rfl, rfl⟩

/-- **What is handed over does not depend on what is received**: over the same bytes, which cut no
entity short, any two connections of the same lexicon come to an end, and whichever way they do,
they hand over the same requests and end with the same result, whatever their handlers receive
before they answer with what they have at hand, however many chunks their channels hold, however
the bytes arrive and the parties move. These are the requests that the bytes complete, up to the
first that closes; without one that closes, the result is that of the bytes. After each request,
framing goes on with the byte behind the entity. -/
theorem requests_independent {c c' : Connection} (hl : c'.lexicon = c.lexicon)
    (h : c.handler.AtHand) (h' : c'.handler.AtHand) {source source' : Source}
    (hsupply : source'.supply = source.supply) (hfate : source'.fate = source.fate)
    (hout : Outside (reading c.lexicon .requestLine source.supply)) (s s' : SinkBehaviour) :
    let run := reading c.lexicon .requestLine source.supply
    let ms := Sent.served (Draft.empty.gather run.1)
    (∃ es o, Course c SinkBehaviour.Faultless (.start c.lexicon source s) es o) ∧
    (∃ es o, Course c' SinkBehaviour.Faultless (.start c'.lexicon source' s') es o) ∧
    ∀ es o es' o', Course c SinkBehaviour.Faultless (.start c.lexicon source s) es o →
      Course c' SinkBehaviour.Faultless (.start c'.lexicon source' s') es' o' →
      es'.map (outline ·.request) = es.map (outline ·.request) ∧
        es.map (outline ·.request) = ms.map Sent.outline ∧
        o'.result = o.result ∧
        o.result = some (if ms.any Sent.closes then .ok () else endingBy source.fate run) ∧
        ∀ e ∈ es ++ es', e.Exact c.lexicon source.fate := by
  intro run ms
  refine ⟨exists_course c willing_faultless _, exists_course c' willing_faultless _, ?_⟩
  intro es o es' o' hc hc'
  obtain ⟨hes, hresult⟩ := hc.requests h (FrameReader.stands_create source c.lexicon) hout
  obtain ⟨hes', hresult'⟩ := hc'.requests h' (FrameReader.stands_create source' c'.lexicon)
    (by rwa [hl, hsupply])
  rw [hl, hsupply, hfate] at hes' hresult'
  obtain ⟨houtlines, hexact⟩ := outlines_eq hes
  obtain ⟨houtlines', hexact'⟩ := outlines_eq hes'
  refine ⟨houtlines'.trans houtlines.symm, houtlines, hresult'.trans hresult.symm, hresult,
    fun e he => ?_⟩
  exact (List.mem_append.1 he).elim (hexact e) (hexact' e)

def hasty : Connection where
  handler := ⟨fun _ => true, .firstChunk⟩
  lexicon := echoing.lexicon
  entityBuffer := 5

lemma atHand_ofBytes (t : Text) (b : Bytes) : (Answer.respond (.ok t (.ofBytes b))).AtHand :=
  isStreaming_ofBytes b

lemma echoing_atHand : echoing.handler.AtHand := fun _ =>
  ⟨fun got a h => by simp [echoing, Plan.echo, Plan.fromBytes, Plan.collected] at h,
    fun got word => by
      cases word
      · exact atHand_ofBytes octetStream got.flatten
      · trivial⟩

lemma hasty_atHand : hasty.handler.AtHand := fun q => by
  change (Plan.firstChunk q).AtHand
  unfold Plan.firstChunk
  dsimp only
  split
  · refine ⟨fun got a h => ?_, fun got word => ?_⟩
    · obtain ⟨b, -, rfl⟩ := Option.map_eq_some_iff.1 h
      exact atHand_ofBytes textPlain b
    · cases word
      · exact atHand_ofBytes textPlain got.flatten
      · trivial
  · exact ⟨fun got a h => Option.some.inj h ▸ atHand_ofBytes textPlain [], fun got word =>
      atHand_ofBytes textPlain []⟩

def putTwice : Source := [.bytes putBytes, .bytes putBytes]

/-- The two requests in reads that end within a head and within an entity. -/
def putTwiceCut : Source :=
  [.bytes (putBytes.take 20), .wait, .bytes (putBytes.drop 20 ++ putBytes.take 37), .wait,
    .bytes (putBytes.drop 37)]

lemma reading_putTwice : (reading echoing.lexicon .requestLine putTwice.supply).2 =
    .ok (Framing.init echoing.lexicon) := by
  have hmerge := Framing.merge_play echoing.lexicon [⟨.atOnce, putBytes⟩, ⟨.waiting, putBytes⟩]
  have htotal : Framing.total [⟨.atOnce, putBytes⟩, ⟨.waiting, putBytes⟩] = putTwice.supply := rfl
  have hplay : (Framing.init echoing.lexicon).play [⟨.atOnce, putBytes⟩, ⟨.waiting, putBytes⟩] =
      ((Framing.init echoing.lexicon).play [⟨.atOnce, putBytes⟩]).andThen
        fun g => g.play [⟨.atOnce, putBytes⟩] := by
    simp only [Framing.play, Framing.Run.andThen_assoc]
  rw [hplay, play_putBytes, Framing.Run.andThen_ok, play_putBytes, htotal] at hmerge
  rw [← hmerge]
  rfl

lemma outside_putTwice : Outside (reading echoing.lexicon .requestLine putTwice.supply) := by
  rintro f hf n h
  obtain rfl := Except.ok.inj (reading_putTwice.symm.trans hf)
  simp [Framing.init]

theorem requests_independent_putTwice :
    echoing.handler.AtHand ∧ hasty.handler.AtHand ∧ putTwiceCut.supply = putTwice.supply ∧
      putTwiceCut.fate = putTwice.fate ∧
      Outside (reading echoing.lexicon .requestLine putTwice.supply) ∧
      (hasty.history (.start echoing.lexicon putTwiceCut .willing)).map (outline ·.request) =
        (echoing.history (.start echoing.lexicon putTwice .willing)).map (outline ·.request) ∧
      (hasty.serve putTwiceCut .willing).result = (echoing.serve putTwice .willing).result := by
  have hsupply : putTwiceCut.supply = putTwice.supply := by decide
  obtain ⟨es, hc, hes⟩ := serveFrom_course (B := SinkBehaviour.Faultless) echoing
    (.start echoing.lexicon putTwice .willing) willing_faultless
  obtain ⟨es', hc', hes'⟩ := serveFrom_course (B := SinkBehaviour.Faultless) hasty
    (.start hasty.lexicon putTwiceCut .willing) willing_faultless
  have hlexicon : hasty.lexicon = echoing.lexicon := rfl
  obtain ⟨hrequests, -, hresult, -⟩ := (requests_independent hlexicon echoing_atHand
    hasty_atHand hsupply rfl outside_putTwice .willing .willing).2.2 es _ es' _ hc hc'
  refine ⟨echoing_atHand, hasty_atHand, hsupply, rfl, outside_putTwice, ?_, ?_⟩
  · have hhistory : hasty.history (.start echoing.lexicon putTwiceCut .willing) =
        es'.map Episode.served := hes'
    rw [hes, hhistory]
    simpa [Episode.served, Function.comp_def] using hrequests
  · rw [(serve_eq ..).1, (serve_eq ..).1]
    exact hresult

end Connection

end Http1
