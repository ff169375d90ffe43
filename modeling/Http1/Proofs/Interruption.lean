import Http1.Proofs.Cut
import Http1.Proofs.Lines
import Http1.Proofs.Serving

/-!
A connection whose bytes end within an entity.

What becomes of the messages before it is up to their handlers. Main statement: if the connection
comes to the request whose entity is cut short, and its handler reads to the end of the stream, the
handler finds the failure there, its response is written, the connection ends with that failure,
and nothing more is handled.
-/

namespace Http1

open Framing (reading)
open Session (Continues)

/-! ### Frames that end within an entity -/

lemma Phase.Consumes.messages {l : Lexicon} {p q : Phase} {b r : Bytes} {spans : List Span}
    (h : Phase.Consumes l p b spans q r) {pre : List Frame} (hp : p.After pre) :
    ∃ (ms : List Message) (tail : List Frame),
      pre ++ spans.map Span.frame = ms.flatMap Message.frames ++ tail ∧ q.After tail := by
  induction h generalizing pre with
  | nil => exact ⟨[], pre, by simp, hp⟩
  | @cons p q frame c b r spans htakes _ _ ih =>
    rcases hp.step htakes.emits with ⟨hnext, m, hm⟩ | hnext
    · obtain ⟨ms, tail, heq, hq⟩ := @ih [] (hnext ▸ rfl)
      rw [List.nil_append] at heq
      exact ⟨m :: ms, tail, by rw [List.flatMap_cons, hm, List.map_cons, heq]; simp, hq⟩
    · obtain ⟨ms, tail, heq, hq⟩ := ih hnext
      exact ⟨ms, tail, by rw [← heq]; simp, hq⟩

/-- A framing that is left within an entity has had its head and a part of its chunks. -/
lemma Framing.frames_play_entity {l : Lexicon} {pieces : List Framing.Piece} {f : Framing} {m : Nat}
    {hm : 0 < m} (hf : ((Framing.init l).play pieces).2 = .ok f) (hphase : f.phase = .entity m hm) :
    ∃ (ms : List Message) (line : RequestLine) (headers : List Header) (cs : List Bytes),
      ((Framing.init l).play pieces).1 = ms.flatMap Message.frames ++
        (Message.headFrames line headers ++
          .entityStart (cs.flatten.length + m) :: cs.map .entityChunk) := by
  obtain ⟨spans, q, r, hspans, hplay⟩ := Framing.play_consumes l pieces
  have hstart : Phase.After .requestLine [] := rfl
  obtain ⟨ms, tail, hms, hq⟩ := hspans.messages hstart
  rw [hplay] at hf ⊢
  obtain ⟨scanned, -, rfl⟩ := Framing.scan_of_build hf
  obtain rfl : q = .entity m hm := hphase
  obtain ⟨line, headers, cs, -, -, -, -, rfl⟩ := hq
  exact ⟨ms, line, headers, cs, hms⟩

/-! ### The end of an exchange -/

namespace Exchange

variable {l : Lexicon} {n : Nat} {b buffer : Bytes} {fate : Option TransportError} {v : Version}
  {p : Plan} {sink : Sink} {a : Assembly} {r : FrameReader} {first : Party} {x : Exchange}

/-- Nothing is left of a response that has ended well. -/
def Cleared (x : Exchange) : Prop := x.service = .ended (.ok ()) → x.buffer = []

lemma Cleared.after (h : x.Cleared) (q : Party) : (x.after q).Cleared := by
  cases q with
  | intake =>
    obtain ⟨hservice, -, hbuffer, -⟩ := x.after_intake_sameService
    rw [Cleared, hservice, hbuffer]
    exact h
  | service =>
    have answered : ∀ (y : Exchange) (w : Answer), (y.answer w).Cleared := fun y w => by
      cases w <;> simp [Cleared, Exchange.answer, respond]
    refine after_service_cases (fun y hy => ?_) h
    cases hy with
    | ready => exact answered _ _
    | bare => exact answered _ _
    | received => simp [Cleared]
    | heard => exact answered _ _
    | @wrote _ body _ c => cases body <;> cases c <;> simp [Cleared, took]
    | @finished _ _ w result _ hw =>
      intro hended
      obtain rfl : result = .ok () := by simpa using hended
      exact Writer.buffer_of_finished hw

/-- An exchange that ends well leaves nothing in the buffer. -/
lemma buffer_of_result (h : ((start v r a p sink buffer).rounds first).result? = some (.ok ())) :
    ((start v r a p sink buffer).rounds first).buffer = [] := by
  obtain ⟨⟨ps, hps⟩, -⟩ := (start v r a p sink buffer).rounds_eq_run first
  have hstart : (start v r a p sink buffer).Cleared := by simp [Cleared, start]
  have hcleared := run_induction (P := Cleared) (fun _ q hy => hy.after q) hstart ps
  rw [← hps] at hcleared
  refine hcleared ?_
  unfold result? at h
  split at h
  · simp at h
  · rename_i hs
    rw [hs, Option.some.inj h]
  · simp at h

lemma reader_of_bare (ha : a.entity = none) (hd : a.done = true) :
    ((start v r a p sink buffer).rounds first).reader = r := by
  obtain ⟨⟨ps, hps⟩, -⟩ := (start v r a p sink buffer).rounds_eq_run first
  have hstart : Bare r (start v r a p sink buffer) := .start ha hd
  rw [hps]
  exact (run_induction (P := Bare r) (fun _ q hy => hy.after q) hstart ps).reader

lemma reader_of_opened (capacity : Nat) (hr : r.Stands l (.outstanding n) b fate)
    (hn : n ≤ b.length) :
    ((start v r (.opened capacity n) p sink buffer).rounds first).reader.Stands l .requestLine
      (b.drop n) fate := by
  obtain ⟨⟨ps, hps⟩, hrest⟩ := (start v r (.opened capacity n) p sink buffer).rounds_eq_run first
  rw [hps] at hrest ⊢
  exact (((flows_start hr).run hn ps).atRest hn hrest).2.1

lemma behaviour_rounds (x : Exchange) (first : Party) :
    (x.rounds first).sink.behaviour = x.sink.behaviour := by
  obtain ⟨⟨ps, hps⟩, -⟩ := x.rounds_eq_run first
  rw [hps, behaviour_run]

end Exchange

namespace Connection

/-- The run completes these requests, and ends within the entity of `n` bytes of another one, of
which `cut` has come. -/
structure EndsWithin (run : Framing.Run) (ms : List Sent) (cut : Sent) (n : Nat) : Prop where
  gather : Draft.empty.gather run.1 = ms
  after : Draft.empty.after run.1 = ⟨some cut.line, cut.headers, cut.body⟩
  ends : ∃ f m hm, run.2 = .ok f ∧ f.phase = .entity m hm ∧ n = cut.body.length + m

variable {c : Connection} {react : Sent → Reaction} {l : Lexicon} {b : Bytes}
  {fate : Option TransportError} {s s' : Session} {ms : List Sent} {m cut : Sent} {n : Nat}
  {run run' : Framing.Run} {e : Served} {q : Request} {a : Assembly} {r : FrameReader}

lemma EndsWithin.continues (h : EndsWithin run (m :: ms) cut n)
    (hc : Continues run .empty [m] run' .empty) : EndsWithin run' ms cut n := by
  obtain ⟨f, k, hk, hf, hphase, hn⟩ := h.ends
  exact {
    gather := (List.cons.inj (hc.gather.symm.trans h.gather)).2
    after := hc.after.symm.trans h.after
    ends := ⟨f, k, hk, hc.ends.symm.trans hf, hphase, hn⟩ }

/-- **The head of the last request** is received, and the rest of the bytes are in front of the
reader. -/
lemma receive_cut {r : FrameReader} (k : Nat) (hr : r.Stands l .requestLine b fate)
    (h : EndsWithin (reading l .requestLine b) [] cut n) :
    ∃ r', Session.receive r (.create k) =
        (.request ⟨cut.line, cut.headers, .streaming (.create n k)⟩ (.opened k n), r') ∧
      r'.Stands l (.outstanding n) cut.body fate ∧ cut.body.length < n := by
  obtain ⟨f, m, hm, hf, hphase, hn⟩ := h.ends
  have hyields := Session.receive_yields (k := k) hr .line
  rcases hrec : Session.receive r (.create k) with ⟨q, r'⟩
  rw [hrec] at hyields
  -- bytes that end outside an entity are not these
  have inside : ¬ Outside (reading l .requestLine b) := fun hout => hout f hf m hm hphase
  cases hyields with
  | bare _ _ _ hc => exact absurd (h.gather.symm.trans hc.gather) (by simp)
  | @streaming line headers n' rest _ _ hstands hc =>
    by_cases hlong : n' ≤ rest.length
    · have hnone := (hc.trans (continues_outstanding l line headers hlong)).gather
      exact absurd (h.gather.symm.trans hnone) (by simp)
    · obtain ⟨hdraft, m', hm', hends, hn'⟩ := reading_short l (Nat.lt_of_not_le hlong)
      have hafter := h.after.symm.trans (hc.after.trans (hdraft _).2)
      simp only [List.nil_append, Draft.mk.injEq, Option.some.injEq] at hafter
      obtain ⟨hline, hheaders, hbody⟩ := hafter
      have hsame : f = ⟨l, .entity m' hm', [], none⟩ :=
        Except.ok.inj (hf.symm.trans (hc.ends.trans hends))
      rw [hsame] at hphase
      obtain rfl : m' = m := by simpa using hphase
      rw [← hbody, ← hn] at hn'
      rw [hline, hheaders, hbody, ← hn']
      exact ⟨r', rfl, hstands, by omega⟩
  | malformed _ htwo => simp [htwo] at hf
  | broken _ _ _ hout => exact (inside hout).elim
  | ended _ _ _ hout => exact (inside hout).elim

/-! ### Whatever the handler -/

def exchange (c : Connection) (s : Session) (q : Request) (a : Assembly) (r : FrameReader) :
    Exchange :=
  .start q.line.version r a (c.plan q) s.sink s.buffer

lemma serveNext_of_receive
    (hr : Session.receive s.reader (.create c.entityBuffer) = (.request q a, r)) :
    let x := c.exchange s q a r
    let y := x.rounds .intake
    (∃ o, c.serveNext s = .last ⟨q, x, y⟩ o ∧
      ∀ why, y.result? = some (.error why) →
        o.result = some (.error why) ∧ o.session.sink = y.sink) ∨
    ∃ s', c.serveNext s = .more ⟨q, x, y⟩ s' ∧ y.result? = some (.ok ()) ∧
      s'.reader = y.reader ∧ s'.sink = y.sink ∧ s'.buffer = y.buffer := by
  intro x y
  have hx : Exchange.start q.line.version r a (c.plan q) s.sink s.buffer = x := rfl
  have hy : x.rounds .intake = y := rfl
  rw [serveNext, hr]
  dsimp only
  rw [hx, hy]
  rcases y.result? with _ | why | u
  · exact .inl ⟨_, rfl, by simp⟩
  · refine .inl ⟨_, rfl, fun why' h => ?_⟩
    obtain rfl : why = why' := by simpa using h
    exact ⟨rfl, rfl⟩
  · dsimp only
    split
    · split
      · exact .inl ⟨_, rfl, by simp⟩
      · exact .inl ⟨_, rfl, by simp⟩
    · exact .inr ⟨_, rfl, rfl, rfl, rfl, rfl⟩

lemma history_of_receive
    (hr : Session.receive s.reader (.create c.entityBuffer) = (.request q a, r)) :
    ∃ later, c.history s =
      ⟨q, c.exchange s q a r, (c.exchange s q a r).rounds .intake⟩ :: later := by
  rw [history_eq]
  rcases serveNext_of_receive hr with ⟨o, hnext, -⟩ | ⟨s', hnext, -⟩ <;> rw [hnext]
  · exact ⟨[], rfl⟩
  · exact ⟨c.history s', rfl⟩

lemma ready_of_finish {rest : Bytes} (hs : Ready c.lexicon b fate s)
    (hr : Session.receive s.reader (.create c.entityBuffer) = (.request q a, r))
    (hreader : ((c.exchange s q a r).rounds .intake).reader.Stands c.lexicon .requestLine rest fate)
    (h : c.serveNext s = .more e s') : Ready c.lexicon rest fate s' := by
  rcases serveNext_of_receive hr with ⟨o, hnext, -⟩ | ⟨s₁, hnext, hresult, hread, hsink, hbuffer⟩
  · simp [hnext] at h
  · obtain ⟨-, rfl⟩ := Progress.more.inj (hnext.symm.trans h)
    exact {
      reader := hread ▸ hreader
      faultless := by
        rw [hsink, Exchange.behaviour_rounds]
        exact hs.faultless
      buffer := hbuffer.trans (Exchange.buffer_of_result hresult) }

/-- **Between two requests**, a session that goes on stands before what comes next, whatever the
handler has done with the request. -/
lemma ready_of_more (hs : Ready c.lexicon b fate s)
    (hms : Draft.empty.gather (reading c.lexicon .requestLine b).1 = m :: ms)
    (h : c.serveNext s = .more e s') :
    ∃ rest, Continues (reading c.lexicon .requestLine b) .empty [m]
        (reading c.lexicon .requestLine rest) .empty ∧ Ready c.lexicon rest fate s' := by
  have hyields := Session.receive_yields (k := c.entityBuffer) hs.reader .line
  rcases hr : Session.receive s.reader (.create c.entityBuffer) with ⟨q, r⟩
  rw [hr] at hyields
  cases hyields with
  | @bare line headers rest a _ he hd hstands hc =>
    obtain ⟨rfl, -⟩ := List.cons.inj (hc.gather.symm.trans hms)
    have hreader : ((c.exchange s ⟨line, headers, .empty⟩ a r).rounds .intake).reader = r :=
      Exchange.reader_of_bare he hd
    exact ⟨rest, hc, ready_of_finish hs hr (by rw [hreader]; exact hstands) h⟩
  | @streaming line headers n rest _ hn hstands hc =>
    by_cases hlong : n ≤ rest.length
    · have hcontinues := hc.trans (continues_outstanding c.lexicon line headers hlong)
      obtain ⟨rfl, -⟩ := List.cons.inj (hcontinues.gather.symm.trans hms)
      exact ⟨rest.drop n, hcontinues,
        ready_of_finish hs hr (Exchange.reader_of_opened c.entityBuffer hstands hlong) h⟩
    · have hnone := (reading_short c.lexicon (Nat.lt_of_not_le hlong)).1 ⟨some line, headers, []⟩
      rw [hc.gather, hnone.1] at hms
      simp at hms
  | malformed hnone => simp [hnone] at hms
  | broken _ hnone => simp [hnone] at hms
  | ended _ hnone => simp [hnone] at hms

/-! ### The request that is cut short -/

/-- A request was handed over in whose entity the bytes ended: its handler has found the failure and
its response is written, in this order of steps as in any other, and the failure is the result. -/
structure Interrupted (n : Nat) (b : Bytes) (fate : Option TransportError)
    (ρ : List Bytes → EntityError → Reaction) (e : Served) (o : Outcome) : Prop where
  orders : e.start.CutShort n b fate ρ
  result : o.result = some (.error (.ofCut n b.length fate))
  output : ∃ ps got why, e.finish = e.start.run ps ∧ e.start.Told n b fate ps got why ∧
    o.session.sink.output = e.start.sink.output ++ (ρ got why).wire e.request.line.version

/-- **The last request**: it is handed over, and nothing after it. -/
lemma interrupted_of_ready (hs : Ready c.lexicon b fate s)
    (h : EndsWithin (reading c.lexicon .requestLine b) [] cut n)
    (he : (c.history s).head? = some e) :
    e.request = ⟨cut.line, cut.headers, .streaming (.create n c.entityBuffer)⟩ ∧
      ∀ ρ, (c.plan e.request).Awaits ρ →
        (c.history s).length = 1 ∧ Interrupted n cut.body fate ρ e (c.serveFrom s) := by
  obtain ⟨r, hr, hstands, hshort⟩ := receive_cut c.entityBuffer hs.reader h
  obtain ⟨later, hhistory⟩ := history_of_receive hr
  rw [hhistory, List.head?_cons, Option.some.injEq] at he
  subst he
  refine ⟨rfl, fun ρ hρ => ?_⟩
  have hcut := Exchange.cutShort_opened (v := cut.line.version) c.entityBuffer hstands hshort hρ
    hs.faultless
  rw [← hs.buffer] at hcut
  obtain ⟨⟨ps, hps⟩, hrest⟩ := (c.exchange s ⟨cut.line, cut.headers,
    .streaming (.create n c.entityBuffer)⟩ (.opened c.entityBuffer n) r).rounds_eq_run .intake
  rw [hps] at hrest
  obtain ⟨got, why, htold, hresult, houtput⟩ := hcut.rest ps hrest
  rcases serveNext_of_receive hr with ⟨o, hnext, hlast⟩ | ⟨s', -, hok, -⟩
  · obtain ⟨ho, hsink⟩ := hlast _ (by rw [hps]; exact hresult)
    refine ⟨by rw [history_eq, hnext]; rfl, ?_⟩
    rw [serveFrom_eq, hnext]
    exact {
      orders := hcut
      result := ho
      output := ⟨ps, got, why, hps, htold, by rw [hsink, hps]; exact houtput⟩ }
  · rw [hps] at hok
    exact absurd (hresult.symm.trans hok) (by simp)

/-! ### All requests -/

lemma reaches (hs : Ready c.lexicon b fate s)
    (h : EndsWithin (reading c.lexicon .requestLine b) ms cut n)
    (he : (c.history s)[ms.length]? = some e) :
    ∃ s' b', Ready c.lexicon b' fate s' ∧
      EndsWithin (reading c.lexicon .requestLine b') [] cut n ∧ c.serveFrom s = c.serveFrom s' ∧
      (c.history s').head? = some e ∧
      (c.history s).length = ms.length + (c.history s').length := by
  induction ms generalizing s b with
  | nil => exact ⟨s, b, hs, h, rfl, by rw [List.head?_eq_getElem?]; exact he, by simp⟩
  | cons m ms ih =>
    rw [history_eq] at he
    rcases hnext : c.serveNext s with o | ⟨e₁, o⟩ | ⟨e₁, s₁⟩ <;> rw [hnext] at he
    · simp at he
    · simp at he
    · obtain ⟨rest, hc, hready⟩ := ready_of_more hs h.gather hnext
      obtain ⟨s', b', hs', hend, hserve, hhead, hlength⟩ := ih hready (h.continues hc) he
      refine ⟨s', b', hs', hend, ?_, hhead, ?_⟩
      · rw [serveFrom_eq, hnext, ← hserve]
      · rw [history_eq, hnext, List.length_cons, List.length_cons, hlength]
        omega

/-- A handler that is settled about its requests brings the connection to the last one, unless one
before it closes. -/
lemma exists_handed (h : c.handler.Reacts c.entityBuffer react) (hs : Ready c.lexicon b fate s)
    (hend : EndsWithin (reading c.lexicon .requestLine b) ms cut n)
    (hopen : ∀ m ∈ ms, m.closes = false) :
    ∃ e, (c.history s)[ms.length]? = some e ∧
      e.start.sink.output = s.sink.output ++ replies react ms := by
  induction ms generalizing s b with
  | nil =>
    obtain ⟨r, hr, -⟩ := receive_cut c.entityBuffer hs.reader hend
    obtain ⟨later, hhistory⟩ := history_of_receive hr
    exact ⟨_, by rw [hhistory]; rfl, by simp [replies, exchange, Exchange.start]⟩
  | cons m ms ih =>
    have hadv := serveNext_advances h hs
    rw [history_eq]
    generalize c.serveNext s = next at hadv ⊢
    obtain ⟨hm, hms⟩ := List.forall_mem_cons.1 hopen
    cases hadv with
    | done hnone => simp [hend.gather] at hnone
    | last hc hclose =>
      obtain ⟨rfl, -⟩ := List.cons.inj (hend.gather.symm.trans hc.gather)
      simp [hm] at hclose
    | more hc _ _ _ hready ho =>
      obtain ⟨rfl, -⟩ := List.cons.inj (hend.gather.symm.trans hc.gather)
      obtain ⟨e, he, hout⟩ := ih hready (hend.continues hc) hms
      refine ⟨e, he, ?_⟩
      rw [hout, ho, List.append_assoc]
      rfl
    | cut _ _ hshort hc =>
      have hnone := hc.gather.trans ((reading_short c.lexicon hshort).1 _).1
      simp [hend.gather] at hnone

lemma endsWithin_of_play {source : Source} {pieces : List Framing.Piece}
    (hpieces : Framing.total pieces = source.supply) {f : Framing} {k : Nat} {hk : 0 < k}
    (hf : ((Framing.init l).play pieces).2 = .ok f) (hphase : f.phase = .entity k hk)
    {ms : List Message} {line : RequestLine} {headers : List Header} {cs : List Bytes}
    (hms : ((Framing.init l).play pieces).1 = ms.flatMap Message.frames ++
      (Message.headFrames line headers ++
        .entityStart (cs.flatten.length + k) :: cs.map .entityChunk)) :
    EndsWithin (reading l .requestLine source.supply) (ms.map Message.sent)
      ⟨line, headers, cs.flatten⟩ (cs.flatten.length + k) := by
  have hmerge := Framing.merge_play l pieces
  rw [hpieces] at hmerge
  rw [← hmerge]
  have htail : Frame.entityEnd ∉ Message.headFrames line headers ++
      .entityStart (cs.flatten.length + k) :: cs.map .entityChunk := by
    simp [Message.headFrames]
  exact {
    gather := by rw [Framing.Run.merge, Draft.gather_merge, hms, Draft.gather_messages ms htail]
    after := by
      rw [Framing.Run.merge, Draft.after_merge, hms, Draft.after_messages, Draft.after_open]
    ends := ⟨f, k, hk, hf, hphase, rfl⟩ }

/-- **A failure within an entity is observed.** Let the bytes that a transport brings, in reads of
any size, end where `m` bytes of an entity are still to come. They are framed into some messages
`ms`, a head that declares `n` bytes, and chunks `cs` of them. A handler that is settled about its
requests brings the connection there unless one of `ms` closes, with the responses to `ms` written.
However it comes there, the request is handed over with a stream of `n` bytes; and if its handler
reads to the end of that stream, nothing is handled after it, and the request is interrupted: the
handler has received the chunks and then the failure, its response is written, and the connection
ends with that failure. -/
theorem serve_interrupted {c : Connection} {source : Source} {s : SinkBehaviour}
    (hs : s.Faultless) {pieces : List Framing.Piece}
    (hpieces : Framing.total pieces = source.supply) {f : Framing} {m : Nat} {hm : 0 < m}
    (hf : ((Framing.init c.lexicon).play pieces).2 = .ok f) (hphase : f.phase = .entity m hm) :
    ∃ (ms : List Message) (line : RequestLine) (headers : List Header) (cs : List Bytes) (n : Nat),
      n = cs.flatten.length + m ∧
      ((Framing.init c.lexicon).play pieces).1 = ms.flatMap Message.frames ++
        (Message.headFrames line headers ++ .entityStart n :: cs.map .entityChunk) ∧
      (∀ react, c.handler.Reacts c.entityBuffer react → (∀ x ∈ ms, x.sent.closes = false) →
        ∃ e, (c.history (.start c.lexicon source s))[ms.length]? = some e ∧
          e.start.sink.output = replies react (ms.map Message.sent)) ∧
      ∀ e, (c.history (.start c.lexicon source s))[ms.length]? = some e →
        e.request = ⟨line, headers, .streaming (.create n c.entityBuffer)⟩ ∧
        ∀ ρ, (c.plan e.request).Awaits ρ →
          (c.history (.start c.lexicon source s)).length = ms.length + 1 ∧
          Interrupted n cs.flatten source.fate ρ e (c.serve source s) := by
  obtain ⟨ms, line, headers, cs, hms⟩ := Framing.frames_play_entity hf hphase
  have hready : Ready c.lexicon source.supply source.fate (.start c.lexicon source s) :=
    ⟨FrameReader.stands_create source c.lexicon, hs, rfl⟩
  have hend := endsWithin_of_play hpieces hf hphase hms
  refine ⟨ms, line, headers, cs, _, rfl, hms, fun react hreact hopen => ?_, fun e he => ?_⟩
  · obtain ⟨e, he, hout⟩ := exists_handed hreact hready hend
      (List.forall_mem_map.2 hopen)
    rw [List.length_map] at he
    exact ⟨e, he, hout⟩
  · have he' : (c.history (.start c.lexicon source s))[(ms.map Message.sent).length]? = some e := by
      rw [List.length_map]
      exact he
    obtain ⟨s', b', hs', hend', hserve, hhead, hlength⟩ := reaches hready hend he'
    obtain ⟨hrequest, hinterrupted⟩ := interrupted_of_ready hs' hend' hhead
    refine ⟨hrequest, fun ρ hρ => ?_⟩
    obtain ⟨hone, hcut⟩ := hinterrupted ρ hρ
    rw [List.length_map, hone] at hlength
    obtain ⟨hresult, hsink⟩ := serve_eq c source s
    refine ⟨hlength, ?_⟩
    exact {
      orders := hcut.orders
      result := by rw [hresult, hserve]; exact hcut.result
      output := by rw [hsink, hserve]; exact hcut.output }

/-- Two requests, of which the last byte does not come. -/
def shortBytes : Bytes := putBytes ++ putBytes.take 37

def brokenPuts : Source :=
  [.bytes (shortBytes.take 50), .wait, .bytes (shortBytes.drop 50), .failure .reset]

def waitsForByte : Framing := ⟨echoing.lexicon, .entity 1 (by decide), [], none⟩

lemma play_shortBytes : (Framing.init echoing.lexicon).play [⟨.atOnce, shortBytes⟩] =
    (putMessage.frames ++ [.requestLine putMessage.line, .header (.contentLength 2),
      .entityStart 2, .entityChunk [97]], .ok waitsForByte) := by
  have hline : (Framing.init echoing.lexicon).next shortBytes = .ok ⟨echoing.lexicon, .requestLine,
      shortBytes.drop 16, some (.requestLine putMessage.line)⟩ := rfl
  rw [Framing.play, Framing.advance, hline, Framing.Run.andThen_ok, Framing.play,
    Framing.drain_of_next (g := ⟨echoing.lexicon, .header, shortBytes.drop 34,
      some (.header (.contentLength 2))⟩) rfl rfl,
    Framing.drain_of_next (g := ⟨echoing.lexicon, .headerOrEnd [.contentLength 2],
      shortBytes.drop 36, some (.entityStart 2)⟩) rfl rfl,
    Framing.drain_of_next (g := ⟨echoing.lexicon, .entity 2 (by decide), shortBytes.drop 38,
      some (.entityChunk [97, 98])⟩) rfl rfl,
    Framing.drain_of_next (g := ⟨echoing.lexicon, .entityEnd, shortBytes.drop 38,
      some .entityEnd⟩) rfl rfl,
    Framing.drain_of_next (g := ⟨echoing.lexicon, .requestLine, shortBytes.drop 54,
      some (.requestLine putMessage.line)⟩) rfl rfl,
    Framing.drain_of_next (g := ⟨echoing.lexicon, .header, shortBytes.drop 72,
      some (.header (.contentLength 2))⟩) rfl rfl,
    Framing.drain_of_next (g := ⟨echoing.lexicon, .headerOrEnd [.contentLength 2], [97],
      some (.entityStart 2)⟩) rfl rfl,
    Framing.drain_of_next (g := ⟨echoing.lexicon, .entity 2 (by decide), [],
      some (.entityChunk [97])⟩) rfl rfl,
    Framing.drain_of_next (g := waitsForByte) rfl rfl, Framing.drain_of_none rfl]
  rfl

lemma echo_awaits : Plan.echo.Awaits fun _ why => .fails why.message where
  early _ := rfl
  final _ _ := rfl

theorem serve_interrupted_brokenPuts :
    SinkBehaviour.willing.Faultless ∧
      Framing.total [⟨.atOnce, shortBytes⟩] = brokenPuts.supply ∧
      ((Framing.init echoing.lexicon).play [⟨.atOnce, shortBytes⟩]).2 = .ok waitsForByte ∧
      (echoing.history (.start echoing.lexicon brokenPuts .willing)).length = 2 ∧
      (echoing.serve brokenPuts .willing).result = some (.error (.transport .reset)) ∧
      (echoing.serve brokenPuts .willing).session.sink.output =
        (echoed putMessage.sent).wire .http11 ++ (Reaction.fails []).wire .http11 := by
  have hfaultless : SinkBehaviour.willing.Faultless :=
    ⟨by simp [SinkBehaviour.willing], rfl, rfl, rfl⟩
  have hpieces : Framing.total [⟨.atOnce, shortBytes⟩] = brokenPuts.supply := rfl
  have hends : ((Framing.init echoing.lexicon).play [⟨.atOnce, shortBytes⟩]).2 =
      .ok waitsForByte := by rw [play_shortBytes]
  obtain ⟨ms, line, headers, cs, n, hn, hframes, hreach, hlast⟩ :=
    serve_interrupted hfaultless hpieces hends rfl
  rw [play_shortBytes] at hframes
  -- the messages are the one there is, and the head is that of the other
  have hsent : [putMessage.sent] = ms.map Message.sent := by
    have hgather := congrArg Draft.empty.gather hframes
    rw [Draft.gather_messages ms (by simp [Message.headFrames])] at hgather
    exact hgather
  have hline : line = putMessage.line := by
    have hafter := congrArg Draft.empty.after hframes
    rw [Draft.after_messages, Draft.after_open] at hafter
    exact (Option.some.inj (congrArg Draft.line hafter)).symm
  have hlength : ms.length = 1 := by rw [← List.length_map Message.sent, ← hsent]; rfl
  have hopen : ∀ x ∈ ms, x.sent.closes = false := fun x hx => by
    have hmem : x.sent ∈ [putMessage.sent] := hsent ▸ List.mem_map_of_mem hx
    rw [List.mem_singleton.1 hmem]
    rfl
  obtain ⟨e, he, hout⟩ := hreach echoed echoing_reacts hopen
  obtain ⟨hrequest, hinterrupted⟩ := hlast e he
  obtain ⟨htwo, hcut⟩ := hinterrupted _ echo_awaits
  obtain ⟨ps, got, why, -, -, houtput⟩ := hcut.output
  rw [hlength] at htwo
  have hone : replies echoed [putMessage.sent] = (echoed putMessage.sent).wire .http11 :=
    List.append_nil _
  refine ⟨hfaultless, hpieces, hends, htwo, hcut.result, ?_⟩
  rw [houtput, hout, hrequest, hline, ← hsent, hone]
  rfl

end Connection

end Http1
