import Http1.Proofs.Consumption

/-!
Faults of the sink.

A sink may refuse bytes or a flush at any time, and may fail to be shut down. What it has taken by
then is the beginning of what would have been written without the fault: what is foretold of a
request does not depend on the sink, and a connection whose sink has failed does not go on. Main
statement: a fault cuts the output, and does nothing else.
-/

namespace Http1

open Framing (reading)

namespace Connection

open Exchange (Due)

variable {c : Connection} {B : SinkBehaviour → Prop} {s s' : Session} {e e' : Episode}
  {es es' : List Episode} {o o' : Outcome} {l : Lexicon} {b : Bytes} {fate : Option TransportError}

/-- The sink refuses something in the episode, or fails to be shut down after it. -/
def Episode.Faulted (e : Episode) : Prop :=
  e.start.MeetsFault e.acts ∨
    e.finish.result? = some (.ok ()) ∧ e.request.shouldClose = true ∧
      ∃ why, e.finish.sink.shutdown = .error why

/-! ### What a course leaves -/

lemma output_of_last {e' : Served} (h : e.progress s = .last e' o) :
    o.session.sink.output = e.finish.sink.output := by
  rcases progress_last h with ⟨-, -, hsink⟩ | ⟨-, -, ⟨hshut, -⟩ | ⟨why, -, -, hsink⟩⟩
  · rw [hsink]
  · unfold Sink.shutdown at hshut
    split at hshut
    · cases hshut
    · rw [← Except.ok.inj hshut]
      rfl
  · rw [hsink]

lemma Episode.Fulfils.output_le {left : List Bytes} (h : e.Fulfils (e.foretold s left)) :
    s.sink.output <+: e.finish.sink.output := by
  rw [h.output]
  exact List.prefix_append ..

lemma Course.output_le (h : Course c SinkBehaviour.Faultless s es o)
    (hr : s.reader.Stands c.lexicon .requestLine b fate)
    (hout : Outside (reading c.lexicon .requestLine b)) :
    s.sink.output <+: o.session.sink.output := by
  induction h generalizing b with
  | done hq =>
    obtain ⟨-, -, hsink⟩ := farewell_ends hr hq
    exact hsink ▸ List.prefix_refl _
  | last he hp =>
    obtain ⟨a, r, hq, hstart⟩ := he.received
    obtain ⟨m, rest, left, z, hm⟩ := receive_comprises hr hout hq
    rw [output_of_last hp]
    exact (he.fulfils (hstart ▸ hm.due _ _ _ _)).output_le
  | more he hp _ ih =>
    obtain ⟨a, r, hq, hstart⟩ := he.received
    obtain ⟨m, rest, left, z, hm⟩ := receive_comprises hr hout hq
    have hd := hstart ▸ hm.due _ _ _ _
    obtain ⟨hreader, hsink, -⟩ := progress_more hp
    refine ((he.fulfils hd).output_le).trans ?_
    rw [← hsink]
    refine ih (b := rest) ?_ fun f hf => hout f (hm.continues.ends.trans hf)
    rw [hreader, (he.comes hd).1]
    exact hm.finish

/-! ### Two courses -/

/-- The first course is the second one, cut short where it meets a fault. -/
structure Shortens (es : List Episode) (o : Outcome) (es' : List Episode) (o' : Outcome) :
    Prop where
  output : o.session.sink.output <+: o'.session.sink.output
  requests : es.map (·.request) <+: es'.map (·.request)
  faulted : ∀ before e after, es = before ++ e :: after → e.Faulted →
    after = [] ∧ ∃ why, o.result = some (.error (.transport why))
  faultless : (∀ e ∈ es, ¬ e.Faulted) → o.session.sink.output = o'.session.sink.output ∧
    o.result = o'.result ∧ es.map (·.request) = es'.map (·.request)

namespace Shortens

lemma done (ho : o.session.sink.output = o'.session.sink.output) (hr : o.result = o'.result) :
    Shortens [] o [] o' where
  output := ho ▸ List.prefix_refl _
  requests := List.prefix_refl _
  faulted before e after h := by simp at h
  faultless _ := ⟨ho, hr, rfl⟩

lemma last (hq : e.request = e'.request) (hnot : ¬ e.Faulted)
    (ho : o.session.sink.output = o'.session.sink.output) (hr : o.result = o'.result) :
    Shortens [e] o [e'] o' where
  output := ho ▸ List.prefix_refl _
  requests := by simp [hq]
  faulted before f after h hf := by
    obtain ⟨-, rfl, -⟩ : before = [] ∧ f = e ∧ after = [] := by
      simpa [List.singleton_eq_append_iff] using h
    exact absurd hf hnot
  faultless _ := ⟨ho, hr, by simp [hq]⟩

lemma cut (hq : e.request = e'.request) (hf : e.Faulted)
    (ho : o.session.sink.output <+: o'.session.sink.output)
    (hr : ∃ why, o.result = some (.error (.transport why))) : Shortens [e] o (e' :: es') o' where
  output := ho
  requests := by simp [hq]
  faulted before f after h _ := by
    obtain ⟨-, -, hafter⟩ : before = [] ∧ f = e ∧ after = [] := by
      simpa [List.singleton_eq_append_iff] using h
    exact ⟨hafter, hr⟩
  faultless h := absurd hf (h e (List.mem_singleton_self e))

lemma more (hq : e.request = e'.request) (hnot : ¬ e.Faulted) (h : Shortens es o es' o') :
    Shortens (e :: es) o (e' :: es') o' where
  output := h.output
  requests := by
    simp only [List.map_cons, hq]
    exact List.cons_prefix_cons.2 ⟨rfl, h.requests⟩
  faulted before f after hes hf := by
    rcases before with _ | ⟨g, before⟩
    · obtain ⟨rfl, -⟩ := List.cons.inj hes
      exact absurd hf hnot
    · exact h.faulted before f after (List.cons.inj hes).2 hf
  faultless hall := by
    obtain ⟨ho, hr, hmap⟩ := h.faultless fun f hf => hall f (List.mem_cons_of_mem _ hf)
    exact ⟨ho, hr, by simp [hq, hmap]⟩

end Shortens

/-- The sessions differ in their sinks alone, which have taken the same. -/
structure Alike (s s' : Session) : Prop where
  reader : s.reader = s'.reader
  output : s.sink.output = s'.sink.output
  buffer : s.buffer = s'.buffer

/-- What two episodes come to that begin alike, the second one without a fault. -/
structure Episode.Pairs (e e' : Episode) (z : FrameReader) (t : Forecast) : Prop where
  request : e.request = e'.request
  reader : e.finish.reader = z
  reader' : e'.finish.reader = z
  fulfils' : e'.Fulfils t
  comes : (¬ e.start.MeetsFault e.acts ∧ e.Fulfils t) ∨ (e.start.MeetsFault e.acts ∧ e.CutsOff t)

lemma Alike.symm (h : Alike s s') : Alike s' s := ⟨h.reader.symm, h.output.symm, h.buffer.symm⟩

lemma Alike.no_farewell (ha : Alike s s') (h : e.Opens c B s) :
    farewell? s' (Session.receive s'.reader (.create c.entityBuffer)) = none := by
  obtain ⟨a, r, hq, -⟩ := h.received
  rw [← ha.reader, hq]
  rfl

/-- **Sessions that are alike** hand over the same request, and write the same for it up to a
fault. -/
lemma Alike.pairs (ha : Alike s s') (h : e.Opens c B s)
    (h' : e'.Opens c SinkBehaviour.Faultless s')
    (hr : s.reader.Stands c.lexicon .requestLine b fate)
    (hout : Outside (reading c.lexicon .requestLine b)) :
    ∃ z t, e.Pairs e' z t ∧ ∃ rest, z.Stands c.lexicon .requestLine rest fate ∧
      Outside (reading c.lexicon .requestLine rest) := by
  obtain ⟨a, r, hq, hstart⟩ := h.received
  obtain ⟨a', r', hq', hstart'⟩ := h'.received
  rw [← ha.reader, hq] at hq'
  obtain ⟨hreceived, rfl⟩ := Prod.mk.inj hq'
  obtain ⟨hrequest, rfl⟩ := Session.Received.request.inj hreceived
  obtain ⟨m, rest, left, z, hm⟩ := receive_comprises hr hout hq
  have hd : Due left z e.start := hstart ▸ hm.due _ _ _ _
  have hd' : Due left z e'.start := hstart' ▸ hm.due _ _ _ _
  -- the forecast is told by the request and the chunks
  have hsame : e'.foretold s' left = e.foretold s left := by
    rw [Episode.foretold, Episode.foretold, ha.output]
    refine congrArg (Forecast.behind _) (Exchange.forecast_congr ?_ ?_ ?_ left) <;>
      rw [hstart, hstart', hrequest]
    · rfl
    · rfl
    · exact ha.buffer.symm
  refine ⟨z, e.foretold s left, ⟨hrequest, (h.comes hd).1, (h'.comes hd').1, ?_, (h.comes hd).2⟩,
    rest, hm.finish, fun f hf => hout f (hm.continues.ends.trans hf)⟩
  rw [← hsame]
  exact h'.fulfils hd'

lemma Episode.Pairs.cut {z : FrameReader} {t : Forecast} (h : e.Pairs e' z t)
    (hfault : e.start.MeetsFault e.acts) (hcut : e.CutsOff t) {f : Served}
    (hp : e.progress s = .last f o) (ho : e'.finish.sink.output <+: o'.session.sink.output) :
    Shortens [e] o (e' :: es') o' := by
  obtain ⟨⟨why, hresult⟩, hprefix⟩ := hcut
  refine .cut h.request (.inl hfault) ?_ ⟨why, ?_⟩
  · rw [output_of_last hp]
    exact (h.fulfils'.output ▸ hprefix).trans ho
  · rcases progress_last hp with ⟨hsame, -, -⟩ | ⟨hok, -⟩
    · exact hsame.trans hresult
    · simp [hresult] at hok

lemma Episode.Pairs.last {z : FrameReader} {t : Forecast} (h : e.Pairs e' z t)
    (hf : e'.Opens c SinkBehaviour.Faultless s') {f f' : Served} (hp : e.progress s = .last f o)
    (hp' : e'.progress s' = .last f' o') : Shortens [e] o [e'] o' := by
  have hend := output_of_last hp'
  rcases h.comes with ⟨hnone, hcomes⟩ | ⟨hfault, hcut⟩
  · have hout : o.session.sink.output = o'.session.sink.output := by
      rw [output_of_last hp, hend, hcomes.output, h.fulfils'.output]
    have hsame : e.finish.result? = e'.finish.result? :=
      hcomes.result.trans h.fulfils'.result.symm
    rcases progress_last hp' with ⟨hres', hnot', -⟩ | ⟨hok', hclose', ⟨-, hres'⟩ | ⟨why, hshut', -⟩⟩
    · have hnot : ¬ e.finish.result? = some (.ok ()) := by
        rw [hsame, ← hres']
        exact hnot'
      rcases progress_last hp with ⟨hres, -⟩ | ⟨hok, -⟩
      · refine .last h.request ?_ hout (hres.trans (hsame.trans hres'.symm))
        rintro (hmeets | ⟨hok, -⟩)
        · exact hnone hmeets
        · exact hnot hok
      · exact absurd hok hnot
    · rcases progress_last hp with ⟨hres, hnot, -⟩ | ⟨-, -, ⟨hshut, hres⟩ | ⟨why, hshut, hres, -⟩⟩
      · exact absurd (hres.trans (hsame.trans hok')) hnot
      · refine .last h.request ?_ hout (hres.trans hres'.symm)
        rintro (hmeets | ⟨-, -, why, hfail⟩)
        · exact hnone hmeets
        · simp [hshut] at hfail
      · exact .cut h.request (.inr ⟨hsame.trans hok', h.request ▸ hclose', why, hshut⟩)
          (hout ▸ List.prefix_refl _) ⟨why, hres⟩
    · have hnone' : e'.finish.sink.behaviour.shutdownError = none := hf.shutdown.shutdownError
      simp [Sink.shutdown, hnone'] at hshut'
  · exact h.cut hfault hcut hp (hend ▸ List.prefix_refl _)

lemma Episode.Pairs.cutsOff {z : FrameReader} {t : Forecast} (h : e.Pairs e' z t)
    {f f' : Served} {s₁' : Session} (hp : e.progress s = .last f o)
    (hp' : e'.progress s' = .more f' s₁') : e.start.MeetsFault e.acts ∧ e.CutsOff t := by
  obtain ⟨-, -, -, hok', hopen⟩ := progress_more hp'
  refine h.comes.resolve_left fun ⟨hnone, hcomes⟩ => ?_
  rcases progress_last hp with ⟨hres, hnot, -⟩ | ⟨-, hclose, -⟩
  · exact hnot (hres.trans (hcomes.result.trans (h.fulfils'.result.symm.trans hok')))
  · simp [h.request, hopen] at hclose

lemma Episode.Pairs.not_last {z : FrameReader} {t : Forecast} (h : e.Pairs e' z t)
    {f f' : Served} {s₁ : Session} (hp : e.progress s = .more f s₁) :
    e'.progress s' ≠ .last f' o' := by
  intro hp'
  obtain ⟨-, -, -, hok, hopen⟩ := progress_more hp
  rcases h.comes with ⟨hnone, hcomes⟩ | ⟨-, ⟨why, hcut⟩, -⟩
  · rcases progress_last hp' with ⟨hres, hnot, -⟩ | ⟨-, hclose, -⟩
    · exact hnot (hres.trans (h.fulfils'.result.trans (hcomes.result.symm.trans hok)))
    · simp [← h.request, hopen] at hclose
  · simp [hcut] at hok

/-- Neither request is the last one: there was no fault, and the sessions are alike again. -/
lemma Episode.Pairs.alike {z : FrameReader} {t : Forecast} (h : e.Pairs e' z t)
    {f f' : Served} {s₁ s₁' : Session} (hp : e.progress s = .more f s₁)
    (hp' : e'.progress s' = .more f' s₁') : ¬ e.Faulted ∧ Alike s₁ s₁' := by
  obtain ⟨hreader, hsink, hbuffer, hok, hopen⟩ := progress_more hp
  obtain ⟨hreader', hsink', hbuffer', -⟩ := progress_more hp'
  rcases h.comes with ⟨hnone, hcomes⟩ | ⟨-, ⟨why, hcut⟩, -⟩
  · have ht : t.result = some (.ok ()) := hcomes.result.symm.trans hok
    refine ⟨?_, ?_, ?_, ?_⟩
    · rintro (hmeets | ⟨-, hclose, -⟩)
      · exact hnone hmeets
      · simp [hopen] at hclose
    · rw [hreader, hreader', h.reader, h.reader']
    · rw [hsink, hsink', hcomes.output, h.fulfils'.output]
    · rw [hbuffer, hbuffer', hcomes.buffer ht, h.fulfils'.buffer ht]
  · simp [hcut] at hok

/-- **Sessions that are alike** are served alike, up to a fault. -/
lemma Course.shortens (h : Course c B s es o)
    (h' : Course c SinkBehaviour.Faultless s' es' o') (ha : Alike s s')
    (hr : s.reader.Stands c.lexicon .requestLine b fate)
    (hout : Outside (reading c.lexicon .requestLine b)) : Shortens es o es' o' := by
  induction h generalizing s' es' o' b with
  | @done s o hq =>
    cases h' with
    | done hq' =>
      obtain ⟨-, hends, hsink⟩ := farewell_ends hr hq
      obtain ⟨-, hends', hsink'⟩ := farewell_ends (ha.reader ▸ hr) hq'
      exact .done (by rw [hsink, hsink', ha.output]) (hends.trans hends'.symm)
    | last he' => simp [ha.symm.no_farewell he'] at hq
    | more he' => simp [ha.symm.no_farewell he'] at hq
  | @last s e o f he hp =>
    cases h' with
    | done hq' => simp [ha.no_farewell he] at hq'
    | last he' hp' =>
      obtain ⟨z, t, hpairs, -⟩ := ha.pairs he he' hr hout
      exact hpairs.last he' hp hp'
    | more he' hp' hrest' =>
      obtain ⟨z, t, hpairs, rest, hz, hout'⟩ := ha.pairs he he' hr hout
      obtain ⟨hreader', hsink', -⟩ := progress_more hp'
      obtain ⟨hfault, hcut⟩ := hpairs.cutsOff hp hp'
      refine hpairs.cut hfault hcut hp ?_
      rw [← hsink']
      exact hrest'.output_le (by rw [hreader', hpairs.reader']; exact hz) hout'
  | @more s s₁ e es o f he hp hrest ih =>
    cases h' with
    | done hq' => simp [ha.no_farewell he] at hq'
    | last he' hp' =>
      obtain ⟨z, t, hpairs, -⟩ := ha.pairs he he' hr hout
      exact absurd hp' (hpairs.not_last hp)
    | more he' hp' hrest' =>
      obtain ⟨z, t, hpairs, rest, hz, hout'⟩ := ha.pairs he he' hr hout
      obtain ⟨hnot, hnext⟩ := hpairs.alike hp hp'
      refine .more hpairs.request hnot (ih hrest' hnext ?_ hout')
      rw [(progress_more hp).1, hpairs.reader]
      exact hz

/-- **A fault cuts the output, and does nothing else**: over bytes that cut no entity short, let a
connection write to a sink that may take any number of bytes at a time, and may refuse bytes, a
flush or the shutdown at any time. Whichever way it comes to an end, it has written the beginning of
what it writes to a sink without faults, has handed over the first of the requests that it hands
over then, and if it has met a fault it has ended with an error of the transport and with the
request of that fault. Without a fault, all is the same. -/
theorem faults_shorten (c : Connection) {source : Source}
    (hout : Outside (reading c.lexicon .requestLine source.supply)) (k k' : SinkBehaviour) :
    (∃ es o, Course c (fun _ => True) (.start c.lexicon source k) es o) ∧
    (∃ es o, Course c SinkBehaviour.Faultless (.start c.lexicon source k') es o) ∧
    ∀ es o es' o', Course c (fun _ => True) (.start c.lexicon source k) es o →
      Course c SinkBehaviour.Faultless (.start c.lexicon source k') es' o' →
      Shortens es o es' o' := by
  refine ⟨exists_course c (b := k) trivial _, exists_course c willing_faultless _, ?_⟩
  intro es o es' o' h h'
  exact h.shortens h' ⟨rfl, rfl, rfl⟩ (FrameReader.stands_create source c.lexicon) hout

def meagre : SinkBehaviour := { SinkBehaviour.willing with perWrite := some 3, inAll := some 20 }

theorem faults_shorten_putTwice :
    Outside (reading echoing.lexicon .requestLine putTwice.supply) ∧
      (echoing.serve putTwice meagre).session.sink.output <+:
        (echoing.serve putTwice .willing).session.sink.output ∧
      (echoing.history (.start echoing.lexicon putTwice meagre)).map (·.request) <+:
        (echoing.history (.start echoing.lexicon putTwice .willing)).map (·.request) := by
  obtain ⟨es, hc, hes⟩ := serveFrom_course (B := fun _ => True) echoing
    (.start echoing.lexicon putTwice meagre) trivial
  obtain ⟨es', hc', hes'⟩ := serveFrom_course (B := SinkBehaviour.Faultless) echoing
    (.start echoing.lexicon putTwice .willing) willing_faultless
  have h := (faults_shorten echoing outside_putTwice meagre .willing).2.2 es _ es' _ hc hc'
  refine ⟨outside_putTwice, ?_, ?_⟩
  · rw [(serve_eq ..).2, (serve_eq ..).2]
    exact h.output
  · rw [hes, hes']
    simpa [Episode.served, Function.comp_def] using h.requests

end Connection

end Http1
