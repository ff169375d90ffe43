import Http1.Proofs.Backpressure
import Http1.Proofs.Feeding

/-!
What a response comes to on the wire.

A response is written in turns: the sender of its body may do something between any two of them,
and the sink may take what it is given in pieces, put it off, or fail, in another way at every turn.
What goes into the channel until the sender leaves decides the bytes of the entity and how it ends;
the head and these bytes are the wire of the response. At every moment what the sink has taken and
what the writer has at hand are together the head and the chunks that have been received, whichever
of the three kinds the entity is. Main statement: nothing but the wire is ever written; all of it is
when the response is out, and when it fails with its entity; and the buffer is then as it was, so
that responses through one buffer follow one another.
-/

namespace Http1

variable {sent : List (Except EntityError Bytes)} {got : Bytes}

/-! ### The wire -/

namespace Entity

/-- The bytes of an entity, if this goes into its channel before the sender leaves. -/
def bytes (e : Entity) (sent : List (Except EntityError Bytes)) : Bytes :=
  match e with
  | streaming c => c.bytes sent
  | e => e.atHand

/-- How writing ends on account of the entity. -/
def outcome (e : Entity) (sent : List (Except EntityError Bytes)) : Except ConnectionError Unit :=
  match e with
  | streaming c =>
    match c.verdict sent with
    | some why => .error (.entity why)
    | none => .ok ()
  | _ => .ok ()

lemma entity_of_outcome {e : Entity} {why : ConnectionError} (h : e.outcome sent = .error why) :
    ∃ cause, why = .entity cause := by
  unfold outcome at h
  split at h
  · split at h
    · exact ⟨_, (Except.error.inj h).symm⟩
    · cases h
  · cases h

lemma bytes_prefix (e : Entity) (sent later : List (Except EntityError Bytes)) :
    e.bytes sent <+: e.bytes (sent ++ later) := by
  cases e with
  | streaming c => exact c.bytes_prefix sent later
  | _ => exact List.prefix_refl _

variable {e : Entity} {body : Option Channel} {c : Channel}

/-- Of an entity, `got` has come to the writer, and the rest is to come through what is left of its
channel. -/
inductive Under (e : Entity) : List (Except EntityError Bytes) → Bytes → Option Channel → Prop
  | atHand : e.channel? = none → Under e [] e.atHand none
  | streamed {c₀ c : Channel} {sent : List (Except EntityError Bytes)} {got : List Bytes} :
      e = .streaming c₀ → c₀.Ledger sent got c → Under e sent got.flatten (some c)

/-- Nothing can come of the entity any more. -/
inductive Over (e : Entity) : Option Channel → Prop
  | atHand : e.channel? = none → Over e none
  | streamed {c₀ c : Channel} : e = .streaming c₀ → c₀.finished = true ∨ c.sending = false →
      Over e (some c)

lemma under_start (e : Entity) :
    e.Under ((e.channel?.map Channel.queue).getD []) e.atHand e.channel? := by
  rcases e with _ | b | c
  · exact .atHand rfl
  · exact .atHand rfl
  · exact .streamed rfl c.ledger_start

lemma Under.begins (h : e.Under sent got body) : got <+: e.bytes sent := by
  cases h with
  | atHand hc =>
    cases e with
    | streaming c => cases hc
    | _ => exact List.prefix_refl _
  | streamed he h => exact he ▸ h.begins

lemma Under.ended (h : e.Under sent got none) :
    e.bytes sent = got ∧ e.outcome sent = .ok () ∧ e.Over none := by
  cases h with
  | atHand hc =>
    cases e with
    | streaming c => cases hc
    | _ => exact ⟨rfl, rfl, .atHand rfl⟩

/-- **A look** into the channel. -/
lemma Under.poll (h : e.Under sent got (some c)) {what : Channel.Reception} {c' : Channel}
    (hp : c.poll = (what, c')) :
    match what with
    | .chunk b => e.Under sent (got ++ b) (some c')
    | .failed why => e.bytes sent = got ∧ e.outcome sent = .error (.entity why)
    | .ended => e.bytes sent = got ∧ e.outcome sent = .ok () ∧ e.Over (some c')
    | .pending => True := by
  cases h with
  | streamed he h =>
    subst he
    have hpoll := h.poll hp
    rcases what with b | why | _ | _
    · have hnext : Under _ sent _ (some c') := .streamed rfl hpoll
      rwa [List.flatten_append, List.flatten_singleton] at hnext
    · exact ⟨hpoll.1, by simp only [outcome, hpoll.2]⟩
    · exact ⟨hpoll.1, by simp only [outcome, hpoll.2.1], .streamed rfl hpoll.2.2⟩
    · trivial

lemma Under.on (h : e.Under sent got (some c)) (a : Channel.Act) :
    e.Under (sent ++ c.puts a) got (some (c.on a)) := by
  cases h with
  | streamed he h => exact .streamed he (h.on a)

/-- What a sender does behind the end changes nothing. -/
lemma Over.on (h : e.Over (some c)) (a : Channel.Act) (sent : List (Except EntityError Bytes)) :
    e.Over (some (c.on a)) ∧ e.bytes (sent ++ c.puts a) = e.bytes sent ∧
      e.outcome (sent ++ c.puts a) = e.outcome sent := by
  cases h with
  | streamed he hover =>
    subst he
    rcases hover with hfinished | hgone
    · exact ⟨.streamed rfl (.inl hfinished), by simp [bytes, Channel.bytes, hfinished],
        by simp [outcome, Channel.verdict, hfinished]⟩
    · rw [Channel.puts_of_deaf (.inl hgone), List.append_nil, Channel.on_of_gone hgone]
      exact ⟨.streamed rfl (.inr hgone), rfl, rfl⟩

end Entity

/-- A response on the wire, if this goes into its channel before the sender leaves. -/
def Response.wire (r : Response) (v : Version) (sent : List (Except EntityError Bytes)) : Bytes :=
  encodeHead v r.status r.headers ++ r.entity.bytes sent

lemma Response.wire_prefix (r : Response) (v : Version)
    (sent later : List (Except EntityError Bytes)) :
    r.wire v sent <+: r.wire v (sent ++ later) :=
  (List.prefix_append_right_inj _).2 (r.entity.bytes_prefix sent later)

/-! ### One step -/

namespace Writer

variable {w : Writer} {body : Option Channel}

/-- What a step of a writer comes to: it goes on with the bytes at hand, or these are refused; it
flushes; or it looks for the next chunk. -/
inductive Comes (w : Writer) (body : Option Channel) : Step → Prop
  | onward {w' : Writer} {s : Step} : w.stage ≠ .flush → w.Onward w' →
      s = .moved w' body ∨ s = .yielded w' body → Comes w body s
  | refused {w' : Writer} {e : TransportError} : w.Refused → w'.sink.output = w.sink.output →
      Comes w body (.finished w' (.error (.transport e)))
  | flushed {s : Sink} : w.stage = .flush → s.output = w.sink.output →
      Comes w body (.finished ⟨s, [], .flush⟩ (.ok ()))
  | bodiless : w.stage = .waiting → body = none →
      Comes w body (.moved { w with stage := .flush } none)
  | received {c c' : Channel} {b : Bytes} : w.stage = .waiting → body = some c →
      c.poll = (.chunk b, c') → Comes w body (.moved { w with stage := .chunk b } (some c'))
  | ended {c c' : Channel} : w.stage = .waiting → body = some c → c.poll = (.ended, c') →
      Comes w body (.moved { w with stage := .flush } (some c'))
  | failed {c c' : Channel} {why : EntityError} : w.stage = .waiting → body = some c →
      c.poll = (.failed why, c') → Comes w body (.finished w (.error (.entity why)))
  | pending {c c' : Channel} : w.stage = .waiting → body = some c → c.poll = (.pending, c') →
      Comes w body .stuck

/-- **Every step of a writer** is one of these. -/
lemma step_comes (w : Writer) (body : Option Channel) : w.Comes body (w.step body) := by
  by_cases hw : w.stage = .waiting
  · rcases body with _ | c
    · have hstep : w.step none = .moved { w with stage := .flush } none := by simp [step, hw]
      rw [hstep]
      exact .bodiless hw rfl
    · rcases hp : c.poll with ⟨_ | _ | _ | _, c'⟩ <;> simp only [step, hw, hp]
      · exact .received hw rfl hp
      · exact .failed hw rfl hp
      · exact .ended hw rfl hp
      · exact .pending hw rfl hp
  · by_cases hf : w.stage = .flush
    · rcases step_flush hf body with ⟨-, s, hs, hout, -⟩ | ⟨hrefused, w', e, hs, hout⟩
      · rw [hs]
        exact .flushed hf hout
      · rw [hs]
        exact .refused hrefused hout
    · rcases step_cases hw hf body with ⟨-, w', hs, hon⟩ | ⟨hrefused, w', e, hs, hout⟩
      · exact .onward hf hon hs
      · rw [hs]
        exact .refused hrefused hout

def facing (w : Writer) (b : SinkBehaviour) : Writer :=
  { w with sink := { w.sink with behaviour := b } }

end Writer

/-! ### Turns -/

/-- A response that is being written, with all that has gone into the channel of its body. -/
structure Transfer where
  writer : Writer
  body : Option Channel
  sent : List (Except EntityError Bytes)
  result : Option (Except ConnectionError Unit)

namespace Transfer

/-- Whose turn it is: the writer's, over a sink that behaves so, or the sender's. -/
inductive Turn where
  | writer (b : SinkBehaviour)
  | sender (a : Channel.Act)

def start (sink : Sink) (buffer : Bytes) (v : Version) (r : Response) : Transfer where
  writer := .start sink buffer v r
  body := r.entity.channel?
  sent := (r.entity.channel?.map Channel.queue).getD []
  result := none

def output (t : Transfer) : Bytes := t.writer.sink.output

def after (t : Transfer) : Writer.Step → Transfer
  | .moved w c => { t with writer := w, body := c }
  | .yielded w c => { t with writer := w, body := c }
  | .stuck => t
  | .finished w result => { t with writer := w, result := some result }

def written (t : Transfer) (b : SinkBehaviour) : Transfer :=
  t.after ((t.writer.facing b).step t.body)

def fed (t : Transfer) (a : Channel.Act) : Transfer :=
  match t.body with
  | some c => { t with body := some (c.on a), sent := t.sent ++ c.puts a }
  | none => t

/-- What a turn comes to. Once there is a result, the body is gone and nothing happens. -/
def on (t : Transfer) (turn : Turn) : Transfer :=
  if t.result.isSome then t
  else
    match turn with
    | .writer b => t.written b
    | .sender a => t.fed a

def run (t : Transfer) (turns : List Turn) : Transfer := turns.foldl on t

lemma run_append (t : Transfer) (turns turns' : List Turn) :
    t.run (turns ++ turns') = (t.run turns).run turns' := List.foldl_append ..

variable {t : Transfer}

lemma on_of_result (h : t.result.isSome) (turn : Turn) : t.on turn = t := by
  unfold on
  rw [if_pos h]

lemma on_writer (h : t.result = none) (b : SinkBehaviour) : t.on (.writer b) = t.written b := by
  simp [on, h]

lemma on_sender (h : t.result = none) (a : Channel.Act) : t.on (.sender a) = t.fed a := by
  simp [on, h]

/-! ### What is kept -/

/-- How a transfer stands whose output and buffer were `front`, with the head behind it, before any
byte of the entity `e`. -/
inductive Stands (front : Bytes) (e : Entity) (t : Transfer) : Prop
  | underway {got : Bytes} : t.result = none → t.writer.stage ≠ .flush → t.writer.Tidy →
      e.Under t.sent got t.body → t.output ++ t.writer.atHand = front ++ got → Stands front e t
  | flushing : t.result = none → t.writer.stage = .flush → e.Over t.body →
      t.output = front ++ e.bytes t.sent → e.outcome t.sent = .ok () → Stands front e t
  | complete : t.result = some (e.outcome t.sent) → t.output = front ++ e.bytes t.sent →
      (t.result = some (.ok ()) → t.writer.buffer = []) → Stands front e t
  | broken {why : TransportError} : t.result = some (.error (.transport why)) →
      t.output <+: front ++ e.bytes t.sent → Stands front e t

variable {front : Bytes} {e : Entity}

lemma stands_start (sink : Sink) (buffer : Bytes) (v : Version) (r : Response) :
    (start sink buffer v r).Stands
      (sink.output ++ (buffer ++ Response.encodeHead v r.status r.headers)) r.entity :=
  .underway rfl (by simp [start, Writer.start]) (fun h => absurd rfl h) r.entity.under_start (by
    simp [start, output, Writer.start, Writer.atHand])

namespace Stands

/-- What has been written is of what there is to write. -/
lemma output_begins (h : t.Stands front e) : t.output <+: front ++ e.bytes t.sent := by
  cases h with
  | underway _ _ _ hunder hout =>
    have hgot := (List.prefix_append_right_inj front).2 hunder.begins
    rw [← hout] at hgot
    exact (List.prefix_append ..).trans hgot
  | flushing _ _ _ hout => exact hout ▸ List.prefix_refl _
  | complete _ hout => exact hout ▸ List.prefix_refl _
  | broken _ hout => exact hout

lemma writer_underway (hr : t.result = none) (hstage : t.writer.stage ≠ .flush)
    (htidy : t.writer.Tidy) (hunder : e.Under t.sent got t.body)
    (hout : t.output ++ t.writer.atHand = front ++ got) (b : SinkBehaviour) :
    (t.written b).Stands front e := by
  have hbegins : t.output <+: front ++ e.bytes t.sent :=
    (underway hr hstage htidy hunder hout).output_begins
  have hwaiting : t.writer.stage = .waiting → t.output = front ++ got ∧ t.writer.buffer = [] := by
    intro hw
    refine ⟨by simpa [Writer.atHand, hw] using hout, htidy (by simp [hw])⟩
  have hcomes := (t.writer.facing b).step_comes t.body
  rw [written]
  generalize (t.writer.facing b).step t.body = s at hcomes
  cases hcomes with
  | @onward w' _ _ hon hs =>
    have hnext : Stands front e { t with writer := w' } :=
      .underway hr hon.stage (hon.tidy htidy) hunder (hon.bytes.trans hout)
    rcases hs with rfl | rfl <;> exact hnext
  | @refused w' _ _ hsame =>
    have hsame : w'.sink.output = t.output := hsame
    exact .broken rfl (show w'.sink.output <+: _ from hsame ▸ hbegins)
  | flushed hf => exact absurd hf hstage
  | bodiless hw hbody =>
    obtain ⟨hbytes, hoc, hover⟩ := (hbody ▸ hunder).ended
    exact .flushing hr rfl hover ((hwaiting hw).1.trans (congrArg _ hbytes.symm)) hoc
  | received hw hbody hp =>
    obtain ⟨hgot, hbuffer⟩ := hwaiting hw
    refine .underway hr (by simp [after]) (fun _ => hbuffer) ((hbody ▸ hunder).poll hp) ?_
    rw [← List.append_assoc, ← hgot]
    rfl
  | ended hw hbody hp =>
    obtain ⟨hbytes, hoc, hover⟩ := (hbody ▸ hunder).poll hp
    exact .flushing hr rfl hover ((hwaiting hw).1.trans (congrArg _ hbytes.symm)) hoc
  | failed hw hbody hp =>
    obtain ⟨hbytes, hoc⟩ := (hbody ▸ hunder).poll hp
    refine .complete (by rw [← hoc]; rfl) ((hwaiting hw).1.trans (congrArg _ hbytes.symm)) ?_
    simp [after]
  | pending => exact .underway hr hstage htidy hunder hout

lemma writer_flushing (hstage : t.writer.stage = .flush) (hout : t.output = front ++ e.bytes t.sent)
    (hoc : e.outcome t.sent = .ok ()) (b : SinkBehaviour) : (t.written b).Stands front e := by
  have hcomes := (t.writer.facing b).step_comes t.body
  rw [written]
  have hflush : (t.writer.facing b).stage = .flush := hstage
  generalize (t.writer.facing b).step t.body = s at hcomes
  cases hcomes with
  | onward hf => exact absurd hflush hf
  | @refused w' _ _ hsame =>
    have hsame : w'.sink.output = front ++ e.bytes t.sent := hsame.trans hout
    exact .broken rfl (show w'.sink.output <+: _ from hsame ▸ List.prefix_refl _)
  | flushed _ hsame => exact .complete (by rw [← hoc]; rfl) (hsame.trans hout) fun _ => rfl
  | _ hw => simp [hflush] at hw

lemma fed (h : t.Stands front e) (hr : t.result = none) (a : Channel.Act) :
    (t.fed a).Stands front e := by
  rcases hb : t.body with _ | c
  · simpa [Transfer.fed, hb] using h
  · have hfed : t.fed a = { t with body := some (c.on a), sent := t.sent ++ c.puts a } := by
      simp [Transfer.fed, hb]
    rw [hfed]
    cases h with
    | underway _ hstage htidy hunder hout =>
      exact .underway hr hstage htidy ((hb ▸ hunder).on a) hout
    | flushing _ hstage hover hout hoc =>
      obtain ⟨hover, hbytes, hsame⟩ := (hb ▸ hover).on a t.sent
      exact .flushing hr hstage hover (hout.trans (congrArg _ hbytes.symm)) (hsame.trans hoc)
    | complete hresult => simp [hr] at hresult
    | broken hresult => simp [hr] at hresult

/-- **Every turn** keeps it. -/
lemma on (h : t.Stands front e) (turn : Turn) : (t.on turn).Stands front e := by
  rcases hr : t.result with _ | result
  · cases turn with
    | writer b =>
      rw [on_writer hr]
      cases h with
      | underway _ hstage htidy hunder hout => exact writer_underway hr hstage htidy hunder hout b
      | flushing _ hstage _ hout hoc => exact writer_flushing hstage hout hoc b
      | complete hresult => simp [hr] at hresult
      | broken hresult => simp [hr] at hresult
    | sender a =>
      rw [on_sender hr]
      exact h.fed hr a
  · rw [on_of_result (by simp [hr])]
    exact h

lemma run (h : t.Stands front e) (turns : List Turn) : (t.run turns).Stands front e := by
  induction turns generalizing t with
  | nil => exact h
  | cons turn turns ih => exact ih (h.on turn)

end Stands

/-! ### What comes of it -/

/-- There is no other end than that of a sink that fails, and that of the entity. -/
lemma Stands.ended {result : Except ConnectionError Unit} (h : t.Stands front e)
    (hresult : t.result = some result) :
    (∃ why, result = .error (.transport why)) ∨
      result = e.outcome t.sent ∧ t.output = front ++ e.bytes t.sent ∧
        (result = .ok () → t.writer.buffer = []) := by
  cases h with
  | underway hr => simp [hr] at hresult
  | flushing hr => simp [hr] at hresult
  | complete hr hout hbuffer =>
    exact .inr ⟨Option.some.inj (hresult.symm.trans hr), hout, fun hok => hbuffer (hok ▸ hresult)⟩
  | broken hr => exact .inl ⟨_, Option.some.inj (hresult.symm.trans hr)⟩

/-- **What is promised** of a response that is written behind `out`. -/
structure Exact (out : Bytes) (v : Version) (r : Response) (t : Transfer) : Prop where
  /-- Written is a part of the wire, whatever will be sent from now on. -/
  begins : ∀ later, t.output <+: out ++ r.wire v (t.sent ++ later)
  ok : t.result = some (.ok ()) →
    t.output = out ++ r.wire v t.sent ∧ r.entity.outcome t.sent = .ok () ∧ t.writer.buffer = []
  entity : ∀ why, t.result = some (.error (.entity why)) →
    t.output = out ++ r.wire v t.sent ∧ r.entity.outcome t.sent = .error (.entity why)
  errors : ∀ e, t.result = some (.error e) → (∃ why, e = .entity why) ∨ ∃ why, e = .transport why

lemma stands_run (sink : Sink) (v : Version) (r : Response) (turns : List Turn) :
    ((start sink [] v r).run turns).Stands
      (sink.output ++ Response.encodeHead v r.status r.headers) r.entity :=
  (stands_start sink [] v r).run turns

lemma exact_run (sink : Sink) (v : Version) (r : Response) (turns : List Turn) :
    ((start sink [] v r).run turns).Exact sink.output v r := by
  have h := stands_run sink v r turns
  generalize (start sink [] v r).run turns = t at h
  have hwire : ∀ sent, (sink.output ++ Response.encodeHead v r.status r.headers) ++
      r.entity.bytes sent = sink.output ++ r.wire v sent := fun sent => List.append_assoc ..
  constructor
  · intro later
    have hbegins := h.output_begins
    rw [hwire] at hbegins
    exact hbegins.trans ((List.prefix_append_right_inj _).2 (r.wire_prefix v t.sent later))
  · intro hr
    rcases h.ended hr with ⟨why, hbroken⟩ | ⟨houtcome, hout, hbuffer⟩
    · cases hbroken
    · exact ⟨hout.trans (hwire t.sent), houtcome.symm, hbuffer rfl⟩
  · intro why hr
    rcases h.ended hr with ⟨why, hbroken⟩ | ⟨houtcome, hout, -⟩
    · cases hbroken
    · exact ⟨hout.trans (hwire t.sent), houtcome.symm⟩
  · intro e hr
    rcases h.ended hr with ⟨why, hbroken⟩ | ⟨houtcome, -⟩
    · exact .inr ⟨why, Except.error.inj hbroken⟩
    · exact .inl (Entity.entity_of_outcome houtcome.symm)

/-! ### Coming to an end -/

/-- The sender has left, if there was one. -/
def Gone (t : Transfer) : Prop := ∀ c, t.body = some c → c.sending = false

def Turn.Faultless : Turn → Prop
  | .writer b => b.Faultless
  | .sender _ => True

def Turn.isWriter : Turn → Bool
  | .writer _ => true
  | .sender _ => false

def load (t : Transfer) : Nat := t.writer.cost + Writer.bodyLoad t.body

lemma fed_of_gone (h : t.Gone) (a : Channel.Act) : t.fed a = t := by
  unfold fed
  split
  · rename_i c hb
    rw [Channel.on_of_gone (h c hb), Channel.puts_of_deaf (.inl (h c hb)), List.append_nil, ← hb]
  · rfl

lemma gone_written (h : t.Gone) (b : SinkBehaviour) :
    (t.written b).Gone ∧ (t.written b).sent = t.sent := by
  have hgo : ∀ w c, (t.writer.facing b).step t.body = .moved w c ∨
      (t.writer.facing b).step t.body = .yielded w c → ∀ d, c = some d → d.sending = false := by
    rintro w c hs d rfl
    rcases Writer.body_of_step hs with hc | ⟨c, hc, hd⟩
    · exact h d hc.symm
    · rw [Option.some.inj hd, Channel.sending_poll]
      exact h c hc
  rcases hs : (t.writer.facing b).step t.body with ⟨w, c⟩ | ⟨w, c⟩ | _ | ⟨w, result⟩ <;>
    rw [written, hs]
  · exact ⟨hgo w c (.inl hs), rfl⟩
  · exact ⟨hgo w c (.inr hs), rfl⟩
  · exact ⟨h, rfl⟩
  · exact ⟨h, rfl⟩

lemma gone_on (h : t.Gone) (turn : Turn) : (t.on turn).Gone ∧ (t.on turn).sent = t.sent := by
  rcases hr : t.result with _ | result
  · cases turn with
    | writer b =>
      rw [on_writer hr]
      exact gone_written h b
    | sender a =>
      rw [on_sender hr, fed_of_gone h]
      exact ⟨h, rfl⟩
  · rw [on_of_result (by simp [hr])]
    exact ⟨h, rfl⟩

lemma written_below (h : t.Gone) (b : SinkBehaviour) :
    (t.written b).result.isSome ∨ (t.written b).load < t.load := by
  have hbelow := (t.writer.facing b).step_below t.body
  have hcomes := (t.writer.facing b).step_comes t.body
  rcases hs : (t.writer.facing b).step t.body with ⟨w, c⟩ | ⟨w, c⟩ | _ | ⟨w, result⟩ <;>
    rw [hs] at hbelow hcomes <;> rw [written, hs]
  · exact .inr hbelow
  · exact .inr hbelow
  · cases hcomes with
    | onward _ _ hs => simp at hs
    | pending _ hbody hp =>
      have hsending := Channel.sending_of_pending (congrArg Prod.fst hp)
      simp [h _ hbody] at hsending
  · exact .inl rfl

/-- **A writer comes to an end** once the sender has left. -/
lemma isSome_run {turns : List Turn} (h : t.Gone)
    (hn : t.result.isSome ∨ t.load < turns.countP Turn.isWriter) :
    (t.run turns).result.isSome ∧ (t.run turns).sent = t.sent := by
  induction turns generalizing t with
  | nil => exact ⟨hn.resolve_right (by simp), rfl⟩
  | cons turn turns ih =>
    obtain ⟨hgone, hsent⟩ := gone_on h turn
    rw [← hsent]
    refine ih hgone ?_
    rcases hr : t.result with _ | result
    · have hload := hn.resolve_left (by simp [hr])
      cases turn with
      | writer b =>
        rw [on_writer hr]
        rw [List.countP_cons_of_pos rfl] at hload
        exact (written_below h b).imp_right fun hbelow => by omega
      | sender a =>
        rw [on_sender hr, fed_of_gone h]
        rw [List.countP_cons_of_neg (by simp [Turn.isWriter])] at hload
        exact .inr hload
    · exact .inl (by simp [on_of_result, hr])

lemma not_broken_run {turns : List Turn} (hturns : ∀ turn ∈ turns, turn.Faultless)
    (h : ∀ why, t.result ≠ some (.error (.transport why))) (why : TransportError) :
    (t.run turns).result ≠ some (.error (.transport why)) := by
  induction turns generalizing t with
  | nil => exact h why
  | cons turn turns ih =>
    obtain ⟨hturn, hturns⟩ := List.forall_mem_cons.1 hturns
    refine ih hturns fun why => ?_
    rcases hr : t.result with _ | result
    · cases turn with
      | writer b =>
        have hcomes := (t.writer.facing b).step_comes t.body
        rw [on_writer hr, written]
        generalize (t.writer.facing b).step t.body = s at hcomes
        cases hcomes with
        | refused hrefused => exact absurd hrefused (Writer.not_refused_of_faultless hturn)
        | onward _ _ hs => rcases hs with rfl | rfl <;> simp [after, hr]
        | _ => simp [after, hr]
      | sender a =>
        have hfed : (t.fed a).result = t.result := by unfold fed; split <;> rfl
        rw [on_sender hr, hfed]
        exact h why
    · rw [on_of_result (by simp [hr])]
      exact h why

lemma result_run {sink : Sink} {v : Version} {r : Response} {turns later : List Turn}
    (hturns : ∀ turn ∈ turns, turn.Faultless) (hlater : ∀ turn ∈ later, turn.Faultless)
    (hgone : ((start sink [] v r).run turns).Gone)
    (hn : ((start sink [] v r).run turns).load < later.countP Turn.isWriter) :
    let t := (start sink [] v r).run turns
    (t.run later).sent = t.sent ∧ (t.run later).result = some (r.entity.outcome t.sent) := by
  intro t
  obtain ⟨hsome, hsent⟩ := isSome_run hgone (.inr hn)
  refine ⟨hsent, ?_⟩
  have hall : (t.run later) = (start sink [] v r).run (turns ++ later) :=
    (run_append _ turns later).symm
  rw [hall] at hsome hsent ⊢
  obtain ⟨result, hresult⟩ := Option.isSome_iff_exists.1 hsome
  rcases (stands_run sink v r (turns ++ later)).ended hresult with ⟨why, rfl⟩ | ⟨houtcome, -⟩
  · refine absurd hresult (not_broken_run (fun turn hturn => ?_) (by simp [start]) why)
    exact (List.mem_append.1 hturn).elim (hturns turn) (hlater turn)
  · rw [hresult, houtcome, hsent]

/-! ### A writer on its own -/

/-- A writer that is left alone takes its turns one after the other. -/
lemma run_eq (w : Writer) (body : Option Channel) (sent : List (Except EntityError Bytes)) :
    ∃ n, let t := run ⟨w, body, sent, none⟩ (.replicate n (.writer w.sink.behaviour))
      w.run body = (t.writer, t.result) := by
  have hon : ∀ (w : Writer) (body : Option Channel), on ⟨w, body, sent, none⟩
      (.writer w.sink.behaviour) = after ⟨w, body, sent, none⟩ (w.step body) := fun _ _ => rfl
  have hgo : ∀ {w w' : Writer} {body body' : Option Channel} {n : Nat},
      w.step body = .moved w' body' ∨ w.step body = .yielded w' body' →
      run ⟨w, body, sent, none⟩ (.replicate (n + 1) (.writer w.sink.behaviour)) =
        run ⟨w', body', sent, none⟩ (.replicate n (.writer w'.sink.behaviour)) := by
    intro w w' body body' n hs
    have hnext : (w.step body).next? = some w' := by rcases hs with hs | hs <;> rw [hs] <;> rfl
    have hbehaviour := Writer.behaviour_step hnext
    rw [List.replicate_succ, run, List.foldl_cons, hon, hbehaviour]
    rcases hs with hs | hs <;> rw [hs] <;> rfl
  fun_induction Writer.run w body with
  | case1 w body w' body' hs _ ih =>
    obtain ⟨n, hn⟩ := ih
    exact ⟨n + 1, by rw [hgo (.inl hs)]; exact hn⟩
  | case2 w body w' body' hs _ ih =>
    obtain ⟨n, hn⟩ := ih
    exact ⟨n + 1, by rw [hgo (.inr hs)]; exact hn⟩
  | case3 w body hs => exact ⟨0, rfl⟩
  | case4 w body w' result hs =>
    refine ⟨1, ?_⟩
    rw [List.replicate_one, run, List.foldl_cons, List.foldl_nil, hon, hs]
    rfl

lemma write_eq (sink : Sink) (buffer : Bytes) (v : Version) (r : Response) :
    ∃ n, let t := (start sink buffer v r).run (.replicate n (.writer sink.behaviour))
      Writer.write sink buffer v r = (t.writer, t.result) :=
  run_eq (.start sink buffer v r) r.entity.channel? _

/-! ### One response after the other -/

/-- A response that has been written, with what went into the channel of its body. -/
structure Delivered where
  version : Version
  response : Response
  sent : List (Except EntityError Bytes)

def Delivered.wire (m : Delivered) : Bytes := m.response.wire m.version m.sent

/-- These responses are written through one sink and one buffer, each in its own turns. -/
inductive Follow : Sink → Bytes → List Delivered → Sink → Bytes → Prop
  | nil {sink : Sink} {buffer : Bytes} : Follow sink buffer [] sink buffer
  | cons {sink sink' : Sink} {buffer buffer' : Bytes} {v : Version} {r : Response}
      {turns : List Turn} {ms : List Delivered} {t : Transfer} :
      (start sink buffer v r).run turns = t → t.result = some (.ok ()) →
      Follow t.writer.sink t.writer.buffer ms sink' buffer' →
      Follow sink buffer (⟨v, r, t.sent⟩ :: ms) sink' buffer'

/-- The buffer is as it was, so that each response finds it empty. -/
lemma Follow.output {sink sink' : Sink} {buffer buffer' : Bytes} {ms : List Delivered}
    (h : Follow sink buffer ms sink' buffer') (hb : buffer = []) :
    sink'.output = sink.output ++ ms.flatMap Delivered.wire ∧ buffer' = [] := by
  induction h with
  | nil => exact ⟨(List.append_nil _).symm, hb⟩
  | @cons sink sink' buffer buffer' v r turns ms t hrun hr _ ih =>
    subst hb hrun
    obtain ⟨hout, -, hbuffer⟩ := (exact_run sink v r turns).ok hr
    obtain ⟨houtput, hbuffer'⟩ := ih hbuffer
    refine ⟨houtput.trans ?_, hbuffer'⟩
    rw [List.flatMap_cons, ← List.append_assoc]
    exact congrArg (· ++ _) hout

/-- **The serializer is exact.** However the sink takes the bytes and whenever the sender of a body
does something, a response that is written through an empty buffer is its wire: nothing else is ever
written; all of it is when the response is out, and all up to the error when its entity fails; and
the buffer is empty when the response is out. Over a sink that does not fail, the end comes once the
sender has left, and is that of the entity. Chunks come to their bytes, and to the error behind them
or to a body cut short; chunks of any lengths that come to the declared one are written as the same
bytes at hand. Responses through one buffer follow one another. And a writer that is left to itself
is one that has all the turns. -/
theorem transfers_exact :
    (∀ (sink : Sink) (v : Version) (r : Response) (turns : List Turn),
      ((start sink [] v r).run turns).Exact sink.output v r) ∧
    (∀ (sink : Sink) (v : Version) (r : Response) (turns : List Turn),
      let t := (start sink [] v r).run turns
      (∀ turn ∈ turns, turn.Faultless) → t.Gone → ∃ n, ∀ later : List Turn,
        (∀ turn ∈ later, turn.Faultless) → n ≤ later.countP Turn.isWriter →
          (t.run later).sent = t.sent ∧ (t.run later).result = some (r.entity.outcome t.sent)) ∧
    (∀ (n k : Nat) (cs : List Bytes), let c := Channel.create n k
      (c.bytes (cs.map .ok) = cs.flatten ∧ c.verdict (cs.map .ok) =
        if cs.flatten.length < n then some (.truncated n cs.flatten.length) else none) ∧
      ∀ why, c.bytes (cs.map .ok ++ [.error why]) = cs.flatten ∧
        c.verdict (cs.map .ok ++ [.error why]) = some why) ∧
    (∀ (sink : Sink) (v : Version) (s : Status) (hs : List Header) (b : Bytes) (cs : List Bytes)
        (k : Nat) (turns turns' : List Turn),
      let t := (start sink [] v ⟨s, hs, .strict b⟩).run turns
      let t' := (start sink [] v ⟨s, hs, .streaming (.create b.length k)⟩).run turns'
      cs.flatten = b → t'.sent = cs.map .ok → t.result = some (.ok ()) →
        (∀ why, t'.result ≠ some (.error (.entity why))) ∧
          (t'.result = some (.ok ()) → t'.output = t.output)) ∧
    (∀ (sink sink' : Sink) (buffer : Bytes) (ms : List Delivered),
      Follow sink [] ms sink' buffer →
        sink'.output = sink.output ++ ms.flatMap Delivered.wire ∧ buffer = []) ∧
    ∀ (sink : Sink) (v : Version) (r : Response),
      ∃ n, let t := (start sink [] v r).run (.replicate n (.writer sink.behaviour))
        Writer.write sink [] v r = (t.writer, t.result) := by
  refine ⟨exact_run, ?_, fun n k cs => ?_, ?_, fun sink sink' buffer ms h => h.output rfl,
    fun sink v r => write_eq sink [] v r⟩
  · intro sink v r turns t hturns hgone
    exact ⟨t.load + 1, fun later hlater hn => result_run hturns hlater hgone hn⟩
  · obtain ⟨hbytes, hverdict, hfails⟩ := Channel.create_brings n k cs
    exact ⟨⟨hbytes, hverdict⟩, hfails⟩
  · intro sink v s hs b cs k turns turns' t t' hcs hsent hr
    subst hcs
    obtain ⟨hbytes, hverdict, -⟩ := Channel.create_brings cs.flatten.length k cs
    have hexact := exact_run sink v ⟨s, hs, .strict cs.flatten⟩ turns
    have hexact' := exact_run sink v ⟨s, hs, .streaming (.create cs.flatten.length k)⟩ turns'
    rw [if_neg (Nat.lt_irrefl _)] at hverdict
    constructor
    · intro why hwhy
      obtain ⟨-, houtcome⟩ := hexact'.entity why hwhy
      rw [hsent] at houtcome
      simp only [Entity.outcome, hverdict, reduceCtorEq] at houtcome
    · intro hr'
      obtain ⟨hout', -⟩ := hexact'.ok hr'
      rw [hsent] at hout'
      calc t'.output
        _ = sink.output ++ (Response.encodeHead v s hs ++
            (Channel.create cs.flatten.length k).bytes (cs.map .ok)) := hout'
        _ = sink.output ++ (Response.encodeHead v s hs ++ cs.flatten) := by rw [hbytes]
        _ = t.output := (hexact.ok hr).1.symm

/-- A sink that takes one byte at a time, and puts each of them off once. -/
def stingy : SinkBehaviour := ⟨some 1, none, none, none, none, true⟩

/-- The bytes `ab` are sent in three chunks, one of them empty; the last one does not find room at
once. -/
def threeChunks : List Turn :=
  [.sender (.send [97])] ++ .replicate 45 (.writer stingy) ++ [.sender (.send []),
    .sender (.send [98]), .writer stingy, .sender (.send [98])] ++
    .replicate 6 (.writer stingy) ++ [.sender .hangUp]

def oneWrite : List Turn := .replicate 4 (.writer .willing)

lemma faultless_threeChunks : ∀ turn ∈ threeChunks, turn.Faultless := by
  rintro (b | a) hturn
  · obtain rfl : b = stingy := by simpa [threeChunks] using hturn
    exact ⟨by decide, rfl, rfl, rfl⟩
  · trivial

theorem transfers_exact_threeChunks :
    let sink := Sink.ofBehaviour .willing
    let r : Response := ⟨.ok, [], .streaming (.create 2 1)⟩
    let turns := threeChunks ++ .replicate 2 (.writer stingy)
    let before := (start sink [] .http10 r).run threeChunks
    let t := (start sink [] .http10 r).run turns
    let t' := (start sink [] .http10 ⟨.ok, [], .strict [97, 98]⟩).run oneWrite
    (∀ turn ∈ threeChunks, turn.Faultless) ∧ before.Gone ∧ before.result = none ∧
      (∃ n, ∀ later : List Turn, (∀ turn ∈ later, turn.Faultless) →
        n ≤ later.countP Turn.isWriter → (before.run later).result = some (.ok ())) ∧
      t.sent = [[97], [], [98]].map .ok ∧ t'.result = some (.ok ()) ∧ t.result = some (.ok ()) ∧
      t.output = t'.output := by
  intro sink r turns before t t'
  obtain ⟨-, hends, -, hsame, -⟩ := transfers_exact
  have hgone : before.Gone := by
    have hbody : before.body.all (!·.sending) = true := by decide +kernel
    intro c hc
    simpa [hc] using hbody
  have hnone : before.result = none := by decide +kernel
  have hbefore : before.sent = [[97], [], [98]].map .ok := by decide +kernel
  have hsent : t.sent = [[97], [], [98]].map .ok := by decide +kernel
  have hr' : t'.result = some (.ok ()) := by decide +kernel
  have hr : t.result = some (.ok ()) := by decide +kernel
  obtain ⟨n, hn⟩ := hends sink .http10 r threeChunks faultless_threeChunks hgone
  refine ⟨faultless_threeChunks, hgone, hnone, ⟨n, fun later hlater hle => ?_⟩, hsent, hr', hr, ?_⟩
  · obtain ⟨-, hresult⟩ := hn later hlater hle
    rw [hbefore] at hresult
    exact hresult
  · exact (hsame sink .http10 .ok [] [97, 98] [[97], [], [98]] 1 oneWrite turns rfl hsent hr').2 hr

end Transfer

end Http1
