import Mathlib.Data.List.Induction
import Http1.Proofs.Replying

/-!
An entity that is cut short.

The bytes end in the middle of an entity, or the transport fails there. The intake ends with an
error, and leaves one in the channel if there is room for it; a receiver who does not find it there
finds too few bytes. Main statement: a service that reads the entity to its end receives all that
has come, then one error, and then answers, whatever the order of steps.
-/

namespace Http1

open Channel (Reception)

namespace Channel

/-- What the receiver finds behind the chunks in a channel, when the bytes of its entity end after
`r` of `n`: the failure of the transport if there is room to record it, and else that bytes are
missing. -/
def lastWord (c : Channel) (n r : Nat) : Option TransportError → EntityError
  | some e => if c.queue.length < c.capacity then .transport e else .truncated n r
  | none => .truncated n r

/-- The sender has left the channel of an entity of `n` bytes behind `given`, which is not all of
it. The receiver has received `got`, and will find `why` behind the rest. -/
structure Cut (n : Nat) (given got : Bytes) (why : EntityError) (c : Channel) : Prop where
  length : c.length = n
  remaining : c.remaining = n - got.length
  queue : ∃ q : List Bytes, got ++ q.flatten = given ∧
    (c.queue = q.map .ok ++ [.error why] ∨ c.queue = q.map .ok ∧ why = .truncated n given.length)
  sending : c.sending = false
  finished : c.finished = false
  short : given.length < n

variable {n : Nat} {given got : Bytes} {why : EntityError} {c : Channel}

lemma poll_of_error {q : List (Except EntityError Bytes)} (hf : c.finished = false)
    (hq : c.queue = .error why :: q) : c.poll.1 = .failed why ∧ c.poll.2.finished = true := by
  unfold poll
  rw [if_neg (by simp [hf])]
  split <;> rename_i hq' <;> rw [hq] at hq' <;> simp at hq'
  obtain ⟨rfl, rfl⟩ := hq'
  exact ⟨rfl, rfl⟩

lemma poll_of_short (hf : c.finished = false) (hq : c.queue = []) (hs : c.sending = false)
    (hr : c.remaining ≠ 0) :
    c.poll.1 = .failed (.truncated c.length (c.length - c.remaining)) ∧
      c.poll.2.finished = true := by
  unfold poll
  rw [if_neg (by simp [hf])]
  split <;> rename_i hq' <;> rw [hq] at hq' <;> simp at hq'
  rw [if_neg (by simp [hs]), if_neg hr]
  exact ⟨rfl, rfl⟩

lemma Carries.cut (h : c.Carries n given got) (hs : c.sending = true) (hr : c.receiving = true)
    (hn : given.length < n) : c.hangUp.Cut n given got (.truncated n given.length) := by
  obtain ⟨q, hq, hall⟩ := h.queue hr
  exact {
    length := h.length
    remaining := h.remaining
    queue := ⟨q, hall, .inr ⟨hq, rfl⟩⟩
    sending := rfl
    finished := h.unfinished hs
    short := hn }

lemma Carries.cut_abort (h : c.Carries n given got) (hs : c.sending = true)
    (hr : c.receiving = true) (hn : given.length < n) (e : TransportError) :
    (c.abort (.transport e)).hangUp.Cut n given got (c.lastWord n given.length (some e)) := by
  obtain ⟨q, hq, hall⟩ := h.queue hr
  by_cases hroom : c.queue.length < c.capacity
  · rw [abort_of_admits ⟨not_deaf_iff.2 ⟨hs, hr⟩, hroom⟩, lastWord, if_pos hroom]
    exact {
      length := h.length
      remaining := h.remaining
      queue := ⟨q, hall, .inl (by rw [← hq]; rfl)⟩
      sending := rfl
      finished := h.unfinished hs
      short := hn }
  · rw [abort_of_not_admits fun hadmits => hroom hadmits.2, lastWord, if_neg hroom]
    exact h.cut hs hr hn

/-- **A receiver who looks** finds the next chunk, or behind the last one the error. -/
lemma Cut.poll (h : c.Cut n given got why) :
    (∃ b, c.poll.1 = .chunk b ∧ c.poll.2.Cut n given (got ++ b) why) ∨
      (c.poll.1 = .failed why ∧ got = given ∧ c.poll.2.finished = true) := by
  obtain ⟨_ | ⟨b, q⟩, hall, hqueue⟩ := h.queue
  · have hgot : got = given := by simpa using hall
    rcases hqueue with hq | ⟨hq, rfl⟩
    · obtain ⟨hp, hfin⟩ := poll_of_error h.finished hq
      exact .inr ⟨hp, hgot, hfin⟩
    · have hshort := h.short
      have hrem := h.remaining
      rw [hgot] at hrem
      have hcount : n - c.remaining = given.length := by omega
      obtain ⟨hp, hfin⟩ := poll_of_short h.finished hq h.sending (by omega)
      rw [h.length, hcount] at hp
      exact .inr ⟨hp, hgot, hfin⟩
  · obtain ⟨q', hq'⟩ : ∃ q', c.queue = .ok b :: q' ∧ (q' = q.map .ok ++ [.error why] ∨
        q' = q.map .ok ∧ why = .truncated n given.length) := by
      rcases hqueue with hq | ⟨hq, hwhy⟩
      · exact ⟨_, hq, .inl rfl⟩
      · exact ⟨_, hq, .inr ⟨rfl, hwhy⟩⟩
    obtain ⟨hchunk, hlength, hremaining, hrest, hsending, -, hfinished⟩ :=
      poll_of_chunk h.finished hq'.1
    refine .inl ⟨b, hchunk, ?_⟩
    exact {
      length := hlength.trans h.length
      remaining := by rw [hremaining, h.remaining, List.length_append, Nat.sub_sub]
      queue := ⟨q, by simpa using hall, hrest ▸ hq'.2⟩
      sending := hsending.trans h.sending
      finished := hfinished
      short := h.short }

end Channel

/-- A plan that reads its stream to the end, and answers a failure that it finds there with an
entity at hand. -/
structure Plan.Awaits (p : Plan) (ρ : List Bytes → EntityError → Reaction) : Prop where
  early : ∀ got, p.early got = none
  final : ∀ got e, p.final got (some e) = (ρ got e).answer

/-- What is reported when the bytes of an entity end after `r` of `n`. -/
def ConnectionError.ofCut (n r : Nat) : Option TransportError → ConnectionError
  | some e => .transport e
  | none => .entity (.truncated n r)

lemma Assembly.channel?_onChannel (a : Assembly) (f : Channel → Channel) :
    (a.onChannel f).channel? = a.channel?.map f := by
  cases h : a.entity <;> simp [channel?, onChannel, h]

namespace Exchange

variable {l : Lexicon} {n : Nat} {b given : Bytes} {fate : Option TransportError} {p : Plan}
  {ρ : List Bytes → EntityError → Reaction} {v : Version} {sink : Sink} {got : List Bytes}
  {r : Receiving} {c : Channel} {x y : Exchange} {ps : List Party}

/-! ### The failure -/

/-- At some point of the run the intake fails, with this channel before it. -/
def FailsAt (x : Exchange) (ps : List Party) (c : Channel) : Prop :=
  ∃ before later e, ps = before ++ .intake :: later ∧ (x.run before).intake = .reading ∧
    (x.run before).assembly.channel? = some c ∧
    (x.run (before ++ [.intake])).intake = .ended (.error e)

lemma FailsAt.append (h : x.FailsAt ps c) (qs : List Party) : x.FailsAt (ps ++ qs) c := by
  obtain ⟨before, later, e, rfl, hbefore⟩ := h
  exact ⟨before, later ++ qs, e, by simp, hbefore⟩

/-- **The intake fails** when the bytes run out, and leaves the channel cut short. -/
lemma Carried.cut (h : Carried l n b fate given got r x) (hi : x.intake = .reading)
    (hd : x.assembly.done = false) (hout : x.RunsOut n b fate given)
    (hr : r.channel.receiving = true) :
    ∃ c, (x.after .intake).intake = .ended (.error (.ofCut n b.length fate)) ∧
      (x.after .intake).assembly.channel? = some c ∧
      c.Cut n b got.flatten (r.channel.lastWord n b.length fate) := by
  obtain ⟨rfl, hshort, hwhy⟩ := hout
  have hsend := h.sending_true hd
  have hchannel := h.channel?_eq
  rcases hwhy with ⟨rfl, r', hp⟩ | ⟨e, rfl, r', hp⟩
  · have hreceived : r.received = given.length := by
      rw [h.received, inHand, hi, List.append_nil]
    have htruncated : cutShort x.assembly = .entity (.truncated n given.length) := by
      simp [cutShort, Assembly.truncated?, hd, h.entity, h.carries.length, hreceived]
    have hstep : x.step .intake =
        .moved (endIntake { x with reader := r' } (.error (cutShort x.assembly))) := by
      simp [step, Exchange.stepIntake, hi, hd, hp, sayUnparsed]
    rw [after_of_moved hstep, htruncated]
    refine ⟨r.channel.hangUp, rfl, ?_, h.carries.cut hsend hr hshort⟩
    rw [endIntake, Assembly.drop, Assembly.channel?_onChannel, hchannel]
    rfl
  · have hstep : x.step .intake = .moved (endIntake { x with
        reader := r'
        assembly := x.assembly.abort (.transport e) } (.error (.transport e))) := by
      simp [step, Exchange.stepIntake, hi, hd, hp]
    have habort : x.assembly.abort (.transport e) =
        x.assembly.onChannel (·.abort (.transport e)) := by
      simp [Assembly.abort, hd]
    rw [after_of_moved hstep, habort]
    refine ⟨(r.channel.abort (.transport e)).hangUp, rfl, ?_,
      h.carries.cut_abort hsend hr hshort e⟩
    rw [endIntake, Assembly.drop, Assembly.channel?_onChannel, Assembly.channel?_onChannel,
      hchannel]
    rfl

/-! ### The service -/

/-- The service carries out its plan, has received `got`, and has written nothing. -/
structure Poised (p : Plan) (v : Version) (sink : Sink) (got : List Bytes) (x : Exchange) :
    Prop where
  service : x.service = .planning p got
  version : x.version = v
  sink : x.sink = sink
  buffer : x.buffer = []

namespace Poised

lemma same (h : Poised p v sink got x) (hs : y.SameService x) : Poised p v sink got y :=
  ⟨hs.1.trans h.service, hs.2.2.2.trans h.version, hs.2.1.trans h.sink, hs.2.2.1.trans h.buffer⟩

lemma look_pending (h : Poised p v sink got x) (he : p.early got = none)
    (hc : x.assembly.channel? = some c) (hp : c.poll.1 = .pending) :
    x.after .service = x ∧ x.sight .service = [] := by
  rcases hpoll : c.poll with ⟨what, c'⟩
  obtain rfl : what = .pending := by rw [← hp, hpoll]
  have hstuck : x.stepService = .stuck := by simp [stepService, h.service, he, hc, hpoll]
  exact ⟨after_of_stuck (p := .service) hstuck, sight_of_stuck hstuck⟩

lemma looksAt_eq (h : Poised p v sink got x) (he : p.early got = none)
    (hc : x.assembly.channel? = some c) : x.looksAt = some c := by
  simp [looksAt, h.service, he, hc]

lemma look_chunk (h : Poised p v sink got x) (he : p.early got = none)
    (hc : x.assembly.channel? = some c) {chunk : Bytes} (hp : c.poll.1 = .chunk chunk) :
    x.sight .service = [.chunk chunk] ∧ Poised p v sink (got ++ [chunk]) (x.after .service) ∧
      (x.after .service).reader = x.reader ∧ (x.after .service).intake = x.intake ∧
      (x.after .service).assembly = x.assembly.onChannel fun _ => c.poll.2 := by
  refine ⟨by simp [sight, h.looksAt_eq he hc, hp], ?_⟩
  rcases hpoll : c.poll with ⟨what, c'⟩
  obtain rfl : what = .chunk chunk := by rw [← hp, hpoll]
  have hstep : x.step .service = .moved { x with
      assembly := x.assembly.onChannel fun _ => c'
      service := .planning p (got ++ [chunk]) } := by
    simp [step, stepService, h.service, he, hc, hpoll]
  rw [after_of_moved hstep]
  exact ⟨⟨rfl, h.version, h.sink, h.buffer⟩, rfl, rfl, rfl⟩

lemma look_failed (h : Poised p v sink got x) (he : p.early got = none)
    (hc : x.assembly.channel? = some c) {e : EntityError} (hp : c.poll.1 = .failed e) :
    x.sight .service = [.failed e] ∧
      x.after .service = Exchange.answer
        { x with assembly := x.assembly.onChannel fun _ => c.poll.2 } (p.final got (some e)) := by
  refine ⟨by simp [sight, h.looksAt_eq he hc, hp], ?_⟩
  rcases hpoll : c.poll with ⟨what, c'⟩
  obtain rfl : what = .failed e := by rw [← hp, hpoll]
  exact after_of_moved (by simp [step, stepService, h.service, he, hc, hpoll])

end Poised

lemma answer_leaves (x : Exchange) (ρ : Reaction) :
    (x.answer ρ.answer).intake = x.intake ∧
      (x.answer ρ.answer).assembly = x.assembly.onChannel Channel.leave := by
  cases ρ <;> exact ⟨rfl, rfl⟩

lemma Replies.after_concluded {ρ : Reaction} {out : Bytes} (h : Replies p ρ v out x)
    (hc : Concluded x.service) :
    Replies p ρ v out (x.after .service) ∧ (x.after .service).intake = x.intake ∧
      ((x.after .service).assembly = x.assembly ∨
        (x.after .service).assembly = x.assembly.onChannel Channel.leave) := by
  rcases hs : x.service with ⟨q, chunks⟩ | ⟨stage, body⟩ | result
  · rw [hs] at hc
    exact hc.elim
  · have hservice := h.service
    rw [hs] at hservice
    obtain ⟨rfl, -⟩ := hservice
    refine ⟨after_of_all (p := .service) (h.step_writing hs) h,
      after_of_all (p := .service) (P := fun y => y.intake = x.intake ∧ (y.assembly = x.assembly ∨
        y.assembly = x.assembly.onChannel Channel.leave)) ?_ ⟨rfl, .inl rfl⟩⟩
    simp only [step, stepService, hs]
    split
    · exact ⟨rfl, .inl rfl⟩
    · exact ⟨rfl, .inl rfl⟩
    · trivial
    · exact ⟨rfl, .inr rfl⟩
  · rw [after_of_stuck (p := .service) (by simp [step, stepService, hs])]
    exact ⟨h, rfl, .inl rfl⟩

/-! ### The entity is coming -/

/-- Too little of the entity is coming, and the service has received `got` of it. -/
structure Coming (l : Lexicon) (n : Nat) (b : Bytes) (fate : Option TransportError) (p : Plan)
    (v : Version) (sink : Sink) (got : List Bytes) (x : Exchange) : Prop where
  short : b.length < n
  carried : ∃ given r, Carried l n b fate given got r x ∧ r.channel.receiving = true
  poised : Poised p v sink got x

/-- The intake has failed. The service has received `got`, and will find `why` behind the rest. -/
structure Failed (n : Nat) (b : Bytes) (fate : Option TransportError) (p : Plan) (v : Version)
    (sink : Sink) (got : List Bytes) (why : EntityError) (x : Exchange) : Prop where
  intake : x.intake = .ended (.error (.ofCut n b.length fate))
  cut : ∃ c, x.assembly.channel? = some c ∧ c.Cut n b got.flatten why
  poised : Poised p v sink got x

/-- The intake has failed. The service has come to the end of the stream, and answers. -/
structure Answered (n : Nat) (b : Bytes) (fate : Option TransportError) (p : Plan) (ρ : Reaction)
    (v : Version) (out : Bytes) (x : Exchange) : Prop where
  intake : x.intake = .ended (.error (.ofCut n b.length fate))
  finished : ∃ c, x.assembly.channel? = some c ∧ c.finished = true
  replies : Replies p ρ v out x
  concluded : Concluded x.service

lemma Carried.not_done (h : Carried l n b fate given got r x) (hshort : b.length < n) :
    x.assembly.done = false := by
  rcases hd : x.assembly.done with _ | _
  · rfl
  · have hlen := h.given_length hd
    have hle := ((List.prefix_append ..).trans h.begins).length_le
    omega

lemma Carried.poll_unfinished (h : Carried l n b fate given got r x) (hshort : b.length < n)
    (hr : r.channel.receiving = true) :
    (r.channel.poll.1 = .pending ∧ r.channel.queue = []) ∨
      ∃ chunk, r.channel.poll.1 = .chunk chunk ∧
        r.channel.poll.2.Carries n given (got ++ [chunk]).flatten ∧
        r.channel.poll.2.sending = r.channel.sending ∧ r.channel.poll.2.receiving = true := by
  rcases h.carries.poll hr with ⟨hpoll, -, hempty⟩ | ⟨chunk, hpoll, -, hcar, -, hsend, hrec⟩ |
    ⟨-, -, hcar, hfin, hsend, -⟩
  · exact .inl ⟨hpoll, hempty⟩
  · exact .inr ⟨chunk, hpoll, by simpa using hcar, hsend, hrec⟩
  · -- a clean end needs a sender who is done
    have hgone := (hcar.finished hfin).2
    rw [hsend, h.sending_true (h.not_done hshort)] at hgone
    cases hgone

namespace Coming

lemma begins (h : Coming l n b fate p v sink got x) : got.flatten <+: b := by
  obtain ⟨given, r, hcar, -⟩ := h.carried
  exact hcar.carries.begins.trans ((List.prefix_append ..).trans hcar.begins)

lemma after_intake (h : Coming l n b fate p v sink got x) :
    Coming l n b fate p v sink got (x.after .intake) ∨
      x.intake = .reading ∧ ∃ c, x.assembly.channel? = some c ∧
        Failed n b fate p v sink got (c.lastWord n b.length fate) (x.after .intake) := by
  obtain ⟨hshort, ⟨given, r, hcar, hrec⟩, hpoised⟩ := h
  have hpoised' := hpoised.same x.after_intake_sameService
  rcases hcar.stepIntake with ⟨y, given', r', hstep, hcar', hrec', -⟩ | ⟨hstuck, -⟩ | ⟨hi, hd, hout⟩
  · have hy : x.after .intake = y :=
      hstep.elim (after_of_moved (p := .intake)) (after_of_yielded (p := .intake))
    rw [← hy] at hcar'
    exact .inl ⟨hshort, ⟨given', r', hcar', hrec'.trans hrec⟩, hpoised'⟩
  · rw [after_of_stuck (p := .intake) hstuck] at hpoised' ⊢
    exact .inl ⟨hshort, ⟨given, r, hcar, hrec⟩, hpoised'⟩
  · obtain ⟨c, hi', hc, hcut⟩ := hcar.cut hi hd hout hrec
    exact .inr ⟨hi, r.channel, hcar.channel?_eq, hi', ⟨c, hc, hcut⟩, hpoised'⟩

lemma after_service (h : Coming l n b fate p v sink got x) (hp : p.Awaits ρ) :
    (x.sight .service = [] ∧ Coming l n b fate p v sink got (x.after .service)) ∨
      ∃ chunk, x.sight .service = [.chunk chunk] ∧
        Coming l n b fate p v sink (got ++ [chunk]) (x.after .service) := by
  obtain ⟨hshort, ⟨given, r, hcar, hrec⟩, hpoised⟩ := h
  rcases hcar.poll_unfinished hshort hrec with ⟨hpoll, -⟩ | ⟨chunk, hpoll, hcar', hsend, hrec'⟩
  · obtain ⟨hsame, hsight⟩ := hpoised.look_pending (hp.early got) hcar.channel?_eq hpoll
    rw [hsame]
    exact .inl ⟨hsight, hshort, ⟨given, r, hcar, hrec⟩, hpoised⟩
  · obtain ⟨hsight, hpoised', hreader, hintake, hassembly⟩ :=
      hpoised.look_chunk (hp.early got) hcar.channel?_eq hpoll
    exact .inr ⟨chunk, hsight, hshort, ⟨given, { r with channel := r.channel.poll.2 },
      hcar.onChannel (f := fun _ => r.channel.poll.2) hcar' hsend hreader hintake hassembly,
      hrec'⟩, hpoised'⟩

lemma not_atRest (h : Coming l n b fate p v sink got x) (hp : p.Awaits ρ) : ¬ x.AtRest := by
  intro hrest
  obtain ⟨hshort, ⟨given, r, hcar, hrec⟩, hpoised⟩ := h
  have hstuck : x.stepIntake = .stuck := hrest .intake
  rcases hcar.stepIntake with ⟨y, -, -, hstep, -⟩ | ⟨-, ⟨-, hdone⟩ | ⟨-, hqueue⟩⟩ | ⟨hi, hd, hout⟩
  · rcases hstep with hstep | hstep <;> simp [hstuck] at hstep
  · simp [hcar.not_done hshort] at hdone
  · -- there is something in the queue, so the service receives it
    rcases hcar.poll_unfinished hshort hrec with ⟨-, hempty⟩ | ⟨chunk, hpoll, -⟩
    · exact hqueue hempty
    · have hsight := (hpoised.look_chunk (hp.early got) hcar.channel?_eq hpoll).1
      rw [sight_of_stuck (hrest .service)] at hsight
      cases hsight
  · obtain ⟨-, hi', -⟩ := hcar.cut hi hd hout hrec
    rw [after_of_stuck (hrest .intake), hi] at hi'
    cases hi'

end Coming

/-! ### The intake has failed -/

lemma after_intake_ended {result : Except ConnectionError Unit} (h : x.intake = .ended result) :
    x.after .intake = x :=
  after_of_stuck (p := .intake) (by simp [step, stepIntake, h])

variable {why : EntityError}

namespace Failed

lemma begins (h : Failed n b fate p v sink got why x) : got.flatten <+: b := by
  obtain ⟨c, -, hcut⟩ := h.cut
  obtain ⟨q, hq, -⟩ := hcut.queue
  exact ⟨q.flatten, hq⟩

lemma after_service (h : Failed n b fate p v sink got why x) (hp : p.Awaits ρ)
    (hf : sink.behaviour.Faultless) :
    (∃ chunk, x.sight .service = [.chunk chunk] ∧
      Failed n b fate p v sink (got ++ [chunk]) why (x.after .service)) ∨
      x.sight .service = [.failed why] ∧ got.flatten = b ∧
        Answered n b fate p (ρ got why) v sink.output (x.after .service) := by
  obtain ⟨hi, ⟨c, hc, hcut⟩, hpoised⟩ := h
  rcases hcut.poll with ⟨chunk, hpoll, hcut'⟩ | ⟨hpoll, hall, hfin⟩
  · obtain ⟨hsight, hpoised', -, hintake, hassembly⟩ :=
      hpoised.look_chunk (hp.early got) hc hpoll
    refine .inl ⟨chunk, hsight, hintake.trans hi, ⟨c.poll.2, ?_, by simpa using hcut'⟩, hpoised'⟩
    rw [hassembly, Assembly.channel?_onChannel, hc]
    rfl
  · obtain ⟨hsight, hafter⟩ := hpoised.look_failed (hp.early got) hc hpoll
    rw [hp.final] at hafter
    obtain ⟨y, hy⟩ : ∃ y : Exchange, y = { x with
      assembly := x.assembly.onChannel fun _ => c.poll.2 } := ⟨_, rfl⟩
    rw [← hy] at hafter
    obtain ⟨hintake, hassembly⟩ := answer_leaves y (ρ got why)
    obtain ⟨hservice, -, -⟩ := answer_reaction y (ρ got why)
    refine .inr ⟨hsight, hall, ?_⟩
    rw [hafter]
    subst hy
    exact {
      intake := hintake.trans hi
      finished := by
        rw [hassembly, Assembly.channel?_onChannel, Assembly.channel?_onChannel, hc]
        exact ⟨c.poll.2.leave, rfl, hfin⟩
      replies := Replies.answer hpoised.version (by rw [hpoised.sink]; exact hf)
        (by rw [hpoised.sink]) hpoised.buffer
      concluded := by
        rw [hservice]
        trivial }

lemma not_atRest (h : Failed n b fate p v sink got why x) (hp : p.Awaits ρ)
    (hf : sink.behaviour.Faultless) : ¬ x.AtRest := by
  intro hrest
  have hblind := sight_of_stuck (hrest .service)
  rcases h.after_service hp hf with ⟨chunk, hsight, -⟩ | ⟨hsight, -⟩ <;>
    rw [hblind] at hsight <;> cases hsight

end Failed

namespace Answered

variable {ρ : Reaction} {out : Bytes}

lemma after_service (h : Answered n b fate p ρ v out x) :
    x.sight .service = [] ∧ Answered n b fate p ρ v out (x.after .service) := by
  obtain ⟨hi, ⟨c, hc, hfin⟩, hreplies, hconcluded⟩ := h
  obtain ⟨hsight, hconcluded'⟩ := concluded_after hconcluded .service
  obtain ⟨hreplies', hintake, hassembly⟩ := hreplies.after_concluded hconcluded
  refine ⟨hsight, hintake.trans hi, ?_, hreplies', hconcluded'⟩
  rcases hassembly with hassembly | hassembly <;> rw [hassembly]
  · exact ⟨c, hc, hfin⟩
  · rw [Assembly.channel?_onChannel, hc]
    exact ⟨c.leave, rfl, hfin⟩

/-- When neither party can move, the response is written, and the failure is the result. -/
lemma atRest (h : Answered n b fate p ρ v out x) (hrest : x.AtRest) :
    x.result? = some (.error (.ofCut n b.length fate)) ∧ x.sink.output = out ++ ρ.wire v := by
  have hservice := h.replies.service
  have hconcluded := h.concluded
  rcases stuck_cases (hrest .service) with (⟨result, hs⟩ | ⟨d, hs⟩) | ⟨d, hlook, -⟩
  · rw [hs] at hservice
    exact ⟨by simp [result?, h.intake, hs], hservice.2.1⟩
  · simp [hs] at hservice
  · rcases hs : x.service with ⟨q, chunks⟩ | ⟨stage, body⟩ | result
    · rw [hs] at hconcluded
      exact hconcluded.elim
    · rw [hs] at hservice
      obtain ⟨rfl, -⟩ := hservice
      simp [looksAt, hs] at hlook
    · simp [looksAt, hs] at hlook

end Answered

/-! ### The run -/

/-- Where a run from `x` stands, by what the service has seen. -/
inductive Breaks (l : Lexicon) (n : Nat) (b : Bytes) (fate : Option TransportError) (p : Plan)
    (ρ : List Bytes → EntityError → Reaction) (v : Version) (sink : Sink) (x : Exchange)
    (ps : List Party) : Prop where
  | coming {got : List Bytes} : Coming l n b fate p v sink got (x.run ps) →
      x.seen ps = got.map .chunk → Breaks l n b fate p ρ v sink x ps
  | failed {got : List Bytes} {c : Channel} : x.FailsAt ps c →
      Failed n b fate p v sink got (c.lastWord n b.length fate) (x.run ps) →
      x.seen ps = got.map .chunk → Breaks l n b fate p ρ v sink x ps
  | told {got : List Bytes} {c : Channel} : x.FailsAt ps c → got.flatten = b →
      Answered n b fate p (ρ got (c.lastWord n b.length fate)) v sink.output (x.run ps) →
      x.seen ps = got.map .chunk ++ [.failed (c.lastWord n b.length fate)] →
      Breaks l n b fate p ρ v sink x ps

namespace Breaks

lemma after_intake (h : Breaks l n b fate p ρ v sink x ps) :
    Breaks l n b fate p ρ v sink x (ps ++ [.intake]) := by
  have hrun : x.run (ps ++ [.intake]) = (x.run ps).after .intake := x.run_append ps [.intake]
  have hseen : x.seen (ps ++ [.intake]) = x.seen ps := by
    rw [seen_append]
    exact List.append_nil _
  cases h with
  | coming hcoming hheard =>
    rcases hcoming.after_intake with hcoming' | ⟨hi, c, hc, hfailed⟩
    · exact .coming (hrun ▸ hcoming') (hseen.trans hheard)
    · rw [← hrun] at hfailed
      exact .failed ⟨ps, [], _, rfl, hi, hc, hfailed.intake⟩ hfailed (hseen.trans hheard)
  | failed hfails hfailed hheard =>
    rw [after_intake_ended hfailed.intake] at hrun
    exact .failed (hfails.append _) (hrun ▸ hfailed) (hseen.trans hheard)
  | told hfails hall hanswered hheard =>
    rw [after_intake_ended hanswered.intake] at hrun
    exact .told (hfails.append _) hall (hrun ▸ hanswered) (hseen.trans hheard)

lemma after_service (h : Breaks l n b fate p ρ v sink x ps) (hp : p.Awaits ρ)
    (hf : sink.behaviour.Faultless) : Breaks l n b fate p ρ v sink x (ps ++ [.service]) := by
  have hrun : x.run (ps ++ [.service]) = (x.run ps).after .service := x.run_append ps [.service]
  have hseen : x.seen (ps ++ [.service]) = x.seen ps ++ (x.run ps).sight .service := by
    rw [seen_append]
    exact congrArg _ (List.append_nil _)
  cases h with
  | coming hcoming hheard =>
    rcases hcoming.after_service hp with ⟨hsight, hcoming'⟩ | ⟨chunk, hsight, hcoming'⟩ <;>
      rw [hheard, hsight] at hseen
    · exact .coming (hrun ▸ hcoming') (hseen.trans (List.append_nil _))
    · exact .coming (hrun ▸ hcoming') (by rw [hseen, List.map_append]; rfl)
  | failed hfails hfailed hheard =>
    rcases hfailed.after_service hp hf with
        ⟨chunk, hsight, hfailed'⟩ | ⟨hsight, hall, hanswered⟩ <;>
      rw [hheard, hsight] at hseen
    · exact .failed (hfails.append _) (hrun ▸ hfailed') (by rw [hseen, List.map_append]; rfl)
    · exact .told (hfails.append _) hall (hrun ▸ hanswered) hseen
  | told hfails hall hanswered hheard =>
    obtain ⟨hsight, hanswered'⟩ := hanswered.after_service
    rw [hheard, hsight, List.append_nil] at hseen
    exact .told (hfails.append _) hall (hrun ▸ hanswered') hseen

lemma run (h : Breaks l n b fate p ρ v sink x []) (hp : p.Awaits ρ) (hf : sink.behaviour.Faultless)
    (ps : List Party) : Breaks l n b fate p ρ v sink x ps := by
  induction ps using List.reverseRecOn with
  | nil => exact h
  | append_singleton ps q ih =>
    cases q with
    | intake => exact ih.after_intake
    | service => exact ih.after_service hp hf

end Breaks

/-- In this run the service receives all of `b` in the chunks `got`, and then, once, an error: the
word that the failure has left. Behind it the stream is at its end for good. -/
structure Told (n : Nat) (b : Bytes) (fate : Option TransportError) (x : Exchange)
    (ps : List Party) (got : List Bytes) (why : EntityError) : Prop where
  fails : ∃ c, x.FailsAt ps c ∧ why = c.lastWord n b.length fate
  seen : x.seen ps = got.map .chunk ++ [.failed why]
  all : got.flatten = b
  ended : ∃ c, (x.run ps).assembly.channel? = some c ∧ c.poll = (.ended, c)

/-- An exchange whose entity of `n` bytes ends after `b`, whatever the order of steps. Its service
receives a beginning of `b` in chunks while it goes on with its plan, and else all of it and the
error. When neither party can move, the failure is the result, and the response is written. -/
structure CutShort (n : Nat) (b : Bytes) (fate : Option TransportError)
    (ρ : List Bytes → EntityError → Reaction) (x : Exchange) : Prop where
  heard : ∀ ps,
    (∃ q got, (x.run ps).service = .planning q got ∧ x.seen ps = got.map .chunk ∧
      got.flatten <+: b) ∨ ∃ got why, x.Told n b fate ps got why
  rest : ∀ ps, (x.run ps).AtRest → ∃ got why, x.Told n b fate ps got why ∧
    (x.run ps).result? = some (.error (.ofCut n b.length fate)) ∧
    (x.run ps).sink.output = x.sink.output ++ (ρ got why).wire x.version
  fair : ∀ σ, Fair σ → ∃ k, (x.run (first σ k)).AtRest

lemma Answered.told {ρ : Reaction} {out : Bytes} (h : Answered n b fate p ρ v out (x.run ps))
    (hfails : x.FailsAt ps c) (hall : got.flatten = b)
    (hheard : x.seen ps = got.map .chunk ++ [.failed (c.lastWord n b.length fate)]) :
    x.Told n b fate ps got (c.lastWord n b.length fate) := by
  obtain ⟨d, hd, hfin⟩ := h.finished
  exact ⟨⟨c, hfails, rfl⟩, hheard, hall, d, hd, Channel.poll_of_finished hfin⟩

/-- **An entity that is cut short** is never taken for a complete one. -/
theorem cutShort_opened {r : FrameReader} (capacity : Nat)
    (hr : r.Stands l (.outstanding n) b fate) (hshort : b.length < n) (hp : p.Awaits ρ)
    (hf : sink.behaviour.Faultless) :
    (start v r (.opened capacity n) p sink []).CutShort n b fate ρ := by
  have hstart : Breaks l n b fate p ρ v sink (start v r (.opened capacity n) p sink []) [] :=
    .coming ⟨hshort, ⟨[], _, carried_start hr, rfl⟩, rfl, rfl, rfl, rfl⟩ rfl
  refine ⟨fun ps => ?_, fun ps hrest => ?_, fun σ hσ => exists_atRest hσ _⟩
  · cases hstart.run hp hf ps with
    | coming hcoming hheard =>
      exact .inl ⟨p, _, hcoming.poised.service, hheard, hcoming.begins⟩
    | failed _ hfailed hheard =>
      exact .inl ⟨p, _, hfailed.poised.service, hheard, hfailed.begins⟩
    | told hfails hall hanswered hheard =>
      exact .inr ⟨_, _, hanswered.told hfails hall hheard⟩
  · cases hstart.run hp hf ps with
    | coming hcoming => exact absurd hrest (hcoming.not_atRest hp)
    | failed _ hfailed => exact absurd hrest (hfailed.not_atRest hp hf)
    | told hfails hall hanswered hheard =>
      exact ⟨_, _, hanswered.told hfails hall hheard, hanswered.atRest hrest⟩

end Exchange

end Http1
