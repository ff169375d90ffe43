import Http1.Proofs.Amid
import Http1.Proofs.Course
import Http1.Proofs.Retention

/-!
What is buffered of an entity.

Bytes that have been read are held by the framing, by the intake as the chunk in hand, and by the
channel. A framing that is given bytes only when it has no frame holds the end of the last read,
within an entity the last read and no more, and a chunk is a part of what it holds. So the chunk
in hand and the framing share one read, and each chunk in the channel comes of another. Main
statement: nothing more is buffered, and nothing is read while a chunk is in hand.
-/

namespace Http1

open Framing (Fed)

variable {l : Lexicon} {n R : Nat} {b : Bytes}

/-! ### What a reader holds -/

namespace Source

def Within (R : Nat) (s : Source) : Prop := ∀ b, Arrival.bytes b ∈ s → b.length ≤ R

lemma Within.of_suffix {s t : Source} (h : s.Within R) (ht : t <:+ s) : t.Within R :=
  fun b hb => h b (ht.subset hb)

lemma Within.of_read {s t : Source} {q : Read} (h : s.Within R) (hs : s.read = (q, t)) :
    t.Within R :=
  h.of_suffix (suffix_of_read hs)

end Source

namespace FrameReader

variable {r r' : FrameReader}

/-- The bytes that have been read and not been handed on. -/
def held (r : FrameReader) : Nat :=
  match r.state with
  | .live f => f.held
  | _ => 0

lemma held_of (s : Source) (p : Phase) (b : Bytes) :
    held ⟨s, .of (Framing.build l p b)⟩ ≤ b.length := by
  rcases hb : Framing.build l p b with e | f
  · exact Nat.zero_le _
  · exact Framing.held_build_le hb

/-- The reader has been given reads of `R` bytes at most, each when it had no frame. -/
structure Supplied (l : Lexicon) (R : Nat) (r : FrameReader) : Prop where
  within : r.source.Within R
  fed : ∀ f, r.state = .live f → ∃ c : Bytes, c.length ≤ R ∧ Fed l c f

lemma supplied_create {s : Source} (h : s.Within R) : (create s l).Supplied l R :=
  ⟨h, fun _ hf => ReaderState.live.inj hf ▸ ⟨[], Nat.zero_le R, .init⟩⟩

lemma Supplied.arrival (h : r.Supplied l R) (ha : r.arrival? = some r') : r'.Supplied l R := by
  obtain ⟨f, x, c, s, rfl, hf, rfl⟩ := arrival?_eq_some ha
  refine ⟨h.within.of_suffix (List.suffix_cons ..), fun g hg => ?_⟩
  obtain ⟨last, -, hfed⟩ := h.fed f rfl
  exact ⟨x :: c, h.within _ (List.mem_cons_self ..),
    hfed.given _ hf (ReaderState.of_eq_live hg.symm)⟩

lemma Supplied.asked {q : Pull} (h : r.Supplied l R) (ha : r.Asked q r') : r'.Supplied l R := by
  cases ha with
  | spent => exact h
  | malformed => exact ⟨h.within, fun _ hf => by cases hf⟩
  | @frame f frame hl hf =>
    refine ⟨h.within, fun g hg => ?_⟩
    obtain ⟨last, hlast, hfed⟩ := h.fed f hl
    exact ⟨last, hlast, hfed.drained (by rw [hf]; rfl) (ReaderState.of_eq_live hg.symm)⟩
  | waited hl _ hs =>
    exact ⟨h.within.of_read hs, fun g hg => h.fed g (hl.trans hg)⟩
  | ended _ _ hs =>
    exact ⟨h.within.of_read hs, fun _ hf => by cases hf⟩
  | broken _ _ hs =>
    exact ⟨h.within.of_read hs, fun _ hf => by cases hf⟩

lemma Supplied.pull (h : r.Supplied l R) : r.pull.2.Supplied l R := by
  obtain ⟨r', hr', hasked⟩ := exists_asked Supplied.arrival h
  exact hr'.asked hasked

/-- What is held behind a frame is of the last read; behind the start of an entity it is of the
entity. -/
lemma Supplied.behind (h : r.Supplied l R) {frame : Frame} (hp : r.pull = (.frame frame, r')) :
    ∃ p b, b.length ≤ R ∧ r'.state = .of (Framing.build l p b) ∧
      ∀ n, frame = .entityStart n → p = .outstanding n := by
  obtain ⟨s, hs, hasked⟩ := exists_asked Supplied.arrival h
  rw [hp] at hasked
  cases hasked with
  | @frame f _ hl hf =>
    obtain ⟨last, hlast, hfed⟩ := hs.fed f hl
    have hsuffix := (hfed.suffix (by rw [hf]; rfl)).length_le
    refine ⟨f.nextPhase, f.buffer, by omega, ?_, ?_⟩
    · rw [Framing.next, List.append_nil, hfed.reached.lexicon_eq]
    · rintro n rfl
      have hemits := hfed.reached.emits hf
      rcases hp : f.phase with _ | _ | hs | _ | _ <;> rw [hp] at hemits
      · exact hemits.elim
      · exact hemits.elim
      · rw [Framing.nextPhase, hf, hp]
        rfl
      · exact hemits.elim
      · exact hemits.elim

end FrameReader

namespace Session

/-- Before a request is released, an assembly has no entity; the start of an entity releases it
with that. -/
lemma push_of_none {a a' : Assembly} {f : Frame} {p : Assembly.Pushed} (ha : a.entity = none)
    (h : a.push f = (p, a')) :
    p = .refused ∨ (p = .accepted ∧ a'.entity = none ∧ a'.capacity = a.capacity) ∨
      ∃ q, p = .released q ∧ (q.entity.isStreaming → ∃ n, f = .entityStart n ∧
        a'.entity = some ⟨.create n a.capacity, 0⟩ ∧ a'.done = false) := by
  obtain ⟨capacity, line, headers, entity, done⟩ := a
  obtain rfl : entity = none := ha
  rcases done with _ | _
  · cases f with
    | requestLine l =>
      obtain ⟨rfl, rfl⟩ := Prod.mk.inj h
      rcases line with _ | l'
      · exact .inr (.inl ⟨rfl, rfl, rfl⟩)
      · exact .inl rfl
    | header x =>
      rcases line with _ | l <;> obtain ⟨rfl, rfl⟩ := Prod.mk.inj h
      · exact .inl rfl
      · exact .inr (.inl ⟨rfl, rfl, rfl⟩)
    | entityStart n =>
      rcases line with _ | l <;> obtain ⟨rfl, rfl⟩ := Prod.mk.inj h
      · exact .inl rfl
      · exact .inr (.inr ⟨_, rfl, fun _ => ⟨n, rfl, rfl, rfl⟩⟩)
    | entityChunk c => exact .inl (Prod.mk.inj h).1.symm
    | entityEnd =>
      rcases line with _ | l <;> obtain ⟨rfl, rfl⟩ := Prod.mk.inj h
      · exact .inl rfl
      · exact .inr (.inr ⟨_, rfl, by simp [Entity.isStreaming]⟩)
  · exact .inl (Prod.mk.inj h).1.symm

/-- **Where an entity begins**, the reader holds a part of it, and no more than a read. -/
lemma receive_streaming {r r' : FrameReader} (h : r.Supplied l R) {a a' : Assembly} {q : Request}
    (ha : a.entity = none) (hr : receive r a = (.request q a', r')) (hq : q.entity.isStreaming) :
    ∃ n b, r'.Amid l n b ∧ b.length ≤ R ∧ a'.entity = some ⟨.create n a.capacity, 0⟩ ∧
      a'.done = false := by
  have hreceives : Receives r a (.request q a') r' := by
    have hreceive := receive_receives r a
    rwa [hr] at hreceive
  clear hr
  generalize hreceived : Received.request q a' = received at hreceives
  induction hreceives with
  | waits hpull _ ih => exact ih (by simpa [hpull] using h.pull) ha hreceived
  | takes hpull hp hrel href _ ih =>
    rcases push_of_none ha hp with hrefused | ⟨-, hnone, hcap⟩ | ⟨q', hreleased, -⟩
    · exact absurd hrefused href
    · rw [← hcap]
      exact ih (by simpa [hpull] using h.pull) hnone hreceived
    · exact absurd hreleased (hrel q')
  | released hpull hp =>
    obtain ⟨rfl, rfl⟩ := Received.request.inj hreceived
    rcases push_of_none ha hp with hrefused | ⟨haccepted, -⟩ | ⟨q', hreleased, hstart⟩
    · cases hrefused
    · cases haccepted
    · obtain rfl := Assembly.Pushed.released.inj hreleased
      obtain ⟨n, rfl, hentity, hdone⟩ := hstart hq
      obtain ⟨p, b, hlen, hstate, hphase⟩ := h.behind hpull
      rw [hphase n rfl] at hstate
      exact ⟨n, b, hstate, hlen, hentity, hdone⟩
  | refused => cases hreceived
  | failed => cases hreceived
  | ended => cases hreceived

lemma supplied_receive {r : FrameReader} (h : r.Supplied l R) (a : Assembly) :
    (receive r a).2.Supplied l R :=
  (receive_receives r a).induction (P := fun r => r.Supplied l R) (fun _ hr => hr.pull) h

end Session

/-! ### What waits in a channel -/

namespace Channel

def queuedBytes : List (Except EntityError Bytes) → Nat
  | [] => 0
  | .ok chunk :: q => chunk.length + queuedBytes q
  | .error _ :: q => queuedBytes q

def Short (R : Nat) (q : List (Except EntityError Bytes)) : Prop :=
  ∀ chunk, Except.ok chunk ∈ q → chunk.length ≤ R

lemma queuedBytes_le {q : List (Except EntityError Bytes)} (h : Short R q) :
    queuedBytes q ≤ q.length * R := by
  induction q with
  | nil => exact Nat.zero_le _
  | cons item q ih =>
    have hrest := ih fun chunk hc => h chunk (List.mem_cons_of_mem _ hc)
    rw [List.length_cons, Nat.add_mul, Nat.one_mul]
    cases item with
    | ok chunk =>
      have hfirst := h chunk (List.mem_cons_self ..)
      simp only [queuedBytes]
      omega
    | error e =>
      simp only [queuedBytes]
      omega

lemma Short.joined {q q' : List (Except EntityError Bytes)} {chunk : Bytes} (h : Short R q)
    (hc : chunk.length ≤ R) (hq : q' = q ∨ q' = q ++ [.ok chunk]) : Short R q' := by
  intro d hd
  rcases hq with rfl | rfl
  · exact h d hd
  · rcases List.mem_append.1 hd with hd | hd
    · exact h d hd
    · obtain rfl : d = chunk := by simpa using hd
      exact hc

lemma poll_keeps (c : Channel) :
    c.poll.2.capacity = c.capacity ∧ c.poll.2.queue <:+ c.queue := by
  unfold poll
  split
  · exact ⟨rfl, List.suffix_refl _⟩
  · split
    · rename_i hq
      exact ⟨rfl, [_], hq.symm⟩
    · rename_i hq
      exact ⟨rfl, [_], hq.symm⟩
    · split
      · exact ⟨rfl, List.suffix_refl _⟩
      · split <;> exact ⟨rfl, List.suffix_refl _⟩

end Channel

/-! ### What the service does to the channel -/

/-- Of what waits in the channel, nothing has been added, and the rest is as it was. -/
def Assembly.Thinned (a a' : Assembly) : Prop :=
  a'.done = a.done ∧ ∀ r, a.entity = some r → ∃ c : Channel,
    a'.entity = some { r with channel := c } ∧ c.capacity = r.channel.capacity ∧
      c.queue <:+ r.channel.queue

namespace Assembly.Thinned

variable {a a' a'' : Assembly}

lemma refl (a : Assembly) : a.Thinned a :=
  ⟨rfl, fun r hr => ⟨r.channel, hr, rfl, List.suffix_refl _⟩⟩

lemma trans (h : a.Thinned a') (h' : a'.Thinned a'') : a.Thinned a'' := by
  refine ⟨h'.1.trans h.1, fun r hr => ?_⟩
  obtain ⟨c, hc, hcap, hq⟩ := h.2 r hr
  obtain ⟨c', hc', hcap', hq'⟩ := h'.2 _ hc
  exact ⟨c', hc', hcap'.trans hcap, hq'.trans hq⟩

lemma onChannel {f : Channel → Channel}
    (hf : ∀ c, a.channel? = some c → (f c).capacity = c.capacity ∧ (f c).queue <:+ c.queue) :
    a.Thinned (a.onChannel f) := by
  refine ⟨rfl, fun r hr => ⟨f r.channel, by simp [Assembly.onChannel, hr], ?_⟩⟩
  exact hf r.channel (by simp [Assembly.channel?, hr])

lemma leave (a : Assembly) : a.Thinned (a.onChannel Channel.leave) :=
  onChannel fun _ _ => ⟨rfl, List.nil_suffix⟩

lemma poll {c c' : Channel} {what : Channel.Reception} (hc : a.channel? = some c)
    (hp : c.poll = (what, c')) : a.Thinned (a.onChannel fun _ => c') := by
  refine onChannel fun d hd => ?_
  obtain rfl : c = d := Option.some.inj (hc.symm.trans hd)
  have hkeeps := c.poll_keeps
  rwa [hp] at hkeeps

end Assembly.Thinned

lemma Writer.body_of_step {w w' : Writer} {body c : Option Channel}
    (h : w.step body = .moved w' c ∨ w.step body = .yielded w' c) :
    c = body ∨ ∃ d, body = some d ∧ c = some d.poll.2 := by
  by_cases hw : w.stage = .waiting
  · simp only [Writer.step, hw] at h
    rcases body with _ | d
    · simp_all
    · refine .inr ⟨d, rfl, ?_⟩
      rcases hp : d.poll with ⟨what, d'⟩
      cases what <;> simp_all
  · left
    rcases Writer.step_of_not_waiting hw body with ⟨w'', hgo, -⟩ | ⟨w'', result, hgo⟩
    · rcases hgo with hgo | hgo <;> rcases h with h | h <;> simp_all
    · rcases h with h | h <;> simp [hgo] at h

namespace Exchange

variable {x y : Exchange}

lemma thinned_answer (x : Exchange) (a : Answer) : x.assembly.Thinned (x.answer a).assembly := by
  cases a with
  | forward => exact .refl _
  | respond => exact .leave _
  | fail => exact .leave _

/-- **The service adds nothing** to the channel. -/
lemma after_service_thinned (x : Exchange) :
    x.assembly.Thinned (x.after .service).assembly := by
  refine after_service_cases (P := fun y => x.assembly.Thinned y.assembly) (fun y hy => ?_)
    (.refl _)
  cases hy with
  | ready => exact thinned_answer x _
  | bare => exact thinned_answer x _
  | received _ hc hp => exact .poll hc hp
  | heard _ _ hc hp => exact (Assembly.Thinned.poll hc hp).trans (thinned_answer _ _)
  | @wrote stage body w c _ hw =>
    cases body with
    | none => exact .refl _
    | own d => cases c <;> exact .refl _
    | passedOn =>
      rcases Writer.body_of_step hw with rfl | ⟨d, hd, rfl⟩
      · rcases hc : x.bodyChannel .passedOn with _ | c
        · exact .leave _
        · exact .onChannel fun d hd => by
            obtain rfl : c = d := Option.some.inj (hc.symm.trans hd)
            exact ⟨rfl, List.suffix_refl _⟩
      · exact .poll hd (show d.poll = (d.poll.1, d.poll.2) from rfl)
  | finished => exact .leave _

/-! ### What the intake does to it -/

end Exchange

/-- A chunk that is delivered joins the queue, or is dropped; else nothing has changed. -/
lemma Assembly.deliver_queue {a a' : Assembly} {p : Pushed} {r : Receiving} {chunk : Bytes}
    (hr : a.entity = some r) (h : a.deliver chunk = (p, a')) :
    (p = .blocked chunk ∧ a' = a) ∨
      p = .accepted ∧ a'.done = a.done ∧ ∃ c : Channel, a'.entity = some { r with channel := c } ∧
        c.capacity = r.channel.capacity ∧
          (c.queue = r.channel.queue ∨ c.queue = r.channel.queue ++ [.ok chunk]) := by
  unfold deliver at h
  rw [hr] at h
  rcases ho : r.channel.offer chunk with c | _ | _ <;> simp only [ho] at h <;>
    obtain ⟨rfl, rfl⟩ := Prod.mk.inj h
  · obtain ⟨-, rfl⟩ := Channel.admits_of_offer ho
    exact .inr ⟨rfl, rfl, _, rfl, rfl, .inr rfl⟩
  · exact .inl ⟨rfl, rfl⟩
  · exact .inr ⟨rfl, rfl, r.channel, hr, rfl, .inl rfl⟩

namespace Exchange

def queued (x : Exchange) : Nat :=
  (x.assembly.channel?.map fun c => Channel.queuedBytes c.queue).getD 0

def received (x : Exchange) : Nat := (x.assembly.entity.map (·.received)).getD 0

/-- The bytes of the entity that have come and are neither in hand nor in the channel: they have
been delivered to the service or discarded. -/
def gone (x : Exchange) : Nat := x.received - (x.inHand.length + x.queued)

/-- The bytes that have been read and are still there. -/
def buffered (x : Exchange) : Nat := x.reader.held + x.inHand.length + x.queued

/-- The entity is coming: of `t` bytes before the exchange, some have come, some are held by the
framing, and the rest is still to be read. -/
def Arriving (R t : Nat) (r : Receiving) (x : Exchange) : Prop :=
  x.assembly.done = false ∧ (∀ result, x.intake ≠ .ended result) ∧
    ∃ l n b, x.reader.Amid l n b ∧ x.inHand.length + b.length ≤ R ∧
      t = r.received + b.length + x.reader.source.unread

/-- The intake has come to its end, or is about to. -/
def Over (R t : Nat) (r : Receiving) (x : Exchange) : Prop :=
  (x.assembly.done = true ∨ ∃ result, x.intake = .ended result) ∧
    (∀ chunk, x.intake ≠ .holding chunk) ∧ x.reader.held ≤ R ∧
      t ≤ r.received + R + x.reader.source.unread

/-- With a channel for `k` chunks and reads of `R` bytes, no more is buffered than they allow. -/
structure Bounded (R k t : Nat) (r : Receiving) (x : Exchange) : Prop where
  within : x.reader.source.Within R
  entity : x.assembly.entity = some r
  capacity : r.channel.capacity = k
  short : Channel.Short R r.channel.queue
  stands : Arriving R t r x ∨ Over R t r x

variable {k t : Nat} {r : Receiving}

namespace Bounded

lemma facing (h : Bounded R k t r x) (b : SinkBehaviour) : Bounded R k t r (x.facing b) :=
  ⟨h.within, h.entity, h.capacity, h.short, h.stands⟩

lemma after_service (h : Bounded R k t r x) : ∃ r', Bounded R k t r' (x.after .service) := by
  obtain ⟨hreader, hintake, -⟩ := x.after_service_sameIntake
  obtain ⟨hdone, hentity⟩ := x.after_service_thinned
  obtain ⟨c, hc, hcap, hq⟩ := hentity r h.entity
  have hhand : (x.after .service).inHand = x.inHand := by rw [inHand, hintake, inHand]
  refine ⟨{ r with channel := c }, hreader ▸ h.within, hc, hcap.trans h.capacity,
    fun chunk hchunk => h.short chunk (hq.subset hchunk), ?_⟩
  rw [Arriving, Over, hreader, hintake, hdone, hhand]
  exact h.stands

lemma coming (h : Bounded R k t r x) (hd : x.assembly.done = false)
    (hi : ∀ result, x.intake ≠ .ended result) : Arriving R t r x := by
  rcases h.stands with hcoming | ⟨hover, -⟩
  · exact hcoming
  · rcases hover with hdone | ⟨result, hended⟩
    · simp [hd] at hdone
    · exact absurd hended (hi result)

lemma arrival (h : Bounded R k t r x) (hi : x.intake = .reading) (hd : x.assembly.done = false)
    {r' : FrameReader} (ha : x.reader.arrival? = some r') :
    Bounded R k t r { x with reader := r' } := by
  obtain ⟨-, hgoing, l, n, b, hamid, hle, htotal⟩ := h.coming hd (by simp [hi])
  obtain ⟨rfl, y, c, s, hs, hs', hamid'⟩ := hamid.arrival ha
  have hc : (y :: c).length ≤ R := h.within _ (hs ▸ List.mem_cons_self ..)
  refine ⟨?_, h.entity, h.capacity, h.short, .inl ⟨hd, hgoing, l, n, y :: c, hamid', ?_, ?_⟩⟩
  · exact hs' ▸ h.within.of_suffix (hs ▸ List.suffix_cons ..)
  · simpa [inHand, hi] using hc
  · rw [htotal, hs, hs']
    simp only [Source.unread, List.length_nil]
    omega

lemma delivered (h : Bounded R k t r x) {chunk : Bytes} {p : Assembly.Pushed} {a : Assembly}
    (hi : x.intake = .holding chunk) (hdel : x.assembly.deliver chunk = (p, a))
    (hp : ∀ c, p ≠ .blocked c) :
    ∃ r', Bounded R k t r' { x with assembly := a, intake := .reading } := by
  have hhand : x.inHand = chunk := by rw [inHand, hi]
  rcases h.stands with ⟨hd, -, l, n, b, hamid, hle, htotal⟩ | ⟨-, hnone, -⟩
  · rcases Assembly.deliver_queue h.entity hdel with ⟨hblocked, -⟩ | ⟨-, hdone, c, hc, hcap, hq⟩
    · exact absurd hblocked (hp chunk)
    · rw [hhand] at hle
      refine ⟨{ r with channel := c }, h.within, hc, hcap.trans h.capacity,
        h.short.joined (by omega) hq,
        .inl ⟨hdone.trans hd, by simp, l, n, b, hamid, ?_, htotal⟩⟩
      simp only [inHand, List.length_nil]
      omega
  · exact absurd hi (hnone chunk)

lemma pushed_chunk (h : Bounded R k t r x) (hd : x.assembly.done = false) {c b : Bytes}
    {r' : FrameReader} {n : Nat} (hs : r'.source = x.reader.source) (hamid : r'.Amid l n b)
    (hle : c.length + b.length ≤ R)
    (htotal : t = r.received + (c.length + b.length) + x.reader.source.unread)
    {p : Assembly.Pushed} {a : Assembly} (hpush : x.assembly.push (.entityChunk c) = (p, a)) :
    ∃ r₁, (p = .blocked c ∧
        Bounded R k t r₁ { x with reader := r', assembly := a, intake := .holding c }) ∨
      p = .accepted ∧
        Bounded R k t r₁ { x with reader := r', assembly := a, intake := .reading } := by
  have hcount := Assembly.count_entity h.entity c
  have hdel := (Assembly.push_chunk hd c).symm.trans hpush
  rcases Assembly.deliver_queue hcount hdel with ⟨rfl, rfl⟩ | ⟨rfl, hdone, d, hent, hcap, hq⟩
  · refine ⟨_, .inl ⟨rfl, hs ▸ h.within, hcount, h.capacity, h.short,
      .inl ⟨hd, by simp, l, n, b, hamid, hle, ?_⟩⟩⟩
    simp only [hs]
    omega
  · refine ⟨_, .inr ⟨rfl, hs ▸ h.within, hent, hcap.trans h.capacity,
      h.short.joined (by omega) hq, .inl ⟨hdone.trans hd, by simp, l, n, b, hamid, ?_, ?_⟩⟩⟩
    · simp only [inHand, List.length_nil]
      omega
    · simp only [hs]
      omega

lemma ended (h : Bounded R k t r x) {r' : FrameReader} {a : Assembly} {c : Channel}
    (hs : r'.source.Within R) (hheld : r'.held ≤ R) (hle : t ≤ r.received + R + r'.source.unread)
    (ha : a.entity = some { r with channel := c }) (hcap : c.capacity = r.channel.capacity)
    (hq : Channel.Short R c.queue) (result : Except ConnectionError Unit) (lines : List Record) :
    ∃ r₁, Bounded R k t r₁
      (endIntake { x with reader := r', assembly := a, log := lines } result) :=
  ⟨{ r with channel := c.hangUp }, hs, by simp [endIntake, Assembly.drop, Assembly.onChannel, ha],
    hcap.trans h.capacity, hq, .inr ⟨.inr ⟨result, rfl⟩, by simp [endIntake], hheld, hle⟩⟩

lemma abort (h : Bounded R k t r x) (why : EntityError) :
    ∃ c, (x.assembly.abort why).entity = some { r with channel := c } ∧
      c.capacity = r.channel.capacity ∧ Channel.Short R c.queue := by
  unfold Assembly.abort
  split
  · exact ⟨r.channel, h.entity, rfl, h.short⟩
  · refine ⟨r.channel.abort why, by simp [Assembly.onChannel, h.entity], ?_⟩
    by_cases hadmits : r.channel.Admits
    · rw [Channel.abort_of_admits hadmits]
      refine ⟨rfl, fun d hd => h.short d ?_⟩
      simpa [Channel.push, Channel.hangUp] using hd
    · rw [Channel.abort_of_not_admits hadmits]
      exact ⟨rfl, h.short⟩

lemma question (h : Bounded R k t r x) (hi : x.intake = .reading) (hd : x.assembly.done = false)
    (ha : x.reader.arrival? = none) {q : FrameReader.Pull} {r' : FrameReader}
    (hpull : x.reader.pull = (q, r')) :
    ∃ l n b, x.reader.Brings l n b q r' ∧ b.length ≤ R ∧
      t = r.received + b.length + x.reader.source.unread := by
  obtain ⟨-, -, l, n, b, hamid, hle, htotal⟩ := h.coming hd (by simp [hi])
  have hbrings := hamid.brings ha
  rw [hpull] at hbrings
  exact ⟨l, n, b, hbrings, by omega, htotal⟩

lemma pushed (h : Bounded R k t r x) (hi : x.intake = .reading) (hd : x.assembly.done = false)
    (ha : x.reader.arrival? = none) {f : Frame} {r' : FrameReader} {p : Assembly.Pushed}
    {a : Assembly} (hpull : x.reader.pull = (.frame f, r')) (hpush : x.assembly.push f = (p, a)) :
    ∃ r₁, (∃ chunk, p = .blocked chunk ∧
        Bounded R k t r₁ { x with reader := r', assembly := a, intake := .holding chunk }) ∨
      p = .accepted ∧ Bounded R k t r₁ { x with reader := r', assembly := a } := by
  obtain ⟨l, n, b, hbrings, hle, htotal⟩ := h.question hi hd ha hpull
  cases hbrings with
  | complete hn hs hstate =>
    obtain ⟨rfl, rfl⟩ := Prod.mk.inj ((Assembly.push_end h.entity hd).symm.trans hpush)
    have hheld : r'.held ≤ b.length := by
      have hof := FrameReader.held_of (l := l) r'.source .requestLine b
      rwa [← hstate] at hof
    refine ⟨{ r with channel := r.channel.hangUp }, .inr ⟨rfl, hs ▸ h.within,
      by simp [Assembly.onChannel, h.entity], h.capacity, h.short,
      .inr ⟨.inl rfl, by simp [hi], Nat.le_trans hheld hle, ?_⟩⟩⟩
    simp only [hs]
    omega
  | @chunk c b' _ hc hlen hb hs hamid =>
    subst hb
    rw [List.length_append] at hle htotal
    obtain ⟨r₁, ⟨rfl, hbound⟩ | ⟨rfl, hbound⟩⟩ := h.pushed_chunk hd hs hamid hle htotal hpush
    · exact ⟨r₁, .inl ⟨c, rfl, hbound⟩⟩
    · rw [← hi] at hbound
      exact ⟨r₁, .inr ⟨rfl, hbound⟩⟩

/-- **A step of the intake** for which nothing has to be read keeps the bound. -/
lemma after_intake (h : Bounded R k t r x)
    (ha : x.intake = .reading → x.assembly.done = false → x.reader.arrival? = none) :
    ∃ r', Bounded R k t r' (x.after .intake) := by
  refine after_intake_cases (P := fun y => ∃ r', Bounded R k t r' y) (fun y hy => ?_) ⟨r, h⟩
  cases hy with
  | delivered hi hdel hp => exact h.delivered hi hdel hp
  | complete hi hd =>
    rcases h.stands with ⟨hd', -⟩ | ⟨-, -, hheld, hle⟩
    · simp [hd] at hd'
    · exact h.ended h.within hheld hle h.entity rfl h.short (.ok ()) x.log
  | waited hi hd hpull =>
    obtain ⟨hdone, hgoing, l, n, b, hamid, hle, htotal⟩ := h.coming hd (by simp [hi])
    have hbrings := hamid.brings (ha hi hd)
    rw [hpull] at hbrings
    cases hbrings with
    | waited hb hs =>
      refine ⟨r, h.within.of_read hs, h.entity, h.capacity, h.short,
        .inl ⟨hdone, hgoing, l, n, b, hamid, hle, ?_⟩⟩
      rw [htotal, Source.unread_of_read hs (by simp)]
  | held hi hd hpull hpush =>
    obtain ⟨r₁, ⟨chunk, hblocked, hbound⟩ | ⟨haccepted, -⟩⟩ := h.pushed hi hd (ha hi hd) hpull hpush
    · obtain rfl := Assembly.Pushed.blocked.inj hblocked
      exact ⟨r₁, hbound⟩
    · cases haccepted
  | refused hi hd hpull hpush =>
    obtain ⟨r₁, ⟨chunk, hblocked, -⟩ | ⟨haccepted, -⟩⟩ := h.pushed hi hd (ha hi hd) hpull hpush
    · cases hblocked
    · cases haccepted
  | pushed hi hd hpull hpush hnot =>
    obtain ⟨r₁, ⟨chunk, hblocked, -⟩ | ⟨-, hbound⟩⟩ := h.pushed hi hd (ha hi hd) hpull hpush
    · exact absurd hblocked (hnot chunk)
    · exact ⟨r₁, hbound⟩
  | @failed e r' a hi hd hpull hwhy =>
    obtain ⟨l, n, b, hbrings, hle, htotal⟩ := h.question hi hd (ha hi hd) hpull
    cases hbrings with
    | broken hb hs =>
      obtain ⟨c, hc, hcap, hq⟩ : ∃ c, a.entity = some { r with channel := c } ∧
          c.capacity = r.channel.capacity ∧ Channel.Short R c.queue := by
        rcases hwhy with rfl | ⟨why, rfl⟩
        · exact ⟨r.channel, h.entity, rfl, h.short⟩
        · exact h.abort why
      have hunread := Source.unread_of_read hs (by simp)
      exact h.ended (h.within.of_read hs) (Nat.zero_le _)
        (by simp only [hunread]; omega) hc hcap hq _ x.log
  | ended hi hd hpull =>
    obtain ⟨l, n, b, hbrings, hle, htotal⟩ := h.question hi hd (ha hi hd) hpull
    cases hbrings with
    | @ended s hb hs =>
      have hunread := Source.unread_of_read hs (by simp)
      exact h.ended (h.within.of_read hs) (Nat.zero_le _)
        (by simp only [hunread]; omega) h.entity rfl h.short _ x.log

/-- **Every act** keeps the bound. -/
lemma through (h : Bounded R k t r x) (acts : List Act) :
    ∃ r', Bounded R k t r' (x.through acts) := by
  refine through_induction (P := fun y => ∃ r', Bounded R k t r' y) (fun y a hy => ?_) ⟨r, h⟩ acts
  obtain ⟨r', hy⟩ := hy
  cases a with
  | intake =>
    rcases y.on_intake with ⟨r'', hi, hd, ha, hon⟩ | ⟨hquiet, hon⟩ <;> rw [hon]
    · exact ⟨r', hy.arrival hi hd ha⟩
    · exact hy.after_intake hquiet
  | service b => exact (hy.facing b).after_service

/-- What is buffered then: a read, and a read for each chunk in the channel. -/
lemma buffered_le (h : Bounded R k t r x) :
    x.buffered ≤ (k + 1) * R ∧ t ≤ x.reader.source.unread + x.gone + (k + 1) * R := by
  have hqueue : x.queued ≤ k * R := by
    have hlen := r.channel.queue_le
    rw [h.capacity] at hlen
    have hchannel : x.assembly.channel? = some r.channel := by simp [Assembly.channel?, h.entity]
    rw [queued, hchannel]
    exact Nat.le_trans (Channel.queuedBytes_le h.short) (Nat.mul_le_mul_right R hlen)
  have hreceived : x.received = r.received := by simp [received, h.entity]
  rw [buffered, gone, hreceived, Nat.add_mul, Nat.one_mul]
  rcases h.stands with ⟨-, -, l, n, b, hamid, hle, htotal⟩ | ⟨-, hnone, hheld, hle⟩
  · have hheld : x.reader.held ≤ b.length := by
      have hof := FrameReader.held_of (l := l) x.reader.source (.outstanding n) b
      rwa [← hamid] at hof
    omega
  · have hhand : x.inHand = [] := by
      rcases hi : x.intake with _ | chunk | result <;> simp_all [inHand]
    rw [hhand, List.length_nil]
    omega

end Bounded

end Exchange

/-! ### Connections -/

namespace Connection

open Exchange (Bounded)

variable {c : Connection} {B : SinkBehaviour → Prop} {s s' : Session}

/-- However an exchange goes, its reader is given reads of `R` bytes at most, each when it has no
frame. -/
lemma supplied_through {x : Exchange} (h : x.reader.Supplied l R) (acts : List Exchange.Act) :
    (x.through acts).reader.Supplied l R := by
  refine Exchange.through_induction (P := fun y => y.reader.Supplied l R) (fun y a hy => ?_) h acts
  cases a with
  | intake =>
    rcases y.on_intake with ⟨r, -, -, ha, hon⟩ | ⟨hquiet, hon⟩ <;> rw [hon]
    · exact hy.arrival ha
    · rcases y.reader_after_intake with hsame | ⟨hi, hd⟩
      · exact hsame ▸ hy
      · rw [Exchange.reader_after_reading hi hd]
        exact hy.asked (FrameReader.asked (hquiet hi hd))
  | service b => exact (Exchange.after_service_sameIntake (y.facing b)).1 ▸ hy

lemma Comes.supplied (h : Comes c B s s') (hs : s.reader.Supplied l R) :
    s'.reader.Supplied l R := by
  induction h with
  | start => exact hs
  | @next s' s'' e e' _ he hmore ih =>
    obtain ⟨a, r, hr, hstart⟩ := he.received
    have hreceive := Session.supplied_receive ih (.create c.entityBuffer)
    rw [hr] at hreceive
    rw [(progress_more hmore).1]
    refine supplied_through ?_ e.acts
    rw [hstart]
    exact hreceive

/-- **Backpressure**: over a transport whose reads bring `R` bytes at most, let a connection come
to a request with an entity, in whatever way. Whatever happens then, no more is buffered than one
read and one for each chunk that the channel holds; so many of the bytes that were read at most,
those behind the head included, have been neither delivered nor discarded; and the transport is not
read while a chunk is in hand. -/
theorem backpressure (c : Connection) {source : Source} (hw : source.Within R) (b : SinkBehaviour)
    {s : Session} (hs : Comes c (fun _ => True) (.start c.lexicon source b) s) {q : Request}
    {a : Assembly} {r : FrameReader}
    (hr : Session.receive s.reader (.create c.entityBuffer) = (.request q a, r))
    (hq : q.entity.isStreaming) (acts : List Exchange.Act) :
    let x := Exchange.start q.line.version r a (c.plan q) s.sink s.buffer
    let y := x.through acts
    y.buffered ≤ (max c.entityBuffer 1 + 1) * R ∧
      x.reader.held + x.reader.source.unread ≤
        y.reader.source.unread + y.gone + (max c.entityBuffer 1 + 1) * R ∧
      ∀ chunk, y.intake = .holding chunk → ∀ act, (y.on act).reader = y.reader := by
  intro x y
  have hsupplied := hs.supplied (FrameReader.supplied_create (l := c.lexicon) hw)
  have hwithin : r.source.Within R := by
    have hreceive := Session.supplied_receive hsupplied (.create c.entityBuffer)
    rw [hr] at hreceive
    exact hreceive.within
  obtain ⟨n, held, hamid, hlen, hentity, hdone⟩ := Session.receive_streaming hsupplied rfl hr hq
  have hstart : Bounded R (max c.entityBuffer 1) (held.length + r.source.unread)
      ⟨.create n c.entityBuffer, 0⟩ x := by
    have hreading : x.intake = .reading := by simp [x, Exchange.start, hdone]
    refine ⟨hwithin, hentity, rfl, by simp [Channel.Short, Channel.create],
      .inl ⟨hdone, by simp [hreading], c.lexicon, n, held, hamid, ?_, by simp [x, Exchange.start]⟩⟩
    simpa [Exchange.inHand, hreading] using hlen
  obtain ⟨r', hbound⟩ := hstart.through acts
  obtain ⟨hbuffered, htotal⟩ := hbound.buffered_le
  refine ⟨hbuffered, Nat.le_trans (Nat.add_le_add_right ?_ _) htotal, fun chunk hhold act => ?_⟩
  · have hof := FrameReader.held_of (l := c.lexicon) r.source (.outstanding n) held
    rwa [← hamid] at hof
  · cases act with
    | intake =>
      rcases y.on_intake with ⟨r', hi, -⟩ | ⟨-, hon⟩
      · simp [hhold] at hi
      · rw [hon]
        rcases y.reader_after_intake with hsame | ⟨hi, -⟩
        · exact hsame
        · simp [hhold] at hi
    | service b => exact (Exchange.after_service_sameIntake (y.facing b)).1

def wholePut : Source := [.bytes putBytes]

def behindHead : FrameReader :=
  ⟨[], .of (Framing.build echoing.lexicon (.outstanding 2) [97, 98])⟩

lemma receive_wholePut :
    Session.receive (.create wholePut echoing.lexicon) (.create 1) =
      (.request ⟨putMessage.line, [.contentLength 2], .streaming (.create 2 1)⟩ (.opened 1 2),
        behindHead) := by
  have hread : FrameReader.arrival? (.create wholePut echoing.lexicon) = some ⟨[], .live
      ⟨echoing.lexicon, .requestLine, putBytes.drop 16, some (.requestLine putMessage.line)⟩⟩ := rfl
  have hline : FrameReader.pull (.create wholePut echoing.lexicon) =
      (.frame (.requestLine putMessage.line), ⟨[], .live ⟨echoing.lexicon, .header,
        putBytes.drop 34, some (.header (.contentLength 2))⟩⟩) := by
    rw [FrameReader.pull_arrival hread, FrameReader.pull_of_frame rfl rfl]
    rfl
  have hheader : FrameReader.pull ⟨[], .live ⟨echoing.lexicon, .header, putBytes.drop 34,
      some (.header (.contentLength 2))⟩⟩ = (.frame (.header (.contentLength 2)), ⟨[], .live
        ⟨echoing.lexicon, .headerOrEnd [.contentLength 2], [97, 98], some (.entityStart 2)⟩⟩) := by
    rw [FrameReader.pull_of_frame rfl rfl]
    rfl
  have hstart : FrameReader.pull ⟨[], .live ⟨echoing.lexicon, .headerOrEnd [.contentLength 2],
      [97, 98], some (.entityStart 2)⟩⟩ = (.frame (.entityStart 2), behindHead) := by
    rw [FrameReader.pull_of_frame rfl rfl]
    rfl
  exact Session.receive_of_receives
    (.takes (p := .accepted) hline rfl (by simp) (by simp)
      (.takes (p := .accepted) hheader rfl (by simp) (by simp) (.released hstart rfl)))

theorem backpressure_wholePut :
    wholePut.Within 38 ∧
    ∀ acts,
      let x := Exchange.start .http11 behindHead (.opened 1 2) .echo (.ofBehaviour .willing) []
      (x.through acts).buffered ≤ 2 * 38 ∧
        ∀ chunk, (x.through acts).intake = .holding chunk →
          ∀ act, ((x.through acts).on act).reader = (x.through acts).reader := by
  have hw : wholePut.Within 38 := by
    intro b hb
    obtain rfl : b = putBytes := by simpa [wholePut] using hb
    decide
  refine ⟨hw, fun acts => ?_⟩
  obtain ⟨hbuffered, -, hhold⟩ :=
    backpressure echoing hw .willing .start receive_wholePut rfl acts
  exact ⟨hbuffered, hhold⟩

end Connection

end Http1
