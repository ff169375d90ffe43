import Http1.Proofs.Course

/-!
The chunks that are due.

The chunks of an entity are what the reads make of it, whatever the parties do. Of those that the
service has not received, some wait in the channel, one may be in hand, and the rest is what the
reader will hand on. Main statements: no act of the intake changes which chunks are due, nor where
the reader will be behind them, and at rest it is there.
-/

namespace Http1

/-! ### The channel -/

namespace Channel

/-- The receiver is going to find the chunks `left` and then a clean end; the chunks `later` of
them are still with the sender. -/
structure Owes (left later : List Bytes) (c : Channel) : Prop where
  queue : ∃ q : List Bytes, c.queue = q.map .ok ∧ left = q ++ later
  remaining : c.remaining = left.flatten.length
  finished : c.finished = true → left = []
  whole : c.sending = false → later = []

variable {left later : List Bytes} {chunk : Bytes} {c : Channel}

lemma owes_create (left : List Bytes) (k : Nat) :
    (create left.flatten.length k).Owes left left where
  queue := ⟨[], rfl, rfl⟩
  remaining := rfl
  finished h := by simp [create] at h
  whole h := by simp [create] at h

namespace Owes

/-- **A receiver who looks** finds the next chunk, the end, or nothing yet. -/
lemma poll (h : c.Owes left later) :
    (c.poll = (.pending, c) ∧ c.sending = true ∧ c.queue = []) ∨
    (∃ chunk left' c', left = chunk :: left' ∧ c.poll = (.chunk chunk, c') ∧ c'.Owes left' later ∧
      c'.sending = c.sending ∧ c'.receiving = c.receiving) ∨
    (∃ c', left = [] ∧ c.poll = (.ended, c') ∧ c'.Owes [] later ∧ c'.sending = c.sending ∧
      c'.receiving = c.receiving) := by
  obtain ⟨q, hq, hleft⟩ := h.queue
  rcases hf : c.finished with _ | _
  · rcases q with _ | ⟨chunk, q⟩
    · rcases hs : c.sending with _ | _
      · obtain rfl : left = [] := by rw [hleft, h.whole hs]; rfl
        refine .inr (.inr ⟨_, rfl, poll_of_whole hf hq hs h.remaining, ?_, hs, rfl⟩)
        exact { h with finished := fun _ => rfl }
      · exact .inl ⟨poll_of_sending hf hq hs, rfl, hq⟩
    · obtain ⟨hchunk, -, hremaining, hqueue, hsending, hreceiving, hfinished⟩ := poll_of_chunk hf hq
      refine .inr (.inl ⟨chunk, q ++ later, c.poll.2, hleft, Prod.ext hchunk rfl, ?_, hsending,
        hreceiving⟩)
      exact {
        queue := ⟨q, hqueue, rfl⟩
        remaining := by rw [hremaining, h.remaining, hleft]; simp
        finished := by simp [hfinished]
        whole := fun hs => h.whole (hsending ▸ hs) }
  · obtain rfl := h.finished hf
    exact .inr (.inr ⟨c, rfl, poll_of_finished hf, h, rfl, rfl⟩)

lemma sending (h : c.Owes left (chunk :: later)) : c.sending = true := by
  rcases hs : c.sending with _ | _
  · simpa using h.whole hs
  · rfl

lemma offer (h : c.Owes left (chunk :: later)) (hr : c.receiving = true) :
    (∃ c', c.offer chunk = .sent c' ∧ c'.Owes left later ∧ c'.sending = true ∧
      c'.receiving = true) ∨ (c.offer chunk = .full ∧ c.queue ≠ []) := by
  have hs := h.sending
  have hthere : ¬ c.Deaf := not_deaf_iff.2 ⟨hs, hr⟩
  by_cases hroom : c.queue.length < c.capacity
  · obtain ⟨q, hq, hleft⟩ := h.queue
    refine .inl ⟨c.push (.ok chunk) hroom, offer_of_admits ⟨hthere, hroom⟩ chunk, ?_, hs, hr⟩
    exact {
      queue := ⟨q ++ [chunk], by simp [push, hq], by simp [hleft]⟩
      remaining := h.remaining
      finished := h.finished
      whole := by simp [push, hs] }
  · refine .inr ⟨offer_of_full hthere hroom chunk, fun hq => hroom ?_⟩
    rw [hq]
    exact c.capacity_pos

lemma hangUp (h : c.Owes left []) : c.hangUp.Owes left [] :=
  { h with whole := fun _ => rfl }

end Owes

end Channel

/-! ### The reader -/

namespace FrameReader

/-- What the reader hands on of an entity, and the reader behind it. -/
inductive Feeds : FrameReader → List Bytes → FrameReader → Prop where
  | complete {r z : FrameReader} : r.pull = (.frame .entityEnd, z) → Feeds r [] z
  | chunk {r r' z : FrameReader} {c : Bytes} {cs : List Bytes} :
      r.pull = (.frame (.entityChunk c), r') → Feeds r' cs z → Feeds r (c :: cs) z
  | waited {r r' z : FrameReader} {cs : List Bytes} :
      r.pull = (.blocked, r') → Feeds r' cs z → Feeds r cs z

variable {r r' z : FrameReader} {cs : List Bytes} {q : Pull}

lemma Feeds.cases (h : r.Feeds cs z) (hd : r.pull = (q, r')) :
    (q = .blocked ∧ r'.Feeds cs z) ∨
    (∃ c cs', q = .frame (.entityChunk c) ∧ cs = c :: cs' ∧ r'.Feeds cs' z) ∨
    (q = .frame .entityEnd ∧ cs = [] ∧ r' = z) := by
  cases h with
  | complete hd' =>
    obtain ⟨rfl, rfl⟩ := Prod.mk.inj (hd.symm.trans hd')
    exact .inr (.inr ⟨rfl, rfl, rfl⟩)
  | chunk hd' hrest =>
    obtain ⟨rfl, rfl⟩ := Prod.mk.inj (hd.symm.trans hd')
    exact .inr (.inl ⟨_, _, rfl, rfl, hrest⟩)
  | waited hd' hrest =>
    obtain ⟨rfl, rfl⟩ := Prod.mk.inj (hd.symm.trans hd')
    exact .inl ⟨rfl, hrest⟩

lemma Feeds.arrival (h : r.Feeds cs z) (ha : r.arrival? = some r') : r'.Feeds cs z := by
  rcases hd : r.pull with ⟨q, r''⟩
  have hd' : r'.pull = (q, r'') := by rw [← pull_arrival ha, hd]
  rcases h.cases hd with ⟨rfl, hrest⟩ | ⟨c, cs', rfl, rfl, hrest⟩ | ⟨rfl, rfl, rfl⟩
  · exact .waited hd' hrest
  · exact .chunk hd' hrest
  · exact .complete hd'

/-- **An entity whose bytes all come** is handed on. -/
lemma Stands.exists_feeds {l : Lexicon} {n : Nat} {b : Bytes} {fate : Option TransportError}
    {r : FrameReader} (h : r.Stands l (.outstanding n) b fate) (hn : n ≤ b.length) :
    ∃ cs z, r.Feeds cs z ∧ cs.flatten.length = n ∧ z.Stands l .requestLine (b.drop n) fate := by
  have hans := h.answers
  have hpot := r.pull_potential
  have hscan := Exchange.scan_outstanding l n b
  -- there is something to be had while bytes are to come
  have never : ∀ {r'}, (Phase.outstanding n).scan l b ≠ .ok (.pending r') := by
    intro r' hpending
    rcases hscan with ⟨f, rest, hdone⟩ | ⟨rfl, hpos, -⟩
    · simp [hdone] at hpending
    · simp only [List.length_nil] at hn
      omega
  rcases hd : r.pull with ⟨q, r'⟩
  rw [hd] at hans hpot
  cases hans with
  | frame htakes hstands =>
    rcases Exchange.takes_outstanding htakes with ⟨rfl, rfl, rfl⟩ | ⟨c, rfl, hlen, rfl, hphase⟩
    · exact ⟨[], r', .complete hd, rfl, hstands⟩
    · have hlt : r'.potential < r.potential := by
        simp only [Pull.price, FrameReader.price] at hpot
        omega
      rw [hphase] at hstands
      rw [List.length_append] at hn
      obtain ⟨cs, z, hfeeds, hsum, hz⟩ := exists_feeds hstands (by omega)
      refine ⟨c :: cs, z, .chunk hd hfeeds, ?_, ?_⟩
      · simp only [List.flatten_cons, List.length_append]
        omega
      · rwa [List.drop_append, List.drop_of_length_le hlen, List.nil_append]
  | blocked hstands =>
    have hlt : r'.potential < r.potential := by
      simp only [Pull.price] at hpot
      omega
    obtain ⟨cs, z, hfeeds, hsum⟩ := exists_feeds hstands hn
    exact ⟨cs, z, .waited hd hfeeds, hsum⟩
  | malformed hs _ =>
    rcases hscan with ⟨f, rest, hdone⟩ | ⟨-, -, hpending⟩ <;> simp_all
  | broken hs _ _ => exact absurd hs never
  | ended hs _ _ => exact absurd hs never
termination_by r.potential

end FrameReader

/-! ### The exchange -/

def Service.listens : Service → Bool
  | .planning .. => true
  | .writing _ .passedOn => true
  | _ => false

namespace Exchange

/-- What the intake is still to hand on, and then its reader is `z`. -/
inductive Incoming (z : FrameReader) (x : Exchange) : List Bytes → Prop where
  | reading {later : List Bytes} : x.intake = .reading → x.assembly.done = false →
      x.reader.Feeds later z → Incoming z x later
  | holding {chunk : Bytes} {later : List Bytes} : x.intake = .holding chunk →
      x.assembly.done = false → x.reader.Feeds later z → Incoming z x (chunk :: later)
  | complete : x.intake = .reading ∨ x.intake = .ended (.ok ()) → x.assembly.done = true →
      x.reader = z → Incoming z x []

/-- The service is to receive the chunks `left`, of which the intake is to hand on `later`. -/
structure Awaits (left later : List Bytes) (z : FrameReader) (r : Receiving) (x : Exchange) :
    Prop where
  entity : x.assembly.entity = some r
  sending : r.channel.sending = !x.assembly.done
  listens : r.channel.receiving = x.service.listens
  owes : r.channel.receiving = true → r.channel.Owes left later
  coming : Incoming z x later

/-- The chunks `left` are due to the service, and then the reader is `z`. -/
inductive Due (left : List Bytes) (z : FrameReader) (x : Exchange) : Prop where
  | bare : x.assembly.entity = none → x.intake = .ended (.ok ()) → x.reader = z → left = [] →
      Due left z x
  | entity {later : List Bytes} {r : Receiving} : x.Awaits left later z r → Due left z x

variable {left later : List Bytes} {z : FrameReader} {r : Receiving} {x y : Exchange}

lemma Incoming.congr (h : Incoming z x later) (hr : y.reader = x.reader) (hi : y.intake = x.intake)
    (hd : y.assembly.done = x.assembly.done) : Incoming z y later := by
  cases h with
  | reading hi' hd' hf => exact .reading (hi.trans hi') (hd.trans hd') (hr ▸ hf)
  | holding hi' hd' hf => exact .holding (hi.trans hi') (hd.trans hd') (hr ▸ hf)
  | complete hi' hd' hz => exact .complete (hi ▸ hi') (hd.trans hd') (hr.trans hz)

namespace Awaits

lemma onChannel (h : x.Awaits left later z r) {f : Channel → Channel} {left' : List Bytes}
    (hf : (f r.channel).sending = r.channel.sending)
    (hl : (f r.channel).receiving = y.service.listens)
    (ho : (f r.channel).receiving = true → (f r.channel).Owes left' later)
    (hr : y.reader = x.reader) (hi : y.intake = x.intake)
    (ha : y.assembly = x.assembly.onChannel f) :
    y.Awaits left' later z { r with channel := f r.channel } := by
  have hdone : y.assembly.done = x.assembly.done := by rw [ha]; rfl
  exact {
    entity := by rw [ha, Assembly.onChannel, h.entity]; rfl
    sending := by rw [hdone, hf, h.sending]
    listens := hl
    owes := ho
    coming := h.coming.congr hr hi hdone }

lemma channel?_eq (h : x.Awaits left later z r) : x.assembly.channel? = some r.channel := by
  rw [Assembly.channel?, h.entity]
  rfl

lemma deliver {a : Assembly} (ha : a.entity = some r) (hs : r.channel.sending = true)
    {chunk : Bytes} (ho : r.channel.receiving = true → r.channel.Owes left (chunk :: later)) :
    (∃ a' c, a.deliver chunk = (.accepted, a') ∧ a'.entity = some { r with channel := c } ∧
      a'.done = a.done ∧ c.sending = true ∧ c.receiving = r.channel.receiving ∧
      (c.receiving = true → c.Owes left later)) ∨
    (a.deliver chunk = (.blocked chunk, a) ∧ r.channel.receiving = true ∧
      r.channel.queue ≠ []) := by
  rcases hr : r.channel.receiving with _ | _
  · have hoffer := Channel.offer_of_deaf (.inr hr) chunk
    exact .inl ⟨a, r.channel, by simp [Assembly.deliver, ha, hoffer], ha, rfl, hs, hr, by simp [hr]⟩
  · rcases (ho hr).offer hr with ⟨c, hoffer, howes, hsend, hrec⟩ | ⟨hoffer, hq⟩
    · exact .inl ⟨{ a with entity := some { r with channel := c } }, c,
        by simp [Assembly.deliver, ha, hoffer], rfl, rfl, hsend, hrec, fun _ => howes⟩
    · exact .inr ⟨by simp [Assembly.deliver, ha, hoffer], rfl, hq⟩

lemma pushed_chunk (h : x.Awaits left later z r) (hi : x.intake = .reading)
    (hd : x.assembly.done = false) {chunk : Bytes} {later' : List Bytes} {r' : FrameReader}
    {p : Assembly.Pushed} {a : Assembly} (hl : later = chunk :: later') (hf : r'.Feeds later' z)
    (hpush : x.assembly.push (.entityChunk chunk) = (p, a)) :
    (p = .blocked chunk ∧
        Due left z { x with reader := r', assembly := a, intake := .holding chunk }) ∨
      p = .accepted ∧ Due left z { x with reader := r', assembly := a } := by
  subst hl
  have hcount := Assembly.count_entity h.entity chunk
  have hdel := (Assembly.push_chunk hd chunk).symm.trans hpush
  have hs : r.channel.sending = true := by rw [h.sending, hd]; rfl
  rcases deliver hcount hs h.owes with
    ⟨a', c, hgo, hent, hdone, hsend, hrec, howes⟩ | ⟨hfull, -⟩
  · obtain ⟨rfl, rfl⟩ := Prod.mk.inj (hdel.symm.trans hgo)
    have hadone : a.done = false := hdone.trans hd
    exact .inr ⟨rfl, .entity ⟨hent, by simp [hsend, hadone], hrec.trans h.listens,
      howes, .reading hi hadone hf⟩⟩
  · obtain ⟨rfl, rfl⟩ := Prod.mk.inj (hdel.symm.trans hfull)
    exact .inl ⟨rfl, .entity ⟨hcount, h.sending, h.listens, h.owes, .holding rfl hd hf⟩⟩

lemma question (h : x.Awaits left later z r) (hi : x.intake = .reading)
    (hd : x.assembly.done = false) {q : FrameReader.Pull} {r' : FrameReader}
    (hp : x.reader.pull = (q, r')) :
    (q = .blocked ∧ r'.Feeds later z) ∨
    (∃ c cs', q = .frame (.entityChunk c) ∧ later = c :: cs' ∧ r'.Feeds cs' z) ∨
    (q = .frame .entityEnd ∧ later = [] ∧ r' = z) := by
  cases h.coming with
  | reading _ _ hf => exact hf.cases hp
  | holding hi' => simp [hi] at hi'
  | complete _ hd' => simp [hd] at hd'

lemma hangUp (h : x.Awaits left [] z r) (hi : y.intake = .reading ∨ y.intake = .ended (.ok ()))
    (hd : y.assembly.done = true) (hr : y.reader = z)
    (ha : y.assembly.entity = some { r with channel := r.channel.hangUp })
    (hl : y.service = x.service) : Due left z y :=
  .entity (r := { r with channel := r.channel.hangUp })
    ⟨ha, by rw [hd]; rfl, hl ▸ h.listens, fun hr => (h.owes hr).hangUp, .complete hi hd hr⟩

lemma pushed (h : x.Awaits left later z r) (hi : x.intake = .reading)
    (hd : x.assembly.done = false) {f : Frame} {r' : FrameReader}
    {p : Assembly.Pushed} {a : Assembly} (hpull : x.reader.pull = (.frame f, r'))
    (hpush : x.assembly.push f = (p, a)) :
    (∃ chunk, p = .blocked chunk ∧
        Due left z { x with reader := r', assembly := a, intake := .holding chunk }) ∨
      p = .accepted ∧ Due left z { x with reader := r', assembly := a } := by
  rcases h.question hi hd hpull with ⟨hq, -⟩ | ⟨c, cs, hq, hl, hf⟩ | ⟨hq, rfl, rfl⟩ <;> cases hq
  · rcases h.pushed_chunk hi hd hl hf hpush with ⟨hblocked, hdue⟩ | haccepted
    · exact .inl ⟨c, hblocked, hdue⟩
    · exact .inr haccepted
  · obtain ⟨rfl, rfl⟩ := Prod.mk.inj ((Assembly.push_end h.entity hd).symm.trans hpush)
    exact .inr ⟨rfl, h.hangUp (.inl hi) rfl rfl (by simp [Assembly.onChannel, h.entity]) rfl⟩

lemma delivered (h : x.Awaits left later z r) {chunk : Bytes} {p : Assembly.Pushed} {a : Assembly}
    (hi : x.intake = .holding chunk) (hdel : x.assembly.deliver chunk = (p, a))
    (hp : ∀ c, p ≠ .blocked c) : Due left z { x with assembly := a, intake := .reading } := by
  cases h.coming with
  | reading hi' => simp [hi] at hi'
  | complete hi' => simp [hi] at hi'
  | holding hi' hd hf =>
    obtain rfl := Intake.holding.inj (hi.symm.trans hi')
    have hs : r.channel.sending = true := by rw [h.sending, hd]; rfl
    rcases deliver h.entity hs h.owes with
      ⟨a', c, hgo, hent, hdone, hsend, hrec, howes⟩ | ⟨hfull, -⟩
    · obtain ⟨-, rfl⟩ := Prod.mk.inj (hdel.symm.trans hgo)
      have hadone : a.done = false := hdone.trans hd
      exact .entity ⟨hent, by simp [hsend, hadone], hrec.trans h.listens, howes,
        .reading rfl hadone hf⟩
    · exact absurd (Prod.mk.inj (hdel.symm.trans hfull)).1 (hp chunk)

/-- **A step of the intake** changes nothing of what is due. -/
lemma after_intake (h : x.Awaits left later z r) : Due left z (x.after .intake) := by
  refine after_intake_cases (P := Due left z) (fun y hy => ?_) (.entity h)
  cases hy with
  | delivered hi hdel hp => exact h.delivered hi hdel hp
  | complete hi hd =>
    cases h.coming with
    | reading _ hd' => simp [hd] at hd'
    | holding hi' => simp [hi] at hi'
    | complete _ _ hz =>
      exact h.hangUp (.inr rfl) hd hz
        (by simp [endIntake, Assembly.drop, Assembly.onChannel, h.entity]) rfl
  | waited hi hd hpull =>
    rcases h.question hi hd hpull with ⟨-, hf⟩ | ⟨c, cs, hq, -⟩ | ⟨hq, -⟩
    · exact .entity { h with coming := .reading hi hd hf }
    · cases hq
    · cases hq
  | held hi hd hpull hpush =>
    rcases h.pushed hi hd hpull hpush with ⟨chunk, hblocked, hdue⟩ | ⟨haccepted, -⟩
    · obtain rfl := Assembly.Pushed.blocked.inj hblocked
      exact hdue
    · cases haccepted
  | refused hi hd hpull hpush =>
    rcases h.pushed hi hd hpull hpush with ⟨chunk, hblocked, -⟩ | ⟨haccepted, -⟩
    · cases hblocked
    · cases haccepted
  | pushed hi hd hpull hpush hnot =>
    rcases h.pushed hi hd hpull hpush with ⟨chunk, hblocked, -⟩ | ⟨-, hdue⟩
    · exact absurd hblocked (hnot chunk)
    · exact hdue
  | failed hi hd hpull =>
    rcases h.question hi hd hpull with ⟨hq, -⟩ | ⟨c, cs, hq, -⟩ | ⟨hq, -⟩ <;> cases hq
  | ended hi hd hpull =>
    rcases h.question hi hd hpull with ⟨hq, -⟩ | ⟨c, cs, hq, -⟩ | ⟨hq, -⟩ <;> cases hq

end Awaits

lemma channel?_of_looksAt {c : Channel} (h : x.looksAt = some c) :
    x.assembly.channel? = some c ∧ x.service.listens = true := by
  unfold looksAt at h
  split at h
  · rename_i hs
    split at h
    · simp at h
    · exact ⟨h, by rw [hs]; rfl⟩
  · rename_i hs
    exact ⟨h, by rw [hs]; rfl⟩
  · simp at h

/-- A stream at which the service waits is empty, and goes on. -/
lemma Awaits.pending (h : x.Awaits left later z r) {c : Channel} (hl : x.looksAt = some c)
    (hp : c.poll.1 = .pending) : x.assembly.done = false ∧ r.channel.queue = [] := by
  obtain ⟨hc, hlistens⟩ := channel?_of_looksAt hl
  obtain rfl := Option.some.inj (h.channel?_eq.symm.trans hc)
  rcases (h.owes (h.listens.trans hlistens)).poll with ⟨-, hs, hq⟩ | ⟨_, _, _, _, hp', -⟩ |
    ⟨_, _, hp', -⟩
  · rw [h.sending] at hs
    exact ⟨by simpa using hs, hq⟩
  · simp [hp'] at hp
  · simp [hp'] at hp

namespace Due

/-- **No act of the intake** changes which chunks are due. -/
lemma on_intake (h : Due left z x) : Due left z (x.on .intake) := by
  cases h with
  | bare he hi hz hl =>
    rcases x.on_intake with ⟨r, hi', -⟩ | ⟨-, hon⟩
    · simp [hi] at hi'
    · rw [hon, after_of_stuck (p := .intake) (by simp [step, stepIntake, hi])]
      exact .bare he hi hz hl
  | entity h =>
    rcases x.on_intake with ⟨r, hi, hd, ha, hon⟩ | ⟨-, hon⟩ <;> rw [hon]
    · cases h.coming with
      | reading _ _ hf => exact .entity { h with coming := .reading hi hd (hf.arrival ha) }
      | holding hi' => simp [hi] at hi'
      | complete _ hd' => simp [hd] at hd'
    · exact h.after_intake

lemma same (h : Due left z x) (hr : y.reader = x.reader) (hi : y.intake = x.intake)
    (ha : y.assembly = x.assembly) (hl : y.service.listens = x.service.listens) : Due left z y := by
  cases h with
  | bare he hi' hz hl => exact .bare (ha ▸ he) (hi.trans hi') (hr.trans hz) hl
  | entity h =>
    exact .entity ⟨ha ▸ h.entity, ha ▸ h.sending, h.listens.trans hl.symm, h.owes,
      h.coming.congr hr hi (congrArg _ ha)⟩

lemma leave (h : Due left z x) (hr : y.reader = x.reader) (hi : y.intake = x.intake)
    (ha : y.assembly = x.assembly.onChannel Channel.leave) (hl : y.service.listens = false) :
    Due left z y := by
  cases h with
  | bare he hi' hz hleft =>
    exact .bare (by rw [ha, Assembly.onChannel, he]; rfl) (hi.trans hi') (hr.trans hz) hleft
  | entity h =>
    exact .entity (h.onChannel (f := Channel.leave) rfl hl.symm (by simp [Channel.leave]) hr hi ha)

lemma start_bare {v : Version} {a : Assembly} {p : Plan} {sink : Sink} {buffer : Bytes}
    (ha : a.entity = none) (hd : a.done = true) : Due [] z (start v z a p sink buffer) :=
  .bare ha (by simp [start, hd]) rfl rfl

lemma start_opened {v : Version} {p : Plan} {sink : Sink} {buffer : Bytes} {capacity : Nat}
    {r : FrameReader} (h : r.Feeds left z) :
    Due left z (start v r (.opened capacity left.flatten.length) p sink buffer) :=
  .entity (r := ⟨.create left.flatten.length capacity, 0⟩) ⟨rfl, rfl, rfl,
    fun _ => Channel.owes_create left capacity, .reading rfl rfl h⟩

/-- **At rest**, the intake has come to the end of the request and no further, and the service is
done, or waits for a stream of its own. -/
lemma atRest (h : Due left z x) (hrest : x.AtRest) :
    x.intake = .ended (.ok ()) ∧ x.reader = z ∧
      ((∃ result, x.service = .ended result) ∨ ∃ c, x.service = .writing .waiting (.own c)) := by
  have hin : x.stepIntake = .stuck := hrest .intake
  have hser := stuck_cases (hrest .service)
  cases h with
  | bare he hi hz =>
    refine ⟨hi, hz, hser.resolve_right ?_⟩
    rintro ⟨c, hl, -⟩
    simpa [Assembly.channel?, he] using (channel?_of_looksAt hl).1
  | @entity later r h =>
    cases h.coming with
    | reading hi => exact absurd hin (x.stepIntake_ne_stuck hi)
    | @holding chunk later hi hd =>
      -- the chunk in hand waits for a receiver who is there, and he would receive
      exfalso
      have hs : r.channel.sending = true := by rw [h.sending, hd]; rfl
      rcases Awaits.deliver h.entity hs h.owes with ⟨a, c, hgo, -⟩ | ⟨-, hrec, hq⟩
      · simp [stepIntake, hi, hgo] at hin
      · have hlistens : x.service.listens = true := h.listens.symm.trans hrec
        rcases hser with (⟨result, hs⟩ | ⟨c, hs⟩) | ⟨c, hl, hp⟩
        · simp [hs, Service.listens] at hlistens
        · simp [hs, Service.listens] at hlistens
        · exact hq (h.pending hl hp).2
    | complete hi hd hz =>
      refine ⟨hi.resolve_left fun hi => x.stepIntake_ne_stuck hi hin, hz, hser.resolve_right ?_⟩
      rintro ⟨c, hl, hp⟩
      simp [(h.pending hl hp).1] at hd

end Due

end Exchange

end Http1
