import Http1.Proofs.Passage
import Http1.Proofs.Schedule
import Http1.Proofs.Standing

/-!
The intake of an entity.

The bytes before the intake are `b`, of which the first `n` are the entity. At any time some of
them have gone into the channel or been given up on a receiver who has left, the next ones may be
in hand, and the reader stands before the rest. Every step of the intake keeps that, and it has
a step to take unless it is done or waits for a receiver who has something to receive. The last
step is another one if there are fewer than `n` bytes.
-/

namespace Http1

namespace Exchange

/-- The bytes that have been read and not yet been delivered. -/
def inHand (x : Exchange) : Bytes :=
  match x.intake with
  | .holding chunk => chunk
  | _ => []

/-- The intake has delivered `given`, and the service has received `got` of it. -/
structure Carried (l : Lexicon) (n : Nat) (b : Bytes) (fate : Option TransportError)
    (given : Bytes) (got : List Bytes) (r : Receiving) (x : Exchange) : Prop where
  entity : x.assembly.entity = some r
  carries : r.channel.Carries n given got.flatten
  sending : r.channel.sending = !x.assembly.done
  received : r.received = (given ++ x.inHand).length
  begins : given ++ x.inHand <+: b
  le : (given ++ x.inHand).length ≤ n
  reader : x.reader.Stands l
    (if x.assembly.done then .requestLine else .outstanding (n - (given ++ x.inHand).length))
    (b.drop (given ++ x.inHand).length) fate
  intake : match x.intake with
    | .reading => True
    | .holding _ => x.assembly.done = false
    | .ended result => result = .ok () ∧ x.assembly.done = true

variable {l : Lexicon} {n : Nat} {b given : Bytes} {fate : Option TransportError}
  {got : List Bytes} {r : Receiving} {x y : Exchange}

namespace Carried

lemma onChannel (h : Carried l n b fate given got r x) {f : Channel → Channel} {got' : List Bytes}
    (hc : (f r.channel).Carries n given got'.flatten)
    (hs : (f r.channel).sending = r.channel.sending) (hr : y.reader = x.reader)
    (hi : y.intake = x.intake) (ha : y.assembly = x.assembly.onChannel f) :
    Carried l n b fate given got' { r with channel := f r.channel } y := by
  have hhand : y.inHand = x.inHand := by rw [inHand, hi, inHand]
  have hdone : y.assembly.done = x.assembly.done := by rw [ha]; rfl
  exact {
    entity := by rw [ha, Assembly.onChannel, h.entity]; rfl
    carries := hc
    sending := by rw [hdone, hs, h.sending]
    received := hhand ▸ h.received
    begins := hhand ▸ h.begins
    le := hhand ▸ h.le
    reader := by rw [hhand, hdone, hr]; exact h.reader
    intake := by rw [hi, hdone]; exact h.intake }

lemma same (h : Carried l n b fate given got r x) (hr : y.reader = x.reader)
    (hi : y.intake = x.intake) (ha : y.assembly = x.assembly) :
    Carried l n b fate given got r y := by
  have hhand : y.inHand = x.inHand := by rw [inHand, hi, inHand]
  exact {
    entity := ha ▸ h.entity
    carries := h.carries
    sending := ha ▸ h.sending
    received := hhand ▸ h.received
    begins := hhand ▸ h.begins
    le := hhand ▸ h.le
    reader := by rw [hhand, ha, hr]; exact h.reader
    intake := by rw [hi, ha]; exact h.intake }

lemma channel?_eq (h : Carried l n b fate given got r x) :
    x.assembly.channel? = some r.channel := by rw [Assembly.channel?, h.entity]; rfl

lemma given_begins (h : Carried l n b fate given got r x) : given <+: b.take n := by
  have hpre : given <+: b := (List.prefix_append ..).trans h.begins
  have hle := h.le
  rw [List.length_append] at hle
  exact List.prefix_take_iff.2 ⟨hpre, by omega⟩

lemma given_eq_take (h : Carried l n b fate given got r x) (hlen : given.length = n) :
    given = b.take n := by
  refine h.given_begins.eq_of_length_le ?_
  rw [List.length_take, hlen]
  exact Nat.min_le_left ..

lemma got_of_finished (h : Carried l n b fate given got r x) (hf : r.channel.finished = true) :
    got.flatten = b.take n := by
  obtain ⟨hall, hsend⟩ := h.carries.finished hf
  rw [hall]
  exact h.given_eq_take (h.carries.whole hsend)

lemma given_length (h : Carried l n b fate given got r x) (hd : x.assembly.done = true) :
    given.length = n := h.carries.whole (by rw [h.sending, hd]; rfl)

end Carried

/-! ### What there is to read -/

/-- There is a frame to be had of an entity, unless more of it is to come and nothing is there. -/
lemma scan_outstanding (l : Lexicon) (m : Nat) (b : Bytes) :
    (∃ f r, (Phase.outstanding m).scan l b = .ok (.done f r)) ∨
      (b = [] ∧ 0 < m ∧ (Phase.outstanding m).scan l b = .ok (.pending [])) := by
  by_cases hm : 0 < m
  · rw [Phase.outstanding_pos hm]
    by_cases hb : b = []
    · exact .inr ⟨hb, hm, by simp [Phase.scan, hb]⟩
    · exact .inl ⟨_, _, Framing.scan_entity_done hb⟩
  · obtain rfl : m = 0 := by omega
    exact .inl ⟨_, _, rfl⟩

lemma takes_outstanding {m : Nat} {b b' : Bytes} {f : Frame}
    (h : (Phase.outstanding m).Takes l b f b') :
    (m = 0 ∧ f = .entityEnd ∧ b' = b) ∨
      ∃ c, f = .entityChunk c ∧ c.length ≤ m ∧ b = c ++ b' ∧
        (Phase.outstanding m).next f = .outstanding (m - c.length) := by
  by_cases hm : 0 < m
  · rw [Phase.outstanding_pos hm] at h ⊢
    obtain ⟨c, rfl, -, hlen, hb⟩ := h
    exact .inr ⟨c, rfl, hlen, hb, rfl⟩
  · obtain rfl : m = 0 := by omega
    have hscan : Phase.entityEnd.scan l b = .ok (.done f b') := h
    simp only [Phase.scan, Except.ok.injEq, Scan.done.injEq] at hscan
    exact .inl ⟨rfl, hscan.1.symm, hscan.2.symm⟩

/-- A chunk for a stream that goes on is delivered, or waits for a receiver who is there. -/
lemma deliver_carries {a : Assembly} (ha : a.entity = some r)
    (hc : r.channel.Carries n given got.flatten) (hs : r.channel.sending = true) (chunk : Bytes) :
    (∃ a' r', a.deliver chunk = (.accepted, a') ∧ a'.entity = some r' ∧ a'.done = a.done ∧
      r'.channel.Carries n (given ++ chunk) got.flatten ∧ r'.channel.sending = true ∧
      r'.channel.receiving = r.channel.receiving ∧ r'.received = r.received) ∨
    (a.deliver chunk = (.blocked chunk, a) ∧ r.channel.receiving = true ∧
      r.channel.queue ≠ []) := by
  rcases hc.offer hs chunk with ⟨c, ho, hc', hs', hr⟩ | ⟨ho, hr, hq⟩ | ⟨ho, hr, hc'⟩
  · exact .inl ⟨{ a with entity := some { r with channel := c } }, { r with channel := c },
      by simp [Assembly.deliver, ha, ho], rfl, rfl, hc', hs', hr, rfl⟩
  · exact .inr ⟨by simp [Assembly.deliver, ha, ho], hr, hq⟩
  · exact .inl ⟨a, r, by simp [Assembly.deliver, ha, ho], ha, rfl, hc', hs, rfl, rfl⟩

lemma next_chunk {chunk rest : Bytes} (hg : given <+: b)
    (hb : b.drop given.length = chunk ++ rest) (hle : chunk.length ≤ n - given.length)
    (hn : given.length ≤ n) :
    given ++ chunk <+: b ∧ (given ++ chunk).length ≤ n ∧ b.drop (given ++ chunk).length = rest ∧
      n - given.length - chunk.length = n - (given ++ chunk).length := by
  obtain ⟨t, rfl⟩ := hg
  rw [List.drop_left] at hb
  subst hb
  rw [← List.append_assoc, List.length_append, List.drop_left' List.length_append]
  exact ⟨List.prefix_append .., by omega, rfl, by omega⟩

/-! ### The other party -/

def SameService (y x : Exchange) : Prop :=
  y.service = x.service ∧ y.sink = x.sink ∧ y.buffer = x.buffer ∧ y.version = x.version

lemma stepIntake_sameService (x : Exchange) : x.stepIntake.All (SameService · x) := by
  have say : ∀ (y : Exchange) (n : Nat), y.SameService x → (y.sayUnparsed n).SameService x := by
    intro y n h
    unfold sayUnparsed
    split <;> exact h
  unfold stepIntake
  split
  · trivial
  · split
    · trivial
    · exact ⟨rfl, rfl, rfl, rfl⟩
  · split
    · exact ⟨rfl, rfl, rfl, rfl⟩
    · split
      · exact ⟨rfl, rfl, rfl, rfl⟩
      · split <;> exact ⟨rfl, rfl, rfl, rfl⟩
      · exact ⟨rfl, rfl, rfl, rfl⟩
      · exact ⟨rfl, rfl, rfl, rfl⟩
      · exact say _ _ ⟨rfl, rfl, rfl, rfl⟩

lemma after_intake_sameService (x : Exchange) : (x.after .intake).SameService x :=
  after_of_all (p := .intake) (P := (SameService · x)) x.stepIntake_sameService ⟨rfl, rfl, rfl, rfl⟩

/-! ### Steps -/

/-- More of the entity is to come, but the bytes are over, and the intake is about to hear why. -/
def RunsOut (n : Nat) (b : Bytes) (fate : Option TransportError) (given : Bytes) (x : Exchange) :
    Prop :=
  given = b ∧ b.length < n ∧
    ((fate = none ∧ ∃ r, x.reader.pull = (.ended 0, r)) ∨
      ∃ e, fate = some e ∧ ∃ r, x.reader.pull = (.failed (.transport e), r))

/-- The intake goes on in a step, and the service does not notice. -/
def Goes (l : Lexicon) (n : Nat) (b : Bytes) (fate : Option TransportError) (got : List Bytes)
    (r : Receiving) (x : Exchange) : Prop :=
  ∃ y given r', (x.stepIntake = .moved y ∨ x.stepIntake = .yielded y) ∧
    Carried l n b fate given got r' y ∧ r'.channel.receiving = r.channel.receiving ∧
    r'.channel.finished = r.channel.finished ∧ y.SameService x

namespace Carried

lemma sending_true (h : Carried l n b fate given got r x) (hd : x.assembly.done = false) :
    r.channel.sending = true := by rw [h.sending, hd]; rfl

lemma goes_end (h : Carried l n b fate given got r x) (hi : x.intake = .reading)
    (hd : x.assembly.done = false) (hall : given.length = n) {r' : FrameReader}
    (hp : x.reader.pull = (.frame .entityEnd, r'))
    (hr : r'.Stands l .requestLine (b.drop given.length) fate) : Goes l n b fate got r x := by
  have hhand : x.inHand = [] := by rw [inHand, hi]
  have hpush := Assembly.push_end h.entity hd
  refine ⟨{ x with
      reader := r'
      assembly := { x.assembly.onChannel Channel.hangUp with done := true } }, given,
    { r with channel := r.channel.hangUp },
    .inl (by simp [Exchange.stepIntake, hi, hd, hp, hpush]), ?_, rfl, rfl, rfl, rfl, rfl, rfl⟩
  exact {
    entity := by simp [Assembly.onChannel, h.entity]
    carries := h.carries.hangUp hall
    sending := rfl
    received := h.received
    begins := h.begins
    le := h.le
    reader := by simpa [inHand, hi] using hr
    intake := by simp [hi] }

lemma goes_chunk (h : Carried l n b fate given got r x) (hi : x.intake = .reading)
    (hd : x.assembly.done = false) {c rest : Bytes} {r' : FrameReader}
    (hp : x.reader.pull = (.frame (.entityChunk c), r')) (hb : b.drop given.length = c ++ rest)
    (hlen : c.length ≤ n - given.length)
    (hr : r'.Stands l (.outstanding (n - given.length - c.length)) rest fate) :
    Goes l n b fate got r x := by
  have hhand : x.inHand = [] := by rw [inHand, hi]
  have hbegins := h.begins
  have hle := h.le
  rw [hhand, List.append_nil] at hbegins hle
  obtain ⟨hbegins', hle', hdrop, hm⟩ := next_chunk hbegins hb hlen hle
  rw [hm, ← hdrop] at hr
  have hsend := h.sending_true hd
  have hcount := Assembly.count_entity h.entity c
  have hpush := Assembly.push_chunk hd c
  have hreceived : r.received + c.length = (given ++ c).length := by
    rw [h.received, hhand, List.append_nil, List.length_append]
  rcases deliver_carries hcount h.carries hsend c with
    ⟨a, s, hdel, ha, hdone, hcar, hs, hrec, hcounted⟩ | ⟨hdel, -, -⟩
  · refine ⟨{ x with reader := r', assembly := a }, given ++ c, s,
      .inl (by simp [Exchange.stepIntake, hi, hd, hp, hpush, hdel]), ?_, hrec, ?_,
      rfl, rfl, rfl, rfl⟩
    · have hadone : a.done = false := hdone.trans hd
      exact {
        entity := ha
        carries := hcar
        sending := by simp [hs, hadone]
        received := by simpa [inHand, hi] using hcounted.trans hreceived
        begins := by simpa [inHand, hi] using hbegins'
        le := by simpa [inHand, hi] using hle'
        reader := by simpa [inHand, hi, hadone] using hr
        intake := by simp [hi] }
    · rw [hcar.unfinished hs, h.carries.unfinished hsend]
  · refine ⟨{ x with reader := r', assembly := x.assembly.count c, intake := .holding c }, given,
      { r with received := r.received + c.length },
      .inl (by simp [Exchange.stepIntake, hi, hd, hp, hpush, hdel]), ?_, rfl, rfl,
      rfl, rfl, rfl, rfl⟩
    exact {
      entity := hcount
      carries := h.carries
      sending := h.sending
      received := by simpa [inHand] using hreceived
      begins := by simpa [inHand] using hbegins'
      le := by simpa [inHand] using hle'
      reader := by simpa [inHand, Assembly.count, hd] using hr
      intake := hd }

lemma goes_reading (h : Carried l n b fate given got r x) (hi : x.intake = .reading)
    (hd : x.assembly.done = false) : Goes l n b fate got r x ∨ x.RunsOut n b fate given := by
  have hhand : x.inHand = [] := by rw [inHand, hi]
  have hbegins := h.begins
  have hle := h.le
  have hreader := h.reader
  rw [hhand, List.append_nil] at hbegins hle hreader
  rw [hd, if_neg (by simp)] at hreader
  have hscan := scan_outstanding l (n - given.length) (b.drop given.length)
  -- where a scan is pending, all bytes have been given
  have spent : ∀ {r'}, (Phase.outstanding (n - given.length)).scan l (b.drop given.length) =
      .ok (.pending r') → b.drop given.length = [] ∧ given = b ∧ b.length < n := by
    intro r' hpending
    rcases hscan with ⟨f, rest, hdone⟩ | ⟨hnil, hm, -⟩
    · simp [hdone] at hpending
    · obtain ⟨t, rfl⟩ := hbegins
      rw [List.drop_left] at hnil
      subst hnil
      rw [List.append_nil]
      exact ⟨List.drop_length, rfl, by omega⟩
  have hans := hreader.answers
  rcases hp : x.reader.pull with ⟨q, r'⟩
  rw [hp] at hans
  cases hans with
  | frame htakes hstands =>
    rcases takes_outstanding htakes with ⟨hm, rfl, rfl⟩ | ⟨c, rfl, hlen, hb, hphase⟩
    · rw [hm] at hstands
      exact .inl (h.goes_end hi hd (by omega) hp hstands)
    · rw [hphase] at hstands
      exact .inl (h.goes_chunk hi hd hp hb hlen hstands)
  | blocked hstands =>
    refine .inl ⟨{ x with reader := r' }, given, r,
      .inr (by simp [Exchange.stepIntake, hi, hd, hp]), ?_, rfl, rfl, rfl, rfl, rfl, rfl⟩
    exact { h with reader := by simpa [inHand, hi, hd] using hstands }
  | malformed hs _ =>
    rcases hscan with ⟨f, rest, hdone⟩ | ⟨-, -, hpending⟩ <;> simp_all
  | broken hs hfate _ =>
    obtain ⟨-, hgiven, hshort⟩ := spent hs
    exact .inr ⟨hgiven, hshort, .inr ⟨_, hfate, r', hp⟩⟩
  | ended hs hfate _ =>
    obtain ⟨hnil, hgiven, hshort⟩ := spent hs
    rw [hnil] at hp
    exact .inr ⟨hgiven, hshort, .inl ⟨hfate, r', hp⟩⟩

lemma goes_done (h : Carried l n b fate given got r x) (hi : x.intake = .reading)
    (hd : x.assembly.done = true) : Goes l n b fate got r x := by
  have hhand : x.inHand = [] := by rw [inHand, hi]
  have hhand' : (x.endIntake (.ok ())).inHand = [] := rfl
  have hend : (x.endIntake (.ok ())).assembly.done = true := hd
  refine ⟨x.endIntake (.ok ()), given, { r with channel := r.channel.hangUp },
    .inl (by simp [Exchange.stepIntake, hi, hd]), ?_, rfl, rfl, rfl, rfl, rfl, rfl⟩
  exact {
    entity := by simp [endIntake, Assembly.drop, Assembly.onChannel, h.entity]
    carries := h.carries.hangUp (h.given_length hd)
    sending := by rw [hend]; rfl
    received := by simpa [hhand, hhand'] using h.received
    begins := by simpa [hhand, hhand'] using h.begins
    le := by simpa [hhand, hhand'] using h.le
    reader := by
      have hreader := h.reader
      rw [hd, hhand] at hreader
      rw [hend]
      exact hreader
    intake := ⟨rfl, hd⟩ }

lemma goes_holding (h : Carried l n b fate given got r x) {chunk : Bytes}
    (hi : x.intake = .holding chunk) :
    Goes l n b fate got r x ∨
      x.stepIntake = .stuck ∧ r.channel.receiving = true ∧ r.channel.queue ≠ [] := by
  have hd : x.assembly.done = false := by simpa [hi] using h.intake
  have hhand : x.inHand = chunk := by rw [inHand, hi]
  have hsend := h.sending_true hd
  rcases deliver_carries h.entity h.carries hsend chunk with
    ⟨a, s, hdel, ha, hdone, hcar, hs, hrec, hcounted⟩ | ⟨hdel, hrec, hq⟩
  · have hadone : a.done = false := hdone.trans hd
    refine .inl ⟨{ x with assembly := a, intake := .reading }, given ++ chunk, s,
      .inl (by simp [Exchange.stepIntake, hi, hdel]), ?_, hrec, ?_, rfl, rfl, rfl, rfl⟩
    · exact {
        entity := ha
        carries := hcar
        sending := by simp [hs, hadone]
        received := by simpa [inHand, hi] using hcounted.trans h.received
        begins := by simpa [inHand, hi] using h.begins
        le := by simpa [inHand, hi] using h.le
        reader := by simpa [inHand, hi, hd, hadone] using h.reader
        intake := trivial }
    · rw [hcar.unfinished hs, h.carries.unfinished hsend]
  · exact .inr ⟨by simp [Exchange.stepIntake, hi, hdel], hrec, hq⟩

/-- **A step of the intake**: it goes on, unless it is done, waits for a receiver who is there and
has something to receive, or the bytes run out. -/
lemma stepIntake (h : Carried l n b fate given got r x) :
    Goes l n b fate got r x ∨
      (x.stepIntake = .stuck ∧ ((x.intake = .ended (.ok ()) ∧ x.assembly.done = true) ∨
        r.channel.receiving = true ∧ r.channel.queue ≠ [])) ∨
      (x.intake = .reading ∧ x.assembly.done = false ∧ x.RunsOut n b fate given) := by
  rcases hi : x.intake with _ | chunk | result
  · rcases hd : x.assembly.done with _ | _
    · rcases h.goes_reading hi hd with hgoes | hout
      · exact .inl hgoes
      · exact .inr (.inr ⟨rfl, rfl, hout⟩)
    · exact .inl (h.goes_done hi hd)
  · rcases h.goes_holding hi with hgoes | ⟨hs, hwait⟩
    · exact .inl hgoes
    · exact .inr (.inl ⟨hs, .inr hwait⟩)
  · obtain ⟨rfl, hd⟩ : result = .ok () ∧ x.assembly.done = true := by simpa [hi] using h.intake
    exact .inr (.inl ⟨by simp [Exchange.stepIntake, hi], .inl ⟨rfl, hd⟩⟩)

end Carried

end Exchange

end Http1
