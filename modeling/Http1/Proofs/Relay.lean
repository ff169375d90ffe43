import Http1.Proofs.Assembling
import Http1.Proofs.Draining

/-!
Frames pushed into a single assembly, whose request goes to a receiver.

A push is answered at once, or its chunk waits for room until the receiver has looked or left.
Whatever frames come, in order or not, an assembly does one of eleven things with each; what it does
depends on the channel of the stream only in that a chunk may have to wait. Main statement: a
receiver who looks, or has left, lets every frame through.
-/

namespace Http1

open Assembly (Pushed)

namespace Assembly

variable {a a' : Assembly} {f : Frame} {q : Pushed} {c : Bytes} {k : Nat}

/-! ### One frame -/

/-- The frame is out of order, and leaves no mark. -/
def Misplaced (a : Assembly) : Frame → Prop
  | .requestLine _ => a.entity.isSome
  | .header _ => a.line = none ∨ a.entity.isSome
  | .entityStart _ => a.entity.isSome
  | .entityChunk _ => a.entity = none
  | .entityEnd => False

inductive Does (a : Assembly) : Frame → Pushed → Assembly → Prop
  | late {f : Frame} : a.done = true → Does a f .refused a
  | misplaced {f : Frame} : a.done = false → a.Misplaced f → Does a f .refused a
  | line {l : RequestLine} : a.done = false → a.entity = none → a.line = none →
      Does a (.requestLine l) .accepted { a with line := some l }
  /-- A second request line is refused, but takes the place of the first. -/
  | again {l l' : RequestLine} : a.done = false → a.entity = none → a.line = some l' →
      Does a (.requestLine l) .refused { a with line := some l }
  | header {l : RequestLine} {h : Header} : a.done = false → a.entity = none → a.line = some l →
      Does a (.header h) .accepted { a with headers := a.headers ++ [h] }
  | start {l : RequestLine} {n : Nat} : a.done = false → a.entity = none → a.line = some l →
      Does a (.entityStart n) (.released ⟨l, a.headers, .streaming (.create n a.capacity)⟩)
        { a with line := none, headers := [], entity := some ⟨.create n a.capacity, 0⟩ }
  /-- Without a request line there is nobody to receive the stream. -/
  | headless {n : Nat} : a.done = false → a.entity = none → a.line = none →
      Does a (.entityStart n) .refused
        { a with entity := some ⟨(Channel.create n a.capacity).leave, 0⟩ }
  | chunk {r : Receiving} {c : Bytes} : a.done = false → a.entity = some r →
      Does a (.entityChunk c) ((a.count c).deliver c).1 ((a.count c).deliver c).2
  | ending {r : Receiving} : a.done = false → a.entity = some r →
      Does a .entityEnd .accepted { a.onChannel Channel.hangUp with done := true }
  | bodiless {l : RequestLine} : a.done = false → a.entity = none → a.line = some l →
      Does a .entityEnd (.released ⟨l, a.headers, .empty⟩)
        { a with done := true, line := none, headers := [] }
  | nothing : a.done = false → a.entity = none → a.line = none →
      Does a .entityEnd .refused { a with done := true }

lemma count_of_none (he : a.entity = none) (c : Bytes) : a.count c = a := by
  rw [count, he]
  exact congrArg (Assembly.mk _ _ _ · _) he.symm

/-- **What a push comes to** is one of these. -/
theorem push_does (a : Assembly) (f : Frame) : a.Does f (a.push f).1 (a.push f).2 := by
  rcases hd : a.done with _ | _
  · rcases he : a.entity with _ | r
    · cases f with
      | requestLine l =>
        rcases hl : a.line with _ | l'
        · simpa [push, hd, he, hl] using Does.line hd he hl
        · simpa [push, hd, he, hl] using Does.again hd he hl
      | header h =>
        rcases hl : a.line with _ | l
        · simpa [push, hd, hl] using Does.misplaced (f := .header h) hd (Or.inl hl)
        · simpa [push, hd, he, hl] using Does.header hd he hl
      | entityStart n =>
        rcases hl : a.line with _ | l
        · simpa [push, release, hd, he, hl] using Does.headless hd he hl
        · simpa [push, release, hd, he, hl] using Does.start hd he hl
      | entityChunk c =>
        simpa [push, deliver, hd, he, count_of_none he] using
          Does.misplaced (f := .entityChunk c) hd he
      | entityEnd =>
        rcases hl : a.line with _ | l
        · simpa [push, release, hd, he, hl] using Does.nothing hd he hl
        · simpa [push, release, hd, he, hl] using Does.bodiless hd he hl
    · have hsome : a.entity.isSome := by rw [he]; rfl
      cases f with
      | requestLine l => simpa [push, hd, he] using Does.misplaced (f := .requestLine l) hd hsome
      | header h => simpa [push, hd, he] using Does.misplaced (f := .header h) hd (Or.inr hsome)
      | entityStart n => simpa [push, hd, he] using Does.misplaced (f := .entityStart n) hd hsome
      | entityChunk c => simpa [push_chunk hd] using Does.chunk hd he
      | entityEnd => simpa [push_end he hd] using Does.ending hd he
  · simpa [push, hd] using Does.late hd

@[simp] lemma onChannel_id (a : Assembly) : a.onChannel id = a := by simp [onChannel]

lemma deliver_eq (a : Assembly) (c : Bytes) : ∃ g, (a.deliver c).2 = a.onChannel g := by
  have hid : a = a.onChannel id := a.onChannel_id.symm
  unfold deliver
  split
  · exact ⟨id, hid⟩
  · rename_i r hr
    split
    · rename_i c' _
      exact ⟨fun _ => c', by rw [onChannel, hr]; rfl⟩
    · exact ⟨id, hid⟩
    · exact ⟨id, hid⟩

@[simp] lemma isSome_onChannel (a : Assembly) (g : Channel → Channel) :
    (a.onChannel g).entity.isSome = a.entity.isSome := by simp [onChannel]

lemma Does.of_blocked (h : a.Does f q a') (hq : q = .blocked c) :
    f = .entityChunk c ∧ a'.entity.isSome := by
  cases h with
  | @chunk r b hd he =>
    have hsome : (a.count b).entity.isSome := by rw [count_entity he]; rfl
    obtain ⟨hans, hstays, -⟩ := deliver_cases hsome b
    rw [hq] at hans
    obtain ⟨rfl⟩ : c = b := by simpa using hans
    exact ⟨rfl, hstays⟩
  | _ => cases hq

end Assembly

/-! ### All frames -/

/-- What has become of a frame once it is not waiting any more. -/
def Assembly.Pushed.settled : Pushed → Pushed
  | .blocked _ => .accepted
  | q => q

/-- Frames on their way through one assembly to a receiver. -/
structure Relay where
  assembly : Assembly
  /-- A chunk that waits for room. -/
  held : Option Bytes
  upcoming : List Frame
  /-- The frames whose push is over, and what has become of them. -/
  answered : List (Frame × Pushed)
  /-- What the receiver has received of the stream. -/
  got : List Bytes
  /-- The end that the receiver has found. -/
  ending : Option (Option EntityError)

namespace Relay

def start (k : Nat) (fs : List Frame) : Relay := ⟨.create k, none, fs, [], [], none⟩

/-- What may happen: the next frame is pushed, or the chunk offered again that waits; or the
receiver of the stream looks, or leaves. -/
inductive Event where
  | frame
  | look
  | leave
  deriving DecidableEq

/-- The push of a frame is over, unless its chunk has to wait. -/
def settle (x : Relay) (f : Frame) (q : Pushed) (a : Assembly) : Relay :=
  match q with
  | .blocked c => { x with assembly := a, held := some c }
  | q => { x with assembly := a, held := none, answered := x.answered ++ [(f, q)] }

def push (x : Relay) : Relay :=
  match x.held, x.upcoming with
  | some c, _ =>
    let (q, a) := x.assembly.deliver c
    x.settle (.entityChunk c) q a
  | none, [] => x
  | none, f :: fs =>
    let (q, a) := x.assembly.push f
    { x with upcoming := fs }.settle f q a

def receiver (x : Relay) (c : Channel) : Draining := ⟨c, [], x.got, x.ending⟩

def look (x : Relay) : Relay :=
  match x.assembly.channel? with
  | none => x
  | some c =>
    let d := (x.receiver c).look
    { x with
      assembly := x.assembly.onChannel fun _ => d.channel
      got := d.got
      ending := d.ending }

def step (x : Relay) : Event → Relay
  | .frame => x.push
  | .look => x.look
  | .leave => { x with assembly := x.assembly.onChannel Channel.leave }

def run (x : Relay) (es : List Event) : Relay := es.foldl step x

/-- The frames that have been pushed, and what has become of them; a chunk that waits will be
accepted. -/
def record (x : Relay) : List (Frame × Pushed) :=
  x.answered ++ x.held.toList.map fun c => (.entityChunk c, .accepted)

variable {k : Nat} {fs : List Frame} {f : Frame} {q : Pushed} {a : Assembly} {x : Relay}
  {es : List Event}

lemma record_of_held_none (h : x.held = none) : x.record = x.answered := by simp [record, h]

lemma record_settle (hb : ∀ c, q = .blocked c → f = .entityChunk c) :
    (x.settle f q a).record = x.answered ++ [(f, q.settled)] := by
  cases q with
  | blocked c => rw [hb c rfl]; rfl
  | _ => simp [settle, record, Pushed.settled]

@[simp] lemma assembly_settle : (x.settle f q a).assembly = a := by cases q <;> rfl

@[simp] lemma upcoming_settle : (x.settle f q a).upcoming = x.upcoming := by cases q <;> rfl

lemma answered_prefix_settle (x : Relay) : x.answered <+: (x.settle f q a).answered := by
  cases q with
  | blocked c => exact List.prefix_refl _
  | _ => exact List.prefix_append ..

lemma blocked_of_held (h : (x.settle f q a).held.isSome) : ∃ c, q = .blocked c := by
  cases q with
  | blocked c => exact ⟨c, rfl⟩
  | _ => cases h

lemma push_held {c : Bytes} (h : x.held = some c) :
    x.push = x.settle (.entityChunk c) (x.assembly.deliver c).1 (x.assembly.deliver c).2 := by
  rw [push, h]

lemma push_next {fs : List Frame} (h : x.held = none) (hup : x.upcoming = f :: fs) :
    x.push = { x with upcoming := fs }.settle f (x.assembly.push f).1 (x.assembly.push f).2 := by
  rw [push, h, hup]

lemma push_over (h : x.held = none) (hup : x.upcoming = []) : x.push = x := by
  rw [push, h, hup]

lemma look_of_none (h : x.assembly.channel? = none) : x.look = x := by simp only [look, h]

lemma look_of_channel {c : Channel} (h : x.assembly.channel? = some c) :
    x.look = { x with
      assembly := x.assembly.onChannel fun _ => (x.receiver c).look.channel
      got := (x.receiver c).look.got
      ending := (x.receiver c).look.ending } := by
  simp only [look, h]

lemma look_eq (x : Relay) : ∃ g got ending,
    x.look = { x with assembly := x.assembly.onChannel g, got := got, ending := ending } := by
  rcases h : x.assembly.channel? with _ | c
  · exact ⟨id, x.got, x.ending, by rw [look_of_none h, Assembly.onChannel_id]⟩
  · exact ⟨_, _, _, look_of_channel h⟩

/-- No frame is lost, and none comes out of turn. -/
lemma frames_push (x : Relay) :
    x.push.record.map Prod.fst ++ x.push.upcoming = x.record.map Prod.fst ++ x.upcoming := by
  rcases hx : x.held with _ | c
  · rcases hup : x.upcoming with _ | ⟨f, fs⟩
    · rw [push_over hx hup, hup]
    · have hwait := fun c hq => ((x.assembly.push_does f).of_blocked (c := c) hq).1
      rw [push_next hx hup, record_settle hwait, upcoming_settle, record_of_held_none hx]
      simp
  · have hwait := fun b hq => congrArg Frame.entityChunk ((x.assembly.load_deliver c).2 b hq).1.symm
    rw [push_held hx, record_settle hwait, upcoming_settle]
    simp [record, hx]

lemma frames_run (x : Relay) (es : List Event) :
    (x.run es).record.map Prod.fst ++ (x.run es).upcoming =
      x.record.map Prod.fst ++ x.upcoming := by
  induction es generalizing x with
  | nil => rfl
  | cons e es ih =>
    refine (ih (x.step e)).trans ?_
    cases e with
    | frame => exact x.frames_push
    | look =>
      obtain ⟨g, got, ending, hlook⟩ := x.look_eq
      rw [step, hlook]
      rfl
    | leave => rfl

/-! ### What every push keeps -/

/-- A fact about the record and the assembly; and none but a stream keeps a chunk waiting. -/
structure Kept (P : List (Frame × Pushed) → Assembly → Prop) (x : Relay) : Prop where
  holds : P x.record x.assembly
  waits : x.held.isSome → x.assembly.entity.isSome

/-- Every push keeps it, and the channel makes no difference. -/
structure Keeping (P : List (Frame × Pushed) → Assembly → Prop) : Prop where
  channel : ∀ {h : List (Frame × Pushed)} {a : Assembly} (g : Channel → Channel),
    P h a → P h (a.onChannel g)
  frame : ∀ {h : List (Frame × Pushed)} {a a' : Assembly} {f : Frame} {q : Pushed},
    P h a → a.Does f q a' → P (h ++ [(f, q.settled)]) a'

variable {P : List (Frame × Pushed) → Assembly → Prop}

lemma Kept.push (h : x.Kept P) (hP : Keeping P) : x.push.Kept P := by
  rcases hx : x.held with _ | c
  · rcases hup : x.upcoming with _ | ⟨f, fs⟩
    · rwa [push_over hx hup]
    · have hdoes := x.assembly.push_does f
      rw [push_next hx hup]
      generalize (x.assembly.push f).1 = q, (x.assembly.push f).2 = a at hdoes ⊢
      constructor
      · rw [record_settle fun c hq => (hdoes.of_blocked hq).1, assembly_settle]
        exact hP.frame (record_of_held_none hx ▸ h.holds) hdoes
      · intro hheld
        obtain ⟨c, rfl⟩ := blocked_of_held hheld
        exact (hdoes.of_blocked rfl).2
  · have hsome := h.waits (by rw [hx]; rfl)
    obtain ⟨hans, hstays, -⟩ := Assembly.deliver_cases hsome c
    obtain ⟨g, hg⟩ := x.assembly.deliver_eq c
    have hholds := hP.channel g h.holds
    rw [← hg, record, hx] at hholds
    rw [push_held hx]
    generalize (x.assembly.deliver c).1 = q, (x.assembly.deliver c).2 = a at hans hstays hholds ⊢
    constructor
    · rcases hans with rfl | rfl
      · rwa [record_settle (by simp), assembly_settle]
      · rwa [record_settle (by simp), assembly_settle]
    · intro _
      rwa [assembly_settle]

lemma Kept.onChannel (h : x.Kept P) (hP : Keeping P) (g : Channel → Channel) (got : List Bytes)
    (ending : Option (Option EntityError)) :
    Kept P { x with assembly := x.assembly.onChannel g, got := got, ending := ending } where
  holds := hP.channel g h.holds
  waits hx := by
    rw [Assembly.isSome_onChannel]
    exact h.waits hx

lemma Kept.step (h : x.Kept P) (hP : Keeping P) (e : Event) : (x.step e).Kept P := by
  cases e with
  | frame => exact h.push hP
  | look =>
    obtain ⟨g, got, ending, hlook⟩ := x.look_eq
    rw [Relay.step, hlook]
    exact h.onChannel hP g got ending
  | leave => exact h.onChannel hP _ _ _

/-- **Runs keep what every push keeps**, if the channel makes no difference to it. -/
lemma Kept.run (h : x.Kept P) (hP : Keeping P) (es : List Event) : (x.run es).Kept P := by
  induction es generalizing x with
  | nil => exact h
  | cons e es ih => exact ih (h.step hP e)

end Relay

/-! ### Letting frames through -/

namespace Channel

variable {c : Channel}

/-- Nothing is sent to a receiver who has found the end. -/
def Shut (c : Channel) : Prop := c.finished = true → c.Deaf

lemma Shut.of_offer {c' : Channel} {b : Bytes} (h : c.Shut) (ho : c.offer b = .sent c') :
    c'.Shut := by
  obtain ⟨-, rfl⟩ := admits_of_offer ho
  exact h

/-- A receiver who looks makes room, if there is anyone to send. -/
lemma Shut.poll (h : c.Shut) : c.poll.2.Shut ∧ c.poll.2.Roomy := by
  have hpos := c.capacity_pos
  have hle := c.queue_le
  rcases hf : c.finished with _ | _
  · rcases hq : c.queue with _ | ⟨e | chunk, q⟩
    · rcases hs : c.sending with _ | _
      · have hdeaf : c.poll.2.Deaf := .inl (c.sending_poll.trans hs)
        exact ⟨fun _ => hdeaf, .inl hdeaf⟩
      · rw [poll_of_sending hf hq hs]
        exact ⟨h, .inr (by rwa [hq])⟩
    · have hdeaf : c.poll.2.Deaf := .inr (receiving_poll_of_error hf hq)
      exact ⟨fun _ => hdeaf, .inl hdeaf⟩
    · obtain ⟨-, -, -, hqueue, -, -, hfinished⟩ := poll_of_chunk hf hq
      have hroom : c.poll.2.queue.length < c.poll.2.capacity := by
        rw [hqueue, c.poll_keeps.1]
        rw [hq] at hle
        exact hle
      exact ⟨fun hend => by simp [hfinished] at hend, .inr hroom⟩
  · rw [poll_of_finished hf]
    exact ⟨h, .inl (h hf)⟩

end Channel

namespace Assembly

variable {a a' : Assembly} {f : Frame} {q : Pushed} {c : Bytes}

def Shut (a : Assembly) : Prop := ∀ c, a.channel? = some c → c.Shut

lemma shut_of_none (h : a.entity = none) : a.Shut := by simp [Shut, channel?, h]

lemma Shut.onChannel {g : Channel → Channel} (h : a.Shut)
    (hg : ∀ c, a.channel? = some c → c.Shut → (g c).Shut) : (a.onChannel g).Shut := by
  intro c hc
  rw [channel?_onChannel] at hc
  obtain ⟨d, hd, rfl⟩ := Option.map_eq_some_iff.1 hc
  exact hg d hd (h d hd)

lemma Shut.deliver (h : a.Shut) (b : Bytes) : (a.deliver b).2.Shut := by
  rcases he : a.entity with _ | r
  · have hdeliver : a.deliver b = (.refused, a) := by simp [Assembly.deliver, he]
    rwa [hdeliver]
  · have hc : a.channel? = some r.channel := by simp [channel?, he]
    rcases ho : r.channel.offer b with c | _ | _
    · have hdeliver : a.deliver b =
          (.accepted, { a with entity := some { r with channel := c } }) := by
        simp [Assembly.deliver, he, ho]
      rw [hdeliver]
      intro d hd
      obtain rfl : c = d := by simpa [channel?] using hd
      exact (h _ hc).of_offer ho
    · have hdeliver : a.deliver b = (.blocked b, a) := by simp [Assembly.deliver, he, ho]
      rwa [hdeliver]
    · have hdeliver : a.deliver b = (.accepted, a) := by simp [Assembly.deliver, he, ho]
      rwa [hdeliver]

lemma Does.shut (hdoes : a.Does f q a') (h : a.Shut) : a'.Shut := by
  cases hdoes with
  | late => exact h
  | misplaced => exact h
  | line _ he => exact shut_of_none he
  | again _ he => exact shut_of_none he
  | header _ he => exact shut_of_none he
  | start =>
    intro c hc
    obtain rfl := Option.some.inj hc
    simp [Channel.Shut, Channel.create]
  | headless =>
    intro c hc
    obtain rfl := Option.some.inj hc
    exact fun _ => .inr rfl
  | @chunk r b =>
    have hcount : (a.count b).Shut := fun c hc => h c (a.channel?_count b ▸ hc)
    exact hcount.deliver b
  | ending =>
    have hup : (a.onChannel Channel.hangUp).Shut := h.onChannel fun _ _ _ _ => .inl rfl
    exact hup
  | bodiless _ he => exact shut_of_none he
  | nothing _ he => exact shut_of_none he

end Assembly

namespace Relay

variable {k : Nat} {x : Relay}

lemma look_channel (d : Draining) : d.look.channel = d.channel.poll.2 := by
  rw [Draining.look]
  cases d.channel.poll.1 <;> rfl

lemma step_roomy (h : x.assembly.Shut) {e : Event} (he : e ≠ .frame) :
    (x.step e).assembly.Shut ∧ (x.step e).assembly.Roomy ∧ (x.step e).held = x.held ∧
      (x.step e).upcoming = x.upcoming := by
  cases e with
  | frame => exact absurd rfl he
  | look =>
    rcases hc : x.assembly.channel? with _ | c
    · rw [step, look_of_none hc]
      exact ⟨h, by simp [Assembly.Roomy, hc], rfl, rfl⟩
    · obtain ⟨hshut, hroom⟩ := (h c hc).poll
      have hchannel : ∀ d, (x.assembly.onChannel fun _ => (x.receiver c).look.channel).channel? =
          some d → d = c.poll.2 := by
        intro d hd
        rw [Assembly.channel?_onChannel, hc, look_channel] at hd
        exact (Option.some.inj hd).symm
      rw [step, look_of_channel hc]
      exact ⟨fun d hd => hchannel d hd ▸ hshut, fun d hd => hchannel d hd ▸ hroom, rfl, rfl⟩
  | leave =>
    refine ⟨h.onChannel fun _ _ _ _ => .inr rfl, fun d hd => ?_, rfl, rfl⟩
    rw [step, Assembly.channel?_onChannel] at hd
    obtain ⟨c, -, rfl⟩ := Option.map_eq_some_iff.1 hd
    exact .inl (.inr rfl)

lemma push_roomy (h : x.assembly.Shut) (hroom : x.assembly.Roomy) (hx : x.held = none) :
    x.push.assembly.Shut ∧ x.push.held = none ∧ x.push.upcoming = x.upcoming.drop 1 := by
  rcases hup : x.upcoming with _ | ⟨f, fs⟩
  · rw [push_over hx hup]
    exact ⟨h, hx, hup⟩
  · have hshut := (x.assembly.push_does f).shut h
    rw [push_next hx hup, assembly_settle, upcoming_settle]
    refine ⟨hshut, ?_, rfl⟩
    by_contra hheld
    obtain ⟨c, hc⟩ := blocked_of_held (Option.isSome_iff_ne_none.2 hheld)
    exact hroom.push f c hc

/-- **A receiver who looks, or has left, lets every frame through.** -/
lemma run_roomy (h : x.assembly.Shut) (hx : x.held = none) {ts : List Event}
    (hts : ∀ e ∈ ts, e ≠ .frame) :
    (x.run (ts.flatMap fun e => [e, .frame])).held = none ∧
      (x.run (ts.flatMap fun e => [e, .frame])).upcoming = x.upcoming.drop ts.length := by
  induction ts generalizing x with
  | nil => exact ⟨hx, rfl⟩
  | cons e ts ih =>
    obtain ⟨he, hts⟩ := List.forall_mem_cons.1 hts
    obtain ⟨hshut, hroom, hheld, hup⟩ := step_roomy h he
    obtain ⟨hshut', hheld', hup'⟩ := push_roomy hshut hroom (hheld.trans hx)
    have hrun := ih hshut' hheld' hts
    rw [hup', hup, List.drop_drop, Nat.add_comm] at hrun
    exact hrun

end Relay

end Http1
