import Http1.Assembly
import Http1.Proofs.Grammar

/-!
Frames of a connection, pushed into assemblies.

An assembly keeps a count of its own of what may come. It agrees with the grammar: of the frames
of a connection it refuses none, and it releases the request of a message once, with the line,
the headers and the length that the framing has seen. What becomes of the channel meanwhile makes
no difference.
-/

namespace Http1

open Assembly (Pushed)

namespace Message

def restAnswers (capacity : Nat) (m : Message) : List (Frame × Pushed) :=
  if 0 < m.length then
    (.entityStart m.length,
        .released ⟨m.line, m.headers, .streaming (.create m.length capacity)⟩) ::
      m.chunks.map (fun c => (.entityChunk c, .accepted)) ++ [(.entityEnd, .accepted)]
  else [(.entityEnd, .released ⟨m.line, m.headers, .empty⟩)]

/-- What becomes of the frames of a message: its request is released with the start of its
entity, or with its end if it has none. -/
def answers (capacity : Nat) (m : Message) : List (Frame × Pushed) :=
  (.requestLine m.line, .accepted) :: m.headers.map (fun h => (.header h, .accepted)) ++
    m.restAnswers capacity

lemma map_fst_answers (capacity : Nat) (m : Message) :
    (m.answers capacity).map Prod.fst = m.frames := by
  unfold answers restAnswers frames entityFrames headFrames
  split <;> simp [Function.comp_def]

lemma map_fst_flatMap_answers (capacity : Nat) (ms : List Message) :
    (ms.flatMap (answers capacity)).map Prod.fst = ms.flatMap frames := by
  rw [List.map_flatMap]
  exact congrArg (List.flatMap · ms) (funext (map_fst_answers capacity))

lemma accepted_or_released {capacity : Nat} {ms : List Message} {f : Frame} {q : Pushed}
    (h : (f, q) ∈ ms.flatMap (answers capacity)) : q = .accepted ∨ ∃ r, q = .released r := by
  obtain ⟨m, -, h⟩ := List.mem_flatMap.1 h
  cases q with
  | accepted => exact .inl rfl
  | released r => exact .inr ⟨r, rfl⟩
  | _ =>
    unfold answers restAnswers at h
    split at h <;> simp at h

end Message

namespace Assembly

/-! ### One frame -/

/-- The assembly is ready for the frames of some messages, and this is what becomes of them. -/
inductive Ready (k : Nat) : Assembly → List (Frame × Pushed) → Prop where
  | between (ms : List Message) : Ready k (create k) (ms.flatMap (Message.answers k))
  | head {m : Message} {hs later : List Header} (h : m.headers = hs ++ later)
      (ms : List Message) :
      Ready k ⟨k, some m.line, hs, none, false⟩
        (later.map (fun h => (.header h, .accepted)) ++ m.restAnswers k ++
          ms.flatMap (Message.answers k))
  | entity {a : Assembly} (he : a.entity.isSome) (hd : a.done = false) (cs : List Bytes)
      (ms : List Message) :
      Ready k a (cs.map (fun c => (.entityChunk c, .accepted)) ++
        (.entityEnd, .accepted) :: ms.flatMap (Message.answers k))

variable {k : Nat} {a : Assembly} {f : Frame} {q : Pushed} {later : List (Frame × Pushed)}

lemma Ready.of_entity {b : Assembly} (h : Ready k a later) (ha : a.entity.isSome)
    (hb : b.entity.isSome) (hd : b.done = false) : Ready k b later := by
  cases h with
  | between ms => simp [create] at ha
  | head h ms => simp at ha
  | entity _ _ cs ms => exact .entity hb hd cs ms

lemma Ready.done_eq_false (h : Ready k a later) : a.done = false := by
  cases h with
  | between ms => rfl
  | head h ms => rfl
  | entity he hd cs ms => exact hd

lemma Ready.onChannel (h : Ready k a later) (g : Channel → Channel) :
    Ready k (a.onChannel g) later := by
  cases h with
  | between ms => exact .between ms
  | head h ms => exact .head h ms
  | entity he hd cs ms =>
    have he' : (a.onChannel g).entity.isSome := by simpa [Assembly.onChannel] using he
    exact .entity he' hd cs ms

lemma deliver_cases (he : a.entity.isSome) (c : Bytes) :
    ((a.deliver c).1 = .accepted ∨ (a.deliver c).1 = .blocked c) ∧
      (a.deliver c).2.entity.isSome ∧ (a.deliver c).2.done = a.done := by
  obtain ⟨r, hr⟩ := Option.isSome_iff_exists.1 he
  simp only [deliver, hr]
  split <;> simp [hr]

lemma channel?_count (a : Assembly) (c : Bytes) : (a.count c).channel? = a.channel? := by
  cases h : a.entity <;> simp [channel?, count, h]

/-- A chunk of the stream need not wait. -/
def Roomy (a : Assembly) : Prop := ∀ c, a.channel? = some c → c.Roomy

lemma Roomy.deliver (h : a.Roomy) (b c : Bytes) : (a.deliver b).1 ≠ .blocked c := by
  unfold Assembly.deliver
  split
  · simp
  · rename_i r hr
    have hroom : r.channel.Roomy := h _ (by rw [channel?, hr]; rfl)
    split
    · simp
    · exact absurd ‹_› (hroom.offer b)
    · simp

lemma Roomy.push (h : a.Roomy) (f : Frame) (c : Bytes) : (a.push f).1 ≠ .blocked c := by
  intro hblocked
  obtain ⟨b, -, hpush⟩ := push_of_blocked hblocked
  have hcount : (a.count b).Roomy := fun d hd => h d (a.channel?_count b ▸ hd)
  exact hcount.deliver b c (hpush ▸ hblocked)

/-- **A frame in its turn** is answered as it should be; a chunk may have to wait first. -/
lemma Ready.push (h : Ready k a ((f, q) :: later)) :
    ((a.push f).1 = q ∧ Ready k (if f.isEnd then create k else (a.push f).2) later) ∨
      ∃ c, f = .entityChunk c ∧ q = .accepted ∧ (a.push f).1 = .blocked c ∧
        (a.push f).2.entity.isSome ∧ Ready k (a.push f).2 later := by
  generalize hrest : (f, q) :: later = rest at h
  cases h with
  | between ms =>
    rcases ms with _ | ⟨m, ms⟩
    · simp at hrest
    · obtain ⟨⟨rfl, rfl⟩, rfl⟩ : (f = .requestLine m.line ∧ q = .accepted) ∧ later = _ := by
        simpa [Message.answers] using hrest
      refine .inl ⟨rfl, ?_⟩
      have : Ready k ⟨k, some m.line, [], none, false⟩ _ := .head (m := m) rfl ms
      simpa [Assembly.push, create, Frame.isEnd] using this
  | @head m hs ls hm ms =>
    rcases ls with _ | ⟨x, ls⟩
    · rw [List.append_nil] at hm
      rw [List.map_nil, List.nil_append, Message.restAnswers] at hrest
      split at hrest
      · obtain ⟨⟨rfl, rfl⟩, rfl⟩ := by simpa using hrest
        refine .inl ⟨by simp [Assembly.push, release, hm], .entity ?_ ?_ m.chunks ms⟩
        · simp [Assembly.push, release, Frame.isEnd]
        · simp [Assembly.push, release, Frame.isEnd]
      · obtain ⟨⟨rfl, rfl⟩, rfl⟩ := by simpa using hrest
        exact .inl ⟨by simp [Assembly.push, release, hm], .between ms⟩
    · obtain ⟨⟨rfl, rfl⟩, rfl⟩ : (f = .header x ∧ q = .accepted) ∧ later = _ := by
        simpa using hrest
      refine .inl ⟨by simp [Assembly.push], ?_⟩
      have hmore : m.headers = (hs ++ [x]) ++ ls := by simp [hm]
      have := Ready.head (k := k) hmore ms
      simpa [Assembly.push, Frame.isEnd] using this
  | entity he hd cs ms =>
    obtain ⟨r, hr⟩ := Option.isSome_iff_exists.1 he
    rcases cs with _ | ⟨c, cs⟩
    · obtain ⟨⟨rfl, rfl⟩, rfl⟩ := by simpa using hrest
      exact .inl ⟨by simp [Assembly.push, hd, hr], .between ms⟩
    · obtain ⟨⟨rfl, rfl⟩, rfl⟩ : (f = .entityChunk c ∧ q = .accepted) ∧ later = _ := by
        simpa using hrest
      have hc : (a.count c).entity.isSome := by rw [count_entity hr]; rfl
      obtain ⟨hans, he', hd'⟩ := deliver_cases hc c
      have hready : Ready k ((a.count c).deliver c).2 _ := .entity he' (hd'.trans hd) cs ms
      rw [push_chunk hd]
      rcases hans with hans | hans
      · exact .inl ⟨hans, hready⟩
      · exact .inr ⟨c, rfl, rfl, hans, he', hready⟩

end Assembly

/-! ### All frames -/

/-- Frames on their way into assemblies, of which each message has one. -/
structure Assembling where
  assembly : Assembly
  /-- A chunk that waits for room. -/
  held : Option Bytes
  upcoming : List Frame
  /-- The frames that have been taken, and what has become of them. -/
  answered : List (Frame × Pushed)

namespace Assembling

def start (k : Nat) (fs : List Frame) : Assembling := ⟨.create k, none, fs, []⟩

inductive Event where
  | frame
  | receiver (g : Channel → Channel)

/-- Pushes the next frame, or offers the chunk again that waits. -/
def push (k : Nat) (x : Assembling) : Assembling :=
  match x.held, x.upcoming with
  | some c, _ =>
    match x.assembly.deliver c with
    | (.blocked _, _) => x
    | (q, a) =>
      { x with assembly := a, held := none, answered := x.answered ++ [(.entityChunk c, q)] }
  | none, [] => x
  | none, f :: fs =>
    match x.assembly.push f with
    | (.blocked c, a) => { x with assembly := a, held := some c, upcoming := fs }
    | (q, a) =>
      { x with
        assembly := if f.isEnd then .create k else a
        upcoming := fs
        answered := x.answered ++ [(f, q)] }

def step (k : Nat) (x : Assembling) : Event → Assembling
  | .frame => x.push k
  | .receiver g => { x with assembly := x.assembly.onChannel g }

def run (k : Nat) (x : Assembling) (es : List Event) : Assembling := es.foldl (step k) x

/-- The frames that are not answered yet. -/
def waiting (x : Assembling) : List Frame := x.held.toList.map .entityChunk ++ x.upcoming

def due (x : Assembling) : List (Frame × Pushed) :=
  x.held.toList.map fun c => (.entityChunk c, .accepted)

/-- All goes as it should with the frames of these messages: those that have been taken, the one
that waits, and those to come. -/
structure Sound (k : Nat) (fs : List Frame) (ms : List Message) (x : Assembling) : Prop where
  taken : x.answered.map Prod.fst ++ x.due.map Prod.fst ++ x.upcoming = fs
  waits : x.held.isSome → x.assembly.entity.isSome
  ready : ∃ later, x.assembly.Ready k later ∧ x.upcoming <+: later.map Prod.fst ∧
    x.answered ++ x.due ++ later = ms.flatMap (Message.answers k)

variable {k : Nat} {f : Frame} {fs : List Frame} {ms : List Message} {x : Assembling}

/-! ### One push -/

lemma push_next (h : x.held = none) (hup : x.upcoming = f :: fs)
    (hq : ∀ c, (x.assembly.push f).1 ≠ .blocked c) :
    x.push k = { x with
      assembly := if f.isEnd then .create k else (x.assembly.push f).2
      upcoming := fs
      answered := x.answered ++ [(f, (x.assembly.push f).1)] } := by
  rcases ha : x.assembly.push f with ⟨q, a⟩
  rw [ha] at hq
  cases q with
  | blocked c => exact absurd rfl (hq c)
  | _ => simp only [push, h, hup, ha]

lemma push_next_blocked {c : Bytes} (h : x.held = none) (hup : x.upcoming = f :: fs)
    (hq : (x.assembly.push f).1 = .blocked c) :
    x.push k =
      { x with assembly := (x.assembly.push f).2, held := some c, upcoming := fs } := by
  rcases ha : x.assembly.push f with ⟨q, a⟩
  obtain rfl : q = .blocked c := by rw [← hq, ha]
  simp only [push, h, hup, ha]

lemma push_held {c : Bytes} (h : x.held = some c)
    (hq : ∀ b, (x.assembly.deliver c).1 ≠ .blocked b) :
    x.push k = { x with
      assembly := (x.assembly.deliver c).2
      held := none
      answered := x.answered ++ [(.entityChunk c, (x.assembly.deliver c).1)] } := by
  rcases ha : x.assembly.deliver c with ⟨q, a⟩
  rw [ha] at hq
  cases q with
  | blocked b => exact absurd rfl (hq b)
  | _ => simp only [push, h, ha]

lemma push_held_blocked {b c : Bytes} (h : x.held = some c)
    (hq : (x.assembly.deliver c).1 = .blocked b) : x.push k = x := by
  rcases ha : x.assembly.deliver c with ⟨q, a⟩
  obtain rfl : q = .blocked b := by rw [← hq, ha]
  simp only [push, h, ha]

lemma push_over (h : x.held = none) (hup : x.upcoming = []) : x.push k = x := by
  simp only [push, h, hup]

/-- A frame for which there is room is answered at once. -/
lemma push_roomy (h : x.assembly.Roomy) (hx : x.waiting = f :: fs) :
    ∃ q, (x.push k).answered = x.answered ++ [(f, q)] ∧ (x.push k).waiting = fs := by
  rcases hheld : x.held with _ | c
  · have hup : x.upcoming = f :: fs := by simpa [waiting, hheld] using hx
    rw [push_next hheld hup (h.push f)]
    exact ⟨_, rfl, by simp [waiting, hheld]⟩
  · obtain ⟨rfl, hup⟩ : .entityChunk c = f ∧ x.upcoming = fs := by simpa [waiting, hheld] using hx
    rw [push_held hheld (h.deliver c)]
    exact ⟨_, rfl, by simp [waiting, hup]⟩

lemma sound_start (h : fs <+: ms.flatMap Message.frames) : Sound k fs ms (start k fs) where
  taken := rfl
  waits := by simp [start]
  ready := ⟨_, .between ms, by rwa [Message.map_fst_flatMap_answers], rfl⟩

lemma Sound.push (h : Sound k fs ms x) : Sound k fs ms (x.push k) := by
  obtain ⟨taken, waits, later, ready, hup, hall⟩ := h
  rcases hx : x.held with _ | c
  · rcases hupcoming : x.upcoming with _ | ⟨f, fs'⟩
    · rw [push_over hx hupcoming]
      exact ⟨taken, waits, later, ready, hup, hall⟩
    rcases later with _ | ⟨⟨f', q⟩, later⟩
    · simp [hupcoming] at hup
    obtain ⟨rfl, hfs⟩ : f = f' ∧ fs' <+: later.map Prod.fst := by simpa [hupcoming] using hup
    have htaken : x.answered.map Prod.fst ++ f :: fs' = fs := by
      simpa [due, hx, hupcoming] using taken
    have hall' : x.answered ++ (f, q) :: later = ms.flatMap (Message.answers k) := by
      simpa [due, hx] using hall
    have hmem : (f, q) ∈ ms.flatMap (Message.answers k) := by simp [← hall']
    rcases ready.push with ⟨hp, hr⟩ | ⟨c, rfl, rfl, hp, he, hr⟩
    · have hq : ∀ c, (x.assembly.push f).1 ≠ .blocked c := fun c hc => by
        rcases Message.accepted_or_released hmem with hq | ⟨r, hq⟩ <;> simp [← hp, hc] at hq
      rw [push_next hx hupcoming hq, hp]
      exact ⟨by simpa [due, hx] using htaken, by simp [hx], later, hr, hfs,
        by simpa [due, hx] using hall'⟩
    · rw [push_next_blocked hx hupcoming hp]
      exact ⟨by simpa [due] using htaken, fun _ => he, later, hr, hfs, by simpa [due] using hall'⟩
  · have he : x.assembly.entity.isSome := waits (by rw [hx]; rfl)
    obtain ⟨hans, he', hd'⟩ := Assembly.deliver_cases he c
    rcases hans with hans | hans
    · rw [push_held hx (by simp [hans]), hans]
      exact ⟨by simpa [due, hx] using taken, by simp, later,
        ready.of_entity he he' (hd'.trans ready.done_eq_false), hup, by simpa [due, hx] using hall⟩
    · rw [push_held_blocked hx hans]
      exact ⟨taken, waits, later, ready, hup, hall⟩

lemma Sound.step (h : Sound k fs ms x) (e : Event) : Sound k fs ms (x.step k e) := by
  cases e with
  | frame => exact h.push
  | receiver g =>
    obtain ⟨later, ready, hup, hall⟩ := h.ready
    exact ⟨h.taken, fun hx => by simpa [Assembling.step, Assembly.onChannel] using h.waits hx,
      later, ready.onChannel g, hup, hall⟩

lemma Sound.run (h : Sound k fs ms x) (es : List Event) : Sound k fs ms (x.run k es) := by
  induction es generalizing x with
  | nil => exact h
  | cons e es ih => exact ih (h.step e)

end Assembling

/-- **Frames come in messages, and each message is one request**: the frames of a connection are
a beginning of some messages in a row; assemblies that are given them, one for each message, have
answered with a beginning of what these messages call for, whatever the receiver does meanwhile,
and nothing is refused. Where a chunk need not wait for room, the next frame is answered. -/
theorem Assembling.messages_answered (l : Lexicon) (s : List Framing.Piece) (k : Nat)
    (es : List Assembling.Event) :
    ∃ ms : List Message,
      ((Framing.init l).play s).1 <+: ms.flatMap Message.frames ∧
      let x := (Assembling.start k ((Framing.init l).play s).1).run k es
      x.answered <+: ms.flatMap (Message.answers k) ∧
      x.answered.map Prod.fst ++ x.waiting = ((Framing.init l).play s).1 ∧
      (∀ f q, (f, q) ∈ x.answered → q = .accepted ∨ ∃ r, q = .released r) ∧
      ∀ f fs, x.assembly.Roomy → x.waiting = f :: fs →
        ∃ q, (x.push k).answered = x.answered ++ [(f, q)] ∧ (x.push k).waiting = fs := by
  obtain ⟨ms, tail, q, hplay, hq⟩ := Framing.frames_play l s
  obtain ⟨more, hmore⟩ := hq.begins
  have hfs : ((Framing.init l).play s).1 <+: (ms ++ more).flatMap Message.frames := by
    rw [hplay, List.flatMap_append]
    exact (List.prefix_append_right_inj _).2 hmore
  have hx := (Assembling.sound_start (k := k) hfs).run es
  obtain ⟨later, -, -, hall⟩ := hx.ready
  rw [List.append_assoc] at hall
  have hpre : (Assembling.run k (start k ((Framing.init l).play s).1) es).answered <+:
      (ms ++ more).flatMap (Message.answers k) := ⟨_, hall⟩
  refine ⟨ms ++ more, hfs, hpre, ?_, fun f q hfq => ?_, fun f fs => push_roomy⟩
  · have := hx.taken
    simpa [due, waiting, Function.comp_def] using this
  · exact Message.accepted_or_released (hpre.subset hfq)

end Http1
