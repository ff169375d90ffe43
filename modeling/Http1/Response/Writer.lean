import Http1.ConnectionError
import Http1.Response.Head
import Http1.Transport.Sink

/-!
Writing a response to a sink.

The head goes out first, in one piece with an entity that is at hand. A streamed entity follows
chunk by chunk as it is received and is never held as a whole. The sink is flushed at the end.
What a failed write leaves of the head stays in the buffer, in front of the next response.

Main statement: every step costs the writer something, so writing comes to an end.
-/

namespace Http1

inductive Stage where
  /-- The buffer is going out. -/
  | head
  /-- The next chunk has to come. -/
  | waiting
  /-- A chunk is going out. -/
  | chunk (rest : Bytes)
  | flush
  deriving DecidableEq

structure Writer where
  sink : Sink
  buffer : Bytes
  stage : Stage
  deriving DecidableEq

namespace Writer

def start (sink : Sink) (buffer : Bytes) (v : Version) (r : Response) : Writer where
  sink := sink
  buffer := buffer ++ Response.encodeHead v r.status r.headers ++ r.entity.atHand
  stage := .head

inductive Step where
  | moved (w : Writer) (body : Option Channel)
  /-- The sink has put the write off. -/
  | yielded (w : Writer) (body : Option Channel)
  /-- The body has no chunk yet. -/
  | stuck
  | finished (w : Writer) (result : Except ConnectionError Unit)

/-- Writes a piece, of which some is left to go on with. -/
def put (w : Writer) (body : Option Channel) (piece : Bytes) (left : Sink → Bytes → Writer) :
    Step :=
  match w.sink.write piece with
  | (.blocked, s) => .yielded { w with sink := s } body
  | (.took 0, s) => .finished { w with sink := s } (.error (.transport .writeZero))
  | (.took (n + 1), s) => .moved (left s (piece.drop (n + 1))) body
  | (.failed e, s) => .finished { w with sink := s } (.error (.transport e))

/-- One step, with the channel of the body if it is streamed. -/
def step (w : Writer) (body : Option Channel) : Step :=
  match w.stage with
  | .head =>
    if w.buffer = [] then .moved { w with stage := .waiting } body
    else w.put body w.buffer fun s rest => { w with sink := s, buffer := rest }
  | .waiting =>
    match body with
    | none => .moved { w with stage := .flush } none
    | some c =>
      match c.poll with
      | (.chunk b, c) => .moved { w with stage := .chunk b } (some c)
      | (.failed e, _) => .finished w (.error (.entity e))
      | (.ended, c) => .moved { w with stage := .flush } (some c)
      | (.pending, _) => .stuck
  | .chunk [] => .moved { w with stage := .waiting } body
  | .chunk (b :: bs) =>
    w.put body (b :: bs) fun s rest => { w with sink := s, stage := .chunk rest }
  | .flush =>
    match w.sink.flush with
    | .ok s => .finished { w with sink := s, buffer := [] } (.ok ())
    | .error e => .finished { w with buffer := [] } (.error (.transport e))

/-! ### Progress -/

/-- What is before a writer, its body aside. -/
def cost (w : Writer) : Nat :=
  w.sink.patience +
    match w.stage with
    | .head => 2 * w.buffer.length + 5
    | .waiting => 3
    | .chunk rest => 2 * rest.length + 4
    | .flush => 2

def bodyLoad (body : Option Channel) : Nat := (body.map Channel.load).getD 0

/-- The step leaves less than `n` to do, unless it waits or is the last one. -/
def Step.Below (n : Nat) : Step → Prop
  | moved w body => w.cost + bodyLoad body < n
  | yielded w body => w.cost + bodyLoad body < n
  | stuck => True
  | finished .. => True

theorem put_below {w : Writer} {body : Option Channel} {piece : Bytes}
    {left : Sink → Bytes → Writer}
    (hleft : ∀ s rest, (left s rest).cost + w.sink.patience + 2 * piece.length =
      w.cost + s.patience + 2 * rest.length) :
    (w.put body piece left).Below (w.cost + bodyLoad body) := by
  obtain ⟨hb, ht⟩ := w.sink.write_progress piece
  rcases hs : w.sink.write piece with ⟨_ | n | e, s⟩
  · have := hb (by rw [hs])
    simp only [hs] at this
    simp only [put, hs, Step.Below, cost]
    omega
  · cases n with
    | zero => simp [put, hs, Step.Below]
    | succ n =>
      have h1 := ht (n + 1) (by rw [hs])
      have h2 := hleft s (piece.drop (n + 1))
      have h3 := s.patience_le
      rw [List.length_drop] at h2
      simp only [put, hs, Step.Below]
      omega
  · simp [put, hs, Step.Below]

/-- **Every step lowers the cost** of the writer and its body together. -/
theorem step_below (w : Writer) (body : Option Channel) :
    (w.step body).Below (w.cost + bodyLoad body) := by
  unfold step
  split
  · rename_i hstage
    split
    · simp only [Step.Below, cost, hstage]
      omega
    · exact put_below fun s rest => by simp only [cost, hstage]; omega
  · rename_i hstage
    split
    · simp only [Step.Below, cost, hstage]
      omega
    · rename_i c
      have hload := c.load_poll
      split
      · rename_i b c' hp
        have := hload.2 b (by rw [hp])
        simp only [hp] at this
        simp only [Step.Below, cost, hstage, bodyLoad, Option.map_some, Option.getD_some]
        omega
      · trivial
      · rename_i c' hp
        have := hload.1
        simp only [hp] at this
        simp only [Step.Below, cost, hstage, bodyLoad, Option.map_some, Option.getD_some]
        omega
      · trivial
  · rename_i hstage
    simp only [Step.Below, cost, hstage]
    omega
  · rename_i b bs hstage
    exact put_below fun s rest => by simp only [cost, hstage]; omega
  · split <;> trivial

/-! ### A writer on its own -/

/-- Writes until the response is out or has failed, or until its body has no chunk yet. -/
def run (w : Writer) (body : Option Channel) : Writer × Option (Except ConnectionError Unit) :=
  match h : w.step body with
  | .moved w' body' =>
    have : w'.cost + bodyLoad body' < w.cost + bodyLoad body := by
      simpa [h, Step.Below] using w.step_below body
    w'.run body'
  | .yielded w' body' =>
    have : w'.cost + bodyLoad body' < w.cost + bodyLoad body := by
      simpa [h, Step.Below] using w.step_below body
    w'.run body'
  | .stuck => (w, none)
  | .finished w' result => (w', some result)
termination_by w.cost + bodyLoad body

/-- Writes a response whose body, if it is streamed, is all in its channel. -/
def write (sink : Sink) (buffer : Bytes) (v : Version) (r : Response) :
    Writer × Option (Except ConnectionError Unit) :=
  (start sink buffer v r).run r.entity.channel?

end Writer

end Http1
