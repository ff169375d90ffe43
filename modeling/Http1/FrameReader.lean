import Http1.ConnectionError
import Http1.Framing
import Http1.Transport.Source

/-!
A reader of frames from a source of bytes.

Bytes are read only when the framing has no frame to give, so a reader is never ahead of the
one who asks. Frames that are complete before a malformed part are handed out first; an error or
the end of input is told once, and from then on there is nothing.

Main statement: `potential` pays for every frame, which bounds what a source can bring.
-/

namespace Http1

inductive ReaderState where
  | live (f : Framing)
  /-- The bytes behind the last frame are malformed, which is still to be told. -/
  | failed (e : ParseError)
  | ended

structure FrameReader where
  source : Source
  state : ReaderState

namespace FrameReader

def create (s : Source) (l : Lexicon) : FrameReader := ⟨s, .live (.init l)⟩

inductive Pull where
  | frame (f : Frame)
  | failed (e : ConnectionError)
  /-- The end of input, and how many bytes of an incomplete request it left. -/
  | ended (unparsed : Nat)
  /-- Nothing yet: the source has to be waited for. -/
  | blocked

/-- Nothing more will come. -/
def isTerminated (r : FrameReader) : Bool :=
  match r.state with
  | .ended => true
  | _ => false

def pull (r : FrameReader) : Pull × FrameReader :=
  match r.state with
  | .ended => (.ended 0, r)
  | .failed e => (.failed (.parse e), { r with state := .ended })
  | .live f =>
    match f.frame with
    | some frame =>
      match f.next [] with
      | .ok f => (.frame frame, { r with state := .live f })
      | .error e => (.frame frame, { r with state := .failed e })
    | none =>
      match hr : r.source.read with
      | (.ended, s) => (.ended f.buffer.length, ⟨s, .ended⟩)
      | (.blocked, s) => (.blocked, ⟨s, .live f⟩)
      | (.failed e, s) => (.failed (.transport e), ⟨s, .ended⟩)
      | (.data b, s) =>
        match f.next b with
        | .error e => (.failed (.parse e), ⟨s, .ended⟩)
        | .ok f =>
          have := Source.weight_lt_of_read hr
          pull ⟨s, .live f⟩
termination_by r.source.weight 1

/-! ### What is left to come -/

/-- What it costs to hand a frame on: twice its bytes and four. -/
def price (f : Frame) : Nat := 2 * f.size + 4

/-- What a reader can pay for: sixteen for a byte of the source, one for an event, and the
framing by its weight and its bytes. -/
def potential (r : FrameReader) : Nat :=
  r.source.weight 16 +
    match r.state with
    | .live f => 4 * f.weight + 2 * f.held + 1
    | .failed _ => 1
    | .ended => 0

def Pull.price : Pull → Nat
  | frame f => FrameReader.price f
  | blocked => 1
  | _ => 0

/-- **Every frame is paid for**, and so is every wait. -/
theorem pull_potential (r : FrameReader) : r.pull.2.potential + r.pull.1.price ≤ r.potential := by
  fun_induction pull r with
  | case1 r h => simp [Pull.price]
  | case2 r e h => simp [potential, Pull.price, h]
  | case3 r f h frame hf f' hn =>
    have hw := Framing.weight_next_lt hf hn
    have hh := Framing.held_build_le hn
    have he : f.held = f.buffer.length + frame.size := by simp [Framing.held, hf]
    rw [List.append_nil] at hh
    simp only [potential, Pull.price, price, h]
    omega
  | case4 r f h frame hf e hn =>
    have hw : f.weight = 2 * f.buffer.length + frame.weight := by simp [Framing.weight, hf]
    have he : f.held = f.buffer.length + frame.size := by simp [Framing.held, hf]
    have hp := frame.weight_pos
    simp only [potential, Pull.price, price, h]
    omega
  | case5 r f h hf s hr =>
    have hs := (Source.read_weight 16 r.source).1
    simp only [hr] at hs
    simp only [potential, Pull.price, h]
    omega
  | case6 r f h hf s hr =>
    have hs := (Source.read_weight 16 r.source).2.2
    simp only [hr, forall_const] at hs
    simp only [potential, Pull.price, h]
    omega
  | case7 r f h hf e s hr =>
    have hs := (Source.read_weight 16 r.source).1
    simp only [hr] at hs
    simp only [potential, Pull.price, h]
    omega
  | case8 r f h hf b s hr e hn =>
    have hs := (Source.read_weight 16 r.source).1
    simp only [hr] at hs
    simp only [potential, Pull.price, h]
    omega
  | case9 r f h hf b s hr f' hn _ ih =>
    obtain ⟨hb, hs⟩ := (Source.read_weight 16 r.source).2.1 b (by rw [hr])
    simp only [hr] at hs
    have hw := Framing.weight_build_le hn
    have hh := Framing.held_build_le hn
    have hw' : f.weight = 2 * f.buffer.length := by simp [Framing.weight, hf]
    have hh' : f.held = f.buffer.length := by simp [Framing.held, hf]
    have hone : (if f.nextPhase = .entityEnd then 1 else 0) ≤ 1 := by split <;> omega
    rw [List.length_append] at hw hh
    refine Nat.le_trans ih ?_
    simp only [potential, h]
    omega

end FrameReader

end Http1
