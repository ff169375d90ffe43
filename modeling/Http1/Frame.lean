import Http1.RequestLine
import Http1.Header

/-!
Frames: the parts of a request in the order in which they come.

A request is a request line, one or more headers, and then its end; an entity, if there is one,
comes between the headers and the end, as its length and one or more chunks.
-/

namespace Http1

inductive Frame where
  | requestLine (line : RequestLine)
  | header (header : Header)
  | entityStart (length : Nat)
  | entityChunk (bytes : Bytes)
  | entityEnd
  deriving DecidableEq

namespace Frame

/-- The frame ends its request. -/
def isEnd : Frame → Bool
  | entityEnd => true
  | _ => false

/-- What a frame is worth: one, and one more for those that an `entityEnd` may follow without
a byte of its own. -/
def weight : Frame → Nat
  | entityStart _ => 2
  | entityChunk _ => 2
  | _ => 1

/-- How many bytes of an entity the frame carries. -/
def size : Frame → Nat
  | entityChunk c => c.length
  | _ => 0

theorem weight_pos (f : Frame) : 0 < f.weight := by cases f <;> simp [weight]

end Frame

end Http1
