import Http1.Proofs.Grammar

/-!
Requests as they were sent.

What a peer has sent is gathered from its frames: the line, the headers in order, and the chunks
of the entity in one piece. The cuts inside an entity make no difference, and messages in a row
are gathered as they are.
-/

namespace Http1

/-- A request with its whole body. -/
structure Sent where
  line : RequestLine
  headers : List Header
  body : Bytes
  deriving DecidableEq

/-- What has come of a request. -/
structure Draft where
  line : Option RequestLine
  headers : List Header
  body : Bytes

namespace Draft

def empty : Draft := ⟨none, [], []⟩

def add (d : Draft) : Frame → Draft
  | .requestLine line => { d with line := some line }
  | .header x => { d with headers := d.headers ++ [x] }
  | .entityStart _ => d
  | .entityChunk c => { d with body := d.body ++ c }
  | .entityEnd => empty

def sent? (d : Draft) : Frame → Option Sent
  | .entityEnd => d.line.map fun line => ⟨line, d.headers, d.body⟩
  | _ => none

/-- The requests that frames complete. -/
def gather (d : Draft) : List Frame → List Sent
  | [] => []
  | f :: fs => (d.sent? f).toList ++ (d.add f).gather fs

/-- What has come of the next request behind these frames. -/
def after (d : Draft) (fs : List Frame) : Draft := fs.foldl add d

/-- A frame that is glued to others is gathered like one in front of them. -/
lemma gather_glue (d : Draft) (f : Frame) (fs : List Frame) :
    d.gather (Frame.glue f fs) = d.gather (f :: fs) := by
  cases f with
  | entityChunk b =>
    rcases fs with _ | ⟨_ | _ | _ | c | _, fs⟩ <;> try rfl
    simp [Frame.glue, gather, sent?, add]
  | _ => rfl

lemma gather_merge (d : Draft) (fs : List Frame) : d.gather (Frame.merge fs) = d.gather fs := by
  induction fs generalizing d with
  | nil => rfl
  | cons f fs ih => rw [Frame.merge_cons, gather_glue, gather, ih, ← gather]

lemma after_glue (d : Draft) (f : Frame) (fs : List Frame) :
    d.after (Frame.glue f fs) = d.after (f :: fs) := by
  cases f with
  | entityChunk b =>
    rcases fs with _ | ⟨_ | _ | _ | c | _, fs⟩ <;> try rfl
    simp [Frame.glue, after, add]
  | _ => rfl

lemma after_merge (d : Draft) (fs : List Frame) : d.after (Frame.merge fs) = d.after fs := by
  induction fs generalizing d with
  | nil => rfl
  | cons f fs ih =>
    rw [Frame.merge_cons, after_glue]
    exact ih (d.add f)

lemma gather_headers (d : Draft) (hs : List Header) (fs : List Frame) :
    d.gather (hs.map .header ++ fs) = { d with headers := d.headers ++ hs }.gather fs := by
  induction hs generalizing d with
  | nil => simp
  | cons x hs ih =>
    rw [List.map_cons, List.cons_append, gather, ih]
    simp [sent?, add]

lemma gather_chunks (d : Draft) (cs : List Bytes) (fs : List Frame) :
    d.gather (cs.map .entityChunk ++ fs) = { d with body := d.body ++ cs.flatten }.gather fs := by
  induction cs generalizing d with
  | nil => simp
  | cons c cs ih =>
    rw [List.map_cons, List.cons_append, gather, ih]
    simp [sent?, add]

lemma after_headers (d : Draft) (hs : List Header) (fs : List Frame) :
    d.after (hs.map .header ++ fs) = { d with headers := d.headers ++ hs }.after fs := by
  induction hs generalizing d with
  | nil => simp
  | cons x hs ih =>
    rw [List.map_cons, List.cons_append, after, List.foldl_cons, ← after, ih]
    simp [add]

lemma after_chunks (d : Draft) (cs : List Bytes) :
    d.after (cs.map .entityChunk) = { d with body := d.body ++ cs.flatten } := by
  induction cs generalizing d with
  | nil => simp [after]
  | cons c cs ih =>
    rw [List.map_cons, after, List.foldl_cons, ← after, ih]
    simp [add]

/-- What has come of a request whose entity has begun. -/
lemma after_open (line : RequestLine) (hs : List Header) (n : Nat) (cs : List Bytes) :
    empty.after (Message.headFrames line hs ++ .entityStart n :: cs.map .entityChunk) =
      ⟨some line, hs, cs.flatten⟩ := by
  have hentity : ∀ d : Draft, d.after (.entityStart n :: cs.map .entityChunk) =
      d.after (cs.map .entityChunk) := fun _ => rfl
  rw [Message.headFrames, List.cons_append, after, List.foldl_cons, ← after, after_headers, hentity,
    after_chunks]
  rfl

lemma gather_of_not_mem (d : Draft) {fs : List Frame} (h : Frame.entityEnd ∉ fs) :
    d.gather fs = [] := by
  induction fs generalizing d with
  | nil => rfl
  | cons f fs ih =>
    obtain ⟨hf, hfs⟩ : f ≠ .entityEnd ∧ Frame.entityEnd ∉ fs := by
      rw [List.mem_cons, not_or] at h
      exact ⟨fun he => h.1 he.symm, h.2⟩
    rw [gather, ih _ hfs]
    cases f <;> first | rfl | exact absurd rfl hf

end Draft

/-- A message with its chunks in one piece. -/
def Message.sent (m : Message) : Sent := ⟨m.line, m.headers, m.chunks.flatten⟩

lemma Draft.gather_frames (m : Message) (fs : List Frame) :
    empty.gather (m.frames ++ fs) = m.sent :: empty.gather fs := by
  have hbody : m.length = 0 → m.chunks.flatten = [] := fun h =>
    List.eq_nil_of_length_eq_zero (m.length_chunks.trans h)
  rw [Message.frames, Message.headFrames, List.append_assoc, List.append_assoc, List.cons_append,
    gather, gather_headers, Message.entityFrames]
  by_cases h : 0 < m.length
  · rw [if_pos h, List.cons_append, gather, gather_chunks]
    simp [gather, sent?, add, empty, Message.sent]
  · rw [if_neg h]
    simp [gather, sent?, add, empty, Message.sent, hbody (by omega)]

lemma Draft.after_messages (ms : List Message) (tail : List Frame) :
    empty.after (ms.flatMap Message.frames ++ tail) = empty.after tail := by
  induction ms with
  | nil => rfl
  | cons m ms ih =>
    rw [List.flatMap_cons, List.append_assoc, ← ih]
    simp [Message.frames, after, add]

/-- **Messages in a row** are gathered as they were sent. -/
theorem Draft.gather_messages (ms : List Message) {tail : List Frame}
    (h : Frame.entityEnd ∉ tail) :
    empty.gather (ms.flatMap Message.frames ++ tail) = ms.map Message.sent := by
  induction ms with
  | nil => exact gather_of_not_mem empty h
  | cons m ms ih =>
    rw [List.flatMap_cons, List.append_assoc, gather_frames, ih, List.map_cons]

end Http1
