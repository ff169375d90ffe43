import Http1.Frame
import Http1.Line

/-!
Framing: from the bytes of a connection to the frames of its requests.

A framing is a value. It tries its phase once on the bytes it holds and keeps the outcome: a
frame and the bytes behind it, or no frame and all of the bytes. `next` goes on from there with
more bytes, of which there may be none.

    request line → header → header or end ─┬→ end ─────────────────────→ request line
                               ↑        │  └→ entity → chunk … → end ──→ request line
                               └ header ┘

Main statement: `weight` falls with every frame taken, so a framing that is drained comes to
rest. A frame takes at least one byte off the buffer, except for the end of an entity; that one
is paid for by the chunk before it.
-/

namespace Http1

/-- What a framing waits for. -/
inductive Phase where
  | requestLine
  | header
  | headerOrEnd (headers : List Header)
  | entity (remaining : Nat) (pos : 0 < remaining)
  | entityEnd
  deriving DecidableEq

namespace Phase

/-- The phase in which `n` bytes of an entity are outstanding. -/
def outstanding (n : Nat) : Phase := if h : 0 < n then entity n h else entityEnd

/-- The phase after a frame. -/
def next : Phase → Frame → Phase
  | requestLine, _ => header
  | header, .header h => headerOrEnd [h]
  | headerOrEnd hs, .header h => headerOrEnd (hs ++ [h])
  | headerOrEnd _, .entityStart n => outstanding n
  | entity n _, .entityChunk c => outstanding (n - c.length)
  | _, _ => requestLine

/-- The frame that ends a head: an entity is announced by a length other than zero. -/
def endOfHead (hs : List Header) : Frame :=
  match Header.contentLength? hs with
  | some n => if 0 < n then .entityStart n else .entityEnd
  | none => .entityEnd

/-- Reads the frame of a phase. -/
def scan (l : Lexicon) : Phase → Scanner ParseError Frame
  | requestLine, input => (Line.request l).map Frame.requestLine input
  | header, input => (Line.header l).map Frame.header input
  | headerOrEnd hs, input =>
    match Line.empty input with
    | .ok s => .ok (s.map fun _ => endOfHead hs)
    | .error _ => (Line.header l).map Frame.header input
  | entity n _, input =>
    if input = [] then .ok (.pending [])
    else .ok (.done (.entityChunk (input.take n)) (input.drop n))
  | entityEnd, input => .ok (.done .entityEnd input)

/-- Only a chunk or the start of an entity leads to the end of one. -/
theorem weight_of_next_end {p : Phase} {frame : Frame} (h : p.next frame = entityEnd) :
    frame.weight = 2 := by
  unfold next at h
  split at h <;> first | rfl | simp at h

theorem weight_endOfHead_le (hs : List Header) : (endOfHead hs).weight ≤ 2 := by
  unfold endOfHead
  split
  · split <;> simp [Frame.weight]
  · simp [Frame.weight]

/-- What a scan leaves weighs no more than its input, but for the free end of an entity. -/
theorem scan_weight {l : Lexicon} {p : Phase} {input : Bytes} {s : Scan Frame}
    (h : p.scan l input = .ok s) :
    2 * s.rest.length + (s.value?.map Frame.weight).getD 0 ≤
      2 * input.length + (if p = entityEnd then 1 else 0) := by
  have line : ∀ {α : Type} {q : Scanner ParseError α} {f : α → Frame}, q.Shortens → q.Rewinds →
      (∀ a, (f a).weight ≤ 2) → q.map f input = .ok s →
      2 * s.rest.length + (s.value?.map Frame.weight).getD 0 ≤ 2 * input.length := by
    intro α q f hq hr hf hs
    rcases hi : q input with e | ⟨a, r⟩ | r <;>
      simp only [Scanner.map, hi, Except.map, Scan.map, Except.ok.injEq, reduceCtorEq] at hs
    · have h1 := hq input a r hi
      have h2 := hf a
      subst hs
      simp only [Scan.rest, Scan.value?, Option.map_some, Option.getD_some]
      omega
    · have h1 := hr input r hi
      subst hs h1
      simp [Scan.rest, Scan.value?]
  cases p with
  | requestLine =>
    have := line (Line.request_shortens l) (Line.request_rewinds l) (by simp [Frame.weight]) h
    simpa using this
  | header =>
    have := line (Line.header_shortens l) (Line.header_rewinds l) (by simp [Frame.weight]) h
    simpa using this
  | headerOrEnd hs =>
    have hle : 2 * s.rest.length + (s.value?.map Frame.weight).getD 0 ≤ 2 * input.length := by
      simp only [scan] at h
      split at h
      · rename_i s' hs'
        refine line Line.empty_shortens Line.empty_rewinds (fun _ => weight_endOfHead_le hs) ?_
        simpa [Scanner.map, hs', Except.map] using h
      · exact line (Line.header_shortens l) (Line.header_rewinds l) (by simp [Frame.weight]) h
    simpa using hle
  | entity n hn =>
    simp only [scan] at h
    split at h
    · simp only [Except.ok.injEq] at h
      subst h
      simp [Scan.rest, Scan.value?]
    · rename_i hne
      simp only [Except.ok.injEq] at h
      subst h
      have : 0 < input.length := List.length_pos_iff.2 hne
      simp only [Scan.rest, Scan.value?, List.length_drop, Option.map_some, Frame.weight,
        Option.getD_some]
      omega
  | entityEnd =>
    simp only [scan, Except.ok.injEq] at h
    subst h
    simp [Scan.rest, Scan.value?, Frame.weight]

theorem size_endOfHead (hs : List Header) : (endOfHead hs).size = 0 := by
  unfold endOfHead
  split
  · split <;> rfl
  · rfl

/-- A scan hands out no byte twice. -/
theorem scan_size {l : Lexicon} {p : Phase} {input : Bytes} {s : Scan Frame}
    (h : p.scan l input = .ok s) :
    s.rest.length + (s.value?.map Frame.size).getD 0 ≤ input.length := by
  have line : ∀ {α : Type} {q : Scanner ParseError α} {f : α → Frame}, q.Shortens → q.Rewinds →
      (∀ a, (f a).size = 0) → q.map f input = .ok s →
      s.rest.length + (s.value?.map Frame.size).getD 0 ≤ input.length := by
    intro α q f hq hr hf hs
    rcases hi : q input with e | ⟨a, r⟩ | r <;>
      simp only [Scanner.map, hi, Except.map, Scan.map, Except.ok.injEq, reduceCtorEq] at hs
    · have h1 := hq input a r hi
      subst hs
      simp only [Scan.rest, Scan.value?, Option.map_some, Option.getD_some, hf]
      omega
    · have h1 := hr input r hi
      subst hs h1
      simp [Scan.rest, Scan.value?]
  cases p with
  | requestLine => exact line (Line.request_shortens l) (Line.request_rewinds l) (fun _ => rfl) h
  | header => exact line (Line.header_shortens l) (Line.header_rewinds l) (fun _ => rfl) h
  | headerOrEnd hs =>
    simp only [scan] at h
    split at h
    · rename_i s' hs'
      refine line Line.empty_shortens Line.empty_rewinds (fun _ => size_endOfHead hs) ?_
      simpa [Scanner.map, hs', Except.map] using h
    · exact line (Line.header_shortens l) (Line.header_rewinds l) (fun _ => rfl) h
  | entity n hn =>
    simp only [scan] at h
    split at h
    · simp only [Except.ok.injEq] at h
      subst h
      simp [Scan.rest, Scan.value?]
    · simp only [Except.ok.injEq] at h
      subst h
      simp only [Scan.rest, Scan.value?, List.length_drop, List.length_take, Option.map_some,
        Frame.size, Option.getD_some]
      omega
  | entityEnd =>
    simp only [scan, Except.ok.injEq] at h
    subst h
    simp [Scan.rest, Scan.value?, Frame.size]

end Phase

structure Framing where
  lexicon : Lexicon
  phase : Phase
  buffer : Bytes
  frame : Option Frame

namespace Framing

def init (l : Lexicon) : Framing := ⟨l, .requestLine, [], none⟩

/-- Tries a phase on the bytes at hand. -/
def build (l : Lexicon) (p : Phase) (bytes : Bytes) : Except ParseError Framing :=
  match p.scan l bytes with
  | .ok s => .ok ⟨l, p, s.rest, s.value?⟩
  | .error e => .error e

/-- The phase to be tried next. -/
def nextPhase (f : Framing) : Phase :=
  match f.frame with
  | some frame => f.phase.next frame
  | none => f.phase

/-- Goes on with more bytes: past the frame if there is one, else with another try. -/
def next (f : Framing) (bytes : Bytes) : Except ParseError Framing :=
  build f.lexicon f.nextPhase (f.buffer ++ bytes)

/-! ### Draining -/

/-- What a framing has left to give: two for every byte, and the frame at hand. -/
def weight (f : Framing) : Nat :=
  2 * f.buffer.length + (f.frame.map Frame.weight).getD 0

/-- A try at the bytes leaves no more than it was given, but for the free end of an entity. -/
theorem weight_build_le {l : Lexicon} {p : Phase} {b : Bytes} {f : Framing}
    (h : build l p b = .ok f) : f.weight ≤ 2 * b.length + (if p = .entityEnd then 1 else 0) := by
  unfold build at h
  split at h
  · rename_i s hs
    simp only [Except.ok.injEq] at h
    subst h
    have key := Phase.scan_weight hs
    cases s <;> simpa [weight] using key
  · simp at h

/-- The bytes that a framing holds, those of its frame included. -/
def held (f : Framing) : Nat := f.buffer.length + (f.frame.map Frame.size).getD 0

theorem held_build_le {l : Lexicon} {p : Phase} {b : Bytes} {f : Framing}
    (h : build l p b = .ok f) : f.held ≤ b.length := by
  unfold build at h
  split at h
  · rename_i s hs
    simp only [Except.ok.injEq] at h
    subst h
    exact Phase.scan_size hs
  · simp at h

/-- **Progress**: going on past a frame without more bytes lowers the weight. -/
theorem weight_next_lt {f f' : Framing} {frame : Frame} (hf : f.frame = some frame)
    (h : f.next [] = .ok f') : f'.weight < f.weight := by
  have hle := weight_build_le h
  have hw : f.weight = 2 * f.buffer.length + frame.weight := by simp [weight, hf]
  have hpos := frame.weight_pos
  rw [List.append_nil] at hle
  split at hle
  · rename_i hend
    have : frame.weight = 2 := Phase.weight_of_next_end (by simpa [nextPhase, hf] using hend)
    omega
  · omega

/-- The frames that come of the bytes at hand, and the framing that waits for more. -/
def drain (f : Framing) : List Frame × Except ParseError Framing :=
  match hf : f.frame with
  | none => ([], .ok f)
  | some frame =>
    match hn : f.next [] with
    | .error e => ([frame], .error e)
    | .ok f' =>
      have := weight_next_lt hf hn
      let (frames, last) := f'.drain
      (frame :: frames, last)
termination_by f.weight

/-- The frames of a list of chunks, each fed to a framing that waits for it, and the framing
that is left. -/
def feed (f : Framing) : List Bytes → List Frame × Except ParseError Framing
  | [] => f.drain
  | c :: cs =>
    match f.drain with
    | (frames, .error e) => (frames, .error e)
    | (frames, .ok f) =>
      match f.next c with
      | .error e => (frames, .error e)
      | .ok f =>
        let (more, last) := f.feed cs
        (frames ++ more, last)

end Framing

end Http1
