import Http1.Proofs.ChunkBoundary

/-!
The grammar of frames.

What a framing emits is a beginning of a row of messages: a request line, a header or more, and
the end; before the end the chunks of an entity, if the headers declare one. A phase says which
frame may come; the frames since the last message are its state, in the vocabulary of messages.
-/

namespace Http1

/-- A request in frames. The chunks of its entity have the length that its headers declare, and
none of them is empty. -/
structure Message where
  line : RequestLine
  headers : List Header
  chunks : List Bytes
  headers_ne : headers ≠ []
  chunks_ne : [] ∉ chunks
  length_chunks : chunks.flatten.length = (Header.contentLength? headers).getD 0

namespace Message

def headFrames (line : RequestLine) (hs : List Header) : List Frame :=
  .requestLine line :: hs.map .header

/-- The declared length of the entity; zero is the same as none. -/
def length (m : Message) : Nat := (Header.contentLength? m.headers).getD 0

def entityFrames (m : Message) : List Frame :=
  if 0 < m.length then .entityStart m.length :: m.chunks.map .entityChunk else []

def frames (m : Message) : List Frame :=
  headFrames m.line m.headers ++ m.entityFrames ++ [.entityEnd]

end Message

namespace Phase

def Emits : Phase → Frame → Prop
  | requestLine, .requestLine _ => True
  | header, .header _ => True
  | headerOrEnd _, .header _ => True
  | headerOrEnd hs, frame => frame = endOfHead hs
  | entity n _, .entityChunk c => c ≠ [] ∧ c.length ≤ n
  | entityEnd, .entityEnd => True
  | _, _ => False

/-- The frames that may come from a phase on. -/
inductive Follows : Phase → List Frame → Prop where
  | nil {p : Phase} : Follows p []
  | cons {p : Phase} {frame : Frame} {fs : List Frame} :
      p.Emits frame → Follows (p.next frame) fs → Follows p (frame :: fs)

lemma endOfHead_eq (hs : List Header) :
    (endOfHead hs = .entityEnd ∧ (Header.contentLength? hs).getD 0 = 0) ∨
      ∃ n, 0 < n ∧ endOfHead hs = .entityStart n ∧ Header.contentLength? hs = some n := by
  unfold endOfHead
  split
  · rename_i n hn
    by_cases h : 0 < n
    · exact .inr ⟨n, h, by rw [if_pos h], hn⟩
    · exact .inl ⟨by rw [if_neg h], by simpa [hn] using h⟩
  · rename_i hn
    exact .inl ⟨rfl, by simp [hn]⟩

lemma emits_endOfHead (hs : List Header) : (headerOrEnd hs).Emits (endOfHead hs) := by
  rcases endOfHead_eq hs with ⟨h, -⟩ | ⟨n, -, h, -⟩ <;> simp [Emits, h]

lemma emits_of_scan {l : Lexicon} {p : Phase} {b r : Bytes} {frame : Frame}
    (h : p.scan l b = .ok (.done frame r)) : p.Emits frame := by
  cases p with
  | requestLine =>
    simp only [scan] at h
    rcases hs : Line.request l b with e | ⟨x, r'⟩ | r' <;>
      simp only [Scanner.map, hs, Except.map, Scan.map, Except.ok.injEq, Scan.done.injEq,
        reduceCtorEq] at h
    rw [← h.1]
    trivial
  | header =>
    obtain ⟨x, rfl, -⟩ := map_header_done h
    trivial
  | headerOrEnd hs =>
    simp only [scan] at h
    rcases he : Line.empty b with e | ⟨u, r'⟩ | r' <;>
      simp only [he, Scan.map, Except.ok.injEq, Scan.done.injEq, reduceCtorEq] at h
    · obtain ⟨x, rfl, -⟩ := map_header_done h
      trivial
    · rw [← h.1]
      exact emits_endOfHead hs
  | entity n hn =>
    simp only [scan] at h
    split at h
    · simp at h
    · rename_i hb
      simp only [Except.ok.injEq, Scan.done.injEq] at h
      rw [← h.1]
      refine ⟨?_, List.length_take_le ..⟩
      rw [Ne, List.take_eq_nil_iff]
      simp only [hb, or_false]
      omega
  | entityEnd =>
    simp only [scan, Except.ok.injEq, Scan.done.injEq] at h
    rw [← h.1]
    trivial

lemma Takes.emits {l : Lexicon} {p : Phase} {b b' : Bytes} {frame : Frame}
    (h : p.Takes l b frame b') : p.Emits frame := by
  cases p with
  | entity n hn =>
    obtain ⟨c, rfl, hne, hle, -⟩ := h
    exact ⟨hne, hle⟩
  | _ => exact emits_of_scan h

/-! ### What has come of a message -/

/-- A head and the chunks of its entity, of which `n` bytes are still to come. -/
def Open (n : Nat) (fs : List Frame) : Prop :=
  ∃ (line : RequestLine) (hs : List Header) (cs : List Bytes),
    hs ≠ [] ∧ [] ∉ cs ∧ 0 < cs.flatten.length + n ∧
    Header.contentLength? hs = some (cs.flatten.length + n) ∧
    fs = Message.headFrames line hs ++
      .entityStart (cs.flatten.length + n) :: cs.map .entityChunk

/-- The frames since the last message, when a phase is reached. -/
def After : Phase → List Frame → Prop
  | requestLine, fs => fs = []
  | header, fs => ∃ line, fs = [.requestLine line]
  | headerOrEnd hs, fs => hs ≠ [] ∧ ∃ line, fs = Message.headFrames line hs
  | entity n _, fs => Open n fs
  | entityEnd, fs => Open 0 fs

variable {p : Phase} {fs pre : List Frame} {frame : Frame}

lemma after_outstanding {n : Nat} (h : Open n fs) : (outstanding n).After fs := by
  by_cases hn : 0 < n
  · rw [outstanding_pos hn]
    exact h
  · obtain rfl : n = 0 := by omega
    exact h

lemma open_head {hs : List Header} {n : Nat} (hne : hs ≠ []) (hn : 0 < n)
    (hlen : Header.contentLength? hs = some n) (line : RequestLine) :
    Open n (Message.headFrames line hs ++ [.entityStart n]) :=
  ⟨line, hs, [], hne, by simp, by simpa using hn, by simpa using hlen, by simp⟩

lemma Open.chunk {n : Nat} {c : Bytes} (h : Open n fs) (hc : c ≠ []) (hn : c.length ≤ n) :
    Open (n - c.length) (fs ++ [.entityChunk c]) := by
  obtain ⟨line, hs, cs, hne, hcs, hpos, hlen, rfl⟩ := h
  have hsum : (cs ++ [c]).flatten.length + (n - c.length) = cs.flatten.length + n := by
    simp only [List.flatten_append, List.flatten_singleton, List.length_append]
    omega
  refine ⟨line, hs, cs ++ [c], hne, ?_, by omega, by rw [hsum]; exact hlen, ?_⟩
  · rw [List.mem_append, List.mem_singleton]
    rintro (h | h)
    · exact hcs h
    · exact hc h.symm
  · rw [hsum]
    simp

lemma frames_eq_open (m : Message) (h : 0 < m.length) :
    m.frames = Message.headFrames m.line m.headers ++
      .entityStart m.length :: m.chunks.map .entityChunk ++ [.entityEnd] := by
  rw [Message.frames, Message.entityFrames, if_pos h]

lemma Open.message (h : Open 0 fs) : ∃ m : Message, m.frames = fs ++ [.entityEnd] := by
  obtain ⟨line, hs, cs, hne, hcs, hpos, hlen, rfl⟩ := h
  rw [Nat.add_zero] at *
  have hm : Header.contentLength? hs = some cs.flatten.length := hlen
  refine ⟨⟨line, hs, cs, hne, hcs, by simp [hm]⟩, ?_⟩
  have hl : Message.length ⟨line, hs, cs, hne, hcs, by simp [hm]⟩ = cs.flatten.length := by
    simp [Message.length, hm]
  rw [frames_eq_open _ (by rw [hl]; exact hpos), hl]

lemma message_of_length_zero {hs : List Header} (hne : hs ≠ [])
    (h : (Header.contentLength? hs).getD 0 = 0) (line : RequestLine) :
    ∃ m : Message, m.frames = Message.headFrames line hs ++ [.entityEnd] :=
  ⟨⟨line, hs, [], hne, by simp, by simp [h]⟩,
    by simp [Message.frames, Message.entityFrames, Message.length, h]⟩

/-- **One frame**: it completes a message, or the next phase goes on with what has come. -/
lemma After.step (h : p.After pre) (he : p.Emits frame) :
    (p.next frame = requestLine ∧ ∃ m : Message, m.frames = pre ++ [frame]) ∨
      (p.next frame).After (pre ++ [frame]) := by
  cases p with
  | requestLine =>
    cases frame with
    | requestLine line => exact .inr ⟨line, by rw [h]; rfl⟩
    | _ => exact he.elim
  | header =>
    cases frame with
    | header x =>
      obtain ⟨line, rfl⟩ := h
      exact .inr ⟨by simp, line, rfl⟩
    | _ => exact he.elim
  | headerOrEnd hs =>
    obtain ⟨hne, line, rfl⟩ := h
    cases frame with
    | header x => exact .inr ⟨by simp, line, by simp [Message.headFrames]⟩
    | _ =>
      -- the end of the head, and the start of the entity if there is one
      have hend : _ = endOfHead hs := he
      rcases endOfHead_eq hs with ⟨h, hlen⟩ | ⟨n, hn, h, hlen⟩ <;> rw [hend, h]
      · exact .inl ⟨rfl, message_of_length_zero hne hlen line⟩
      · exact .inr (after_outstanding (open_head hne hn hlen line))
  | entity n hn =>
    cases frame with
    | entityChunk c => exact .inr (after_outstanding (Open.chunk h he.1 he.2))
    | _ => exact he.elim
  | entityEnd =>
    cases frame with
    | entityEnd => exact .inl ⟨rfl, Open.message h⟩
    | _ => exact he.elim

/-- **Many frames**: the messages that they complete, and what has come of one more. -/
lemma Follows.split (hf : p.Follows fs) (h : p.After pre) :
    ∃ (ms : List Message) (tail : List Frame) (q : Phase),
      pre ++ fs = ms.flatMap Message.frames ++ tail ∧ q.After tail := by
  induction hf generalizing pre with
  | nil => exact ⟨[], pre, _, by simp, h⟩
  | @cons p frame fs he hf ih =>
    rcases h.step he with ⟨hp, m, hm⟩ | hnext
    · rw [hp] at ih
      obtain ⟨ms, tail, q, heq, hq⟩ := @ih [] rfl
      refine ⟨m :: ms, tail, q, ?_, hq⟩
      rw [List.nil_append] at heq
      rw [List.flatMap_cons, hm, heq]
      simp
    · obtain ⟨ms, tail, q, heq, hq⟩ := ih hnext
      exact ⟨ms, tail, q, by rw [← heq]; simp, hq⟩

lemma Open.begins {n : Nat} (h : Open n fs) : ∃ m : Message, fs <+: m.frames := by
  by_cases hn : n = 0
  · obtain ⟨m, hm⟩ := Open.message (hn ▸ h)
    exact ⟨m, hm ▸ List.prefix_append ..⟩
  · have hc : List.replicate n (0 : UInt8) ≠ [] := by simpa using hn
    have hopen := h.chunk hc (by simp)
    rw [List.length_replicate, Nat.sub_self] at hopen
    obtain ⟨m, hm⟩ := hopen.message
    exact ⟨m, hm ▸ (List.prefix_append ..).trans (List.prefix_append ..)⟩

lemma headFrames_begins {hs : List Header} (hne : hs ≠ []) (line : RequestLine) :
    ∃ m : Message, Message.headFrames line hs <+: m.frames := by
  rcases endOfHead_eq hs with ⟨-, hlen⟩ | ⟨n, hn, -, hlen⟩
  · obtain ⟨m, hm⟩ := message_of_length_zero hne hlen line
    exact ⟨m, hm ▸ List.prefix_append ..⟩
  · obtain ⟨m, hm⟩ := (open_head hne hn hlen line).begins
    exact ⟨m, (List.prefix_append ..).trans hm⟩

/-- What has come of a message lacks its end. -/
lemma After.not_mem (h : p.After fs) : Frame.entityEnd ∉ fs := by
  have open_not_mem : ∀ {n : Nat}, Open n fs → Frame.entityEnd ∉ fs := by
    rintro n ⟨line, hs, cs, -, -, -, -, rfl⟩
    simp [Message.headFrames]
  cases p with
  | requestLine =>
    obtain rfl : fs = [] := h
    exact List.not_mem_nil
  | header =>
    obtain ⟨line, rfl⟩ := h
    simp
  | headerOrEnd hs =>
    obtain ⟨-, line, rfl⟩ := h
    simp [Message.headFrames]
  | entity n hn => exact open_not_mem h
  | entityEnd => exact open_not_mem h

/-- What has come of a message can be completed. -/
lemma After.begins (h : p.After fs) : ∃ ms : List Message, fs <+: ms.flatMap Message.frames := by
  have one : (∃ m : Message, fs <+: m.frames) →
      ∃ ms : List Message, fs <+: ms.flatMap Message.frames :=
    fun ⟨m, hm⟩ => ⟨[m], by simpa using hm⟩
  cases p with
  | requestLine => exact ⟨[], by rw [show fs = [] from h]; exact List.nil_prefix⟩
  | header =>
    obtain ⟨line, rfl⟩ := h
    obtain ⟨m, hm⟩ := headFrames_begins (List.cons_ne_nil (Header.contentLength 0) []) line
    exact one ⟨m, (List.prefix_append [Frame.requestLine line] _).trans hm⟩
  | headerOrEnd hs =>
    obtain ⟨hne, line, rfl⟩ := h
    exact one (headFrames_begins hne line)
  | entity n hn => exact one (Open.begins h)
  | entityEnd => exact one (Open.begins h)

end Phase

namespace Framing

/-- The framing holds a frame that its phase may emit, or none. -/
def Lawful (f : Framing) : Prop := ∀ frame, f.frame = some frame → f.phase.Emits frame

lemma lawful_of_build {l : Lexicon} {p : Phase} {b : Bytes} {f : Framing}
    (h : build l p b = .ok f) : f.Lawful := by
  obtain ⟨⟨frame, r⟩ | r, hs, rfl⟩ := scan_of_build h
  · rintro _ ⟨⟩
    exact Phase.emits_of_scan hs
  · rintro _ ⟨⟩

lemma follows_walk {f : Framing} (h : f.Lawful) (bs : List Bytes) :
    f.phase.Follows (f.walk bs).1 := by
  induction bs generalizing f with
  | nil => exact .nil
  | cons b bs ih =>
    have hrest : f.nextPhase.Follows (Run.andThen ([], f.next b) fun g => g.walk bs).1 := by
      rcases hn : f.next b with e | g
      · exact .nil
      · have hg := ih (lawful_of_build hn)
        obtain ⟨s, -, rfl⟩ := scan_of_build hn
        exact hg
    rw [walk, Run.andThen_eq]
    rcases hf : f.frame with _ | frame
    · rw [nextPhase, hf] at hrest
      simpa [advance, hf] using hrest
    · rw [nextPhase, hf] at hrest
      simpa [advance, hf] using Phase.Follows.cons (h frame hf) hrest

/-- **The grammar of frames**: whatever the schedule, the frames of a connection are messages in
a row, and what has come of one more. -/
theorem frames_play (l : Lexicon) (s : List Piece) :
    ∃ (ms : List Message) (tail : List Frame) (q : Phase),
      ((init l).play s).1 = ms.flatMap Message.frames ++ tail ∧ q.After tail := by
  obtain ⟨bs, -, hplay⟩ := play_eq_walk (init l) s
  have hl : (init l).Lawful := by rintro _ ⟨⟩
  rw [hplay]
  have hafter : Phase.After .requestLine [] := rfl
  exact (follows_walk hl bs).split hafter

end Framing

end Http1
