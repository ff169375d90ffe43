import Http1.Proofs.Stability

/-!
What a framing makes of bytes that have all come.

`reading l p b` is the outcome of phase `p` on the bytes `b`: the frames, with the chunks of an
entity in one piece, and the failure or the waiting framing at the end. Main statement: a frame
that comes off the bytes is the first frame of their reading, and what follows it is the reading
of what it left. Chunks are the reason for the pieces: a chunk grows with the bytes at hand.
-/

namespace Http1

namespace Frame

/-- A frame in front of others, where two chunks in a row become one. -/
def glue : Frame → List Frame → List Frame
  | entityChunk b, entityChunk c :: fs => entityChunk (b ++ c) :: fs
  | f, fs => f :: fs

/-- The frames with the chunks of each entity in one piece. -/
def merge (fs : List Frame) : List Frame := fs.foldr glue []

@[simp] lemma merge_nil : merge [] = [] := rfl

@[simp] lemma merge_cons (f : Frame) (fs : List Frame) : merge (f :: fs) = glue f (merge fs) := rfl

lemma glue_glue (b c : Bytes) (fs : List Frame) :
    glue (entityChunk b) (glue (entityChunk c) fs) = glue (entityChunk (b ++ c)) fs := by
  rcases fs with _ | ⟨_ | _ | _ | d | _, fs⟩ <;> simp [glue]

end Frame

namespace Framing

/-- The frames of a run, and how it ends: in a failure, or in a framing that goes on. -/
abbrev Run := List Frame × Except ParseError Framing

namespace Run

def andThen (r : Run) (k : Framing → Run) : Run :=
  match r.2 with
  | .error e => (r.1, .error e)
  | .ok f => (r.1 ++ (k f).1, (k f).2)

def merge (r : Run) : Run := (Frame.merge r.1, r.2)

def glue (f : Frame) (r : Run) : Run := (Frame.glue f r.1, r.2)

@[simp] lemma andThen_error (fs : List Frame) (e : ParseError) (k : Framing → Run) :
    andThen (fs, .error e) k = (fs, .error e) := rfl

@[simp] lemma andThen_ok (fs : List Frame) (f : Framing) (k : Framing → Run) :
    andThen (fs, .ok f) k = (fs ++ (k f).1, (k f).2) := rfl

lemma andThen_ok_nil (r : Run) : (r.andThen fun f => ([], .ok f)) = r := by
  rcases r with ⟨fs, e | f⟩ <;> simp

lemma andThen_assoc (r : Run) (k m : Framing → Run) :
    (r.andThen k).andThen m = r.andThen fun f => (k f).andThen m := by
  rcases r with ⟨fs, e | f⟩
  · rfl
  · rcases h : k f with ⟨gs, e | g⟩ <;> simp [h]

lemma andThen_eq (r : Run) (k : Framing → Run) :
    r.andThen k = (r.1 ++ (andThen ([], r.2) k).1, (andThen ([], r.2) k).2) := by
  rcases r with ⟨fs, e | f⟩ <;> simp

lemma merge_append (fs : List Frame) (r : Run) :
    merge (fs ++ r.1, r.2) = fs.foldr glue r.merge := by
  induction fs with
  | nil => rfl
  | cons f fs ih => rw [List.foldr_cons, ← ih]; rfl

end Run

/-- One step with more bytes; the frame that the framing holds is given out. -/
def advance (f : Framing) (b : Bytes) : Run := (f.frame.toList, f.next b)

lemma drain_of_none {f : Framing} (h : f.frame = none) : f.drain = ([], .ok f) := by
  rw [drain]
  split
  · rfl
  · simp_all

lemma drain_of_some {f : Framing} {frame : Frame} (h : f.frame = some frame) :
    f.drain = (f.advance []).andThen drain := by
  rw [drain]
  split
  · simp_all
  · rename_i frame' hf
    split <;> rename_i hn <;> simp [advance, hf, hn]

lemma drain_of_next {f g : Framing} {frame : Frame} (hf : f.frame = some frame)
    (hn : f.next [] = .ok g) : f.drain = (frame :: g.drain.1, g.drain.2) := by
  rw [drain_of_some hf, advance, hf, hn]
  rfl

/-- What phase `p` makes of the bytes `b`. -/
def reading (l : Lexicon) (p : Phase) (b : Bytes) : Run :=
  match build l p b with
  | .error e => ([], .error e)
  | .ok f => Run.merge f.drain

variable {l : Lexicon} {p : Phase} {b : Bytes}

lemma reading_of_build {f : Framing} (h : build l p b = .ok f) :
    reading l p b = Run.merge f.drain := by simp [reading, h]

lemma build_of_scan {s : Scan Frame} (h : p.scan l b = .ok s) :
    build l p b = .ok ⟨l, p, s.rest, s.value?⟩ := by simp [build, h]

lemma reading_error {e : ParseError} (h : p.scan l b = .error e) :
    reading l p b = ([], .error e) := by simp [reading, build, h]

lemma reading_pending {r : Bytes} (h : p.scan l b = .ok (.pending r)) :
    reading l p b = ([], .ok ⟨l, p, r, none⟩) := by
  rw [reading_of_build (build_of_scan h), drain_of_none rfl]
  rfl

lemma reading_done {frame : Frame} {r : Bytes} (h : p.scan l b = .ok (.done frame r)) :
    reading l p b = (reading l (p.next frame) r).glue frame := by
  rw [reading_of_build (build_of_scan h), drain_of_some rfl]
  simp only [advance, next, nextPhase, Scan.value?, Scan.rest, List.append_nil,
    Option.toList_some]
  rcases hb : build l (p.next frame) r with e | f
  · simp [reading, hb, Run.merge, Run.glue]
  · simp [reading, hb, Run.merge, Run.glue]

end Framing

/-! ### Phases -/

namespace Phase

/-- Past its first header, a request has shown that the limits leave room for a name. -/
def Sound (l : Lexicon) : Phase → Prop
  | headerOrEnd _ => 0 < l.headerName
  | _ => True

variable {l : Lexicon} {p : Phase} {b r : Bytes} {frame : Frame}

lemma outstanding_pos {n : Nat} (h : 0 < n) : outstanding n = entity n h := dif_pos h

@[simp] lemma outstanding_zero : outstanding 0 = entityEnd := rfl

lemma sound_outstanding (l : Lexicon) (n : Nat) : (outstanding n).Sound l := by
  unfold outstanding
  split <;> trivial

lemma map_header_done (h : (Line.header l).map Frame.header b = .ok (.done frame r)) :
    ∃ x, frame = .header x ∧ Line.header l b = .ok (.done x r) := by
  rcases hs : Line.header l b with e | ⟨x, r'⟩ | r' <;>
    simp only [Scanner.map, hs, Except.map, Scan.map, Except.ok.injEq, Scan.done.injEq,
      reduceCtorEq] at h
  exact ⟨x, h.1.symm, by rw [h.2]⟩

lemma Sound.next (hp : p.Sound l) (h : p.scan l b = .ok (.done frame r)) :
    (p.next frame).Sound l := by
  cases p with
  | requestLine => trivial
  | header =>
    obtain ⟨x, rfl, hx⟩ := map_header_done h
    exact Line.headerName_pos hx
  | headerOrEnd hs =>
    cases frame with
    | header x => exact hp
    | entityStart n => exact sound_outstanding l n
    | _ => trivial
  | entity n hn =>
    cases frame with
    | entityChunk c => exact sound_outstanding l _
    | _ => trivial
  | entityEnd => trivial

lemma scan_headerOrEnd_stable (hl : 0 < l.headerName) (hs : List Header) :
    Scanner.Stable (scan l (headerOrEnd hs)) := by
  have line := (Line.header_stable l).map Frame.header
  -- where the empty line finds fault, a header that is settled has shown that it stays so
  have other : ∀ {b : Bytes} {e : ParseError}, Line.empty b = .error e →
      (∀ r, (Line.header l).map Frame.header b ≠ .ok (.pending r)) →
      ∀ c, scan l (headerOrEnd hs) (b ++ c) = (Line.header l).map Frame.header (b ++ c) := by
    intro b e he hb c
    have h13 : b ≠ [13] := by
      rintro rfl
      refine hb [13] ?_
      simp [Scanner.map, Line.header_return_pending hl, Except.map, Scan.map]
    simp only [scan, Line.empty_error_append he h13 c]
  constructor
  · intro b a r c h
    simp only [scan] at h
    rcases he : Line.empty b with e | ⟨u, r'⟩ | r' <;>
      simp only [he, Scan.map, Except.ok.injEq, Scan.done.injEq, reduceCtorEq] at h
    · rw [other he (by simp [h]) c]
      exact line.done c h
    · obtain ⟨rfl, rfl⟩ := h
      simp only [scan, Line.empty_done_append he c, Scan.map]
  · intro b e c h
    simp only [scan] at h
    rcases he : Line.empty b with e' | ⟨u, r'⟩ | r' <;> simp only [he, reduceCtorEq] at h
    rw [other he (by simp [h]) c]
    exact line.error c h

/-- A frame comes off the bytes, which leaves others. A chunk is any part of its entity. -/
def Takes (l : Lexicon) (p : Phase) (b : Bytes) (frame : Frame) (b' : Bytes) : Prop :=
  match p with
  | entity n _ => ∃ c, frame = .entityChunk c ∧ c ≠ [] ∧ c.length ≤ n ∧ b = c ++ b'
  | p => p.scan l b = .ok (.done frame b')

lemma takes_of_scan (hp : p.Sound l) (h : p.scan l b = .ok (.done frame r)) (c : Bytes) :
    p.Takes l (b ++ c) frame (r ++ c) := by
  cases p with
  | requestLine => exact ((Line.request_stable l).map _).done c h
  | header => exact ((Line.header_stable l).map _).done c h
  | headerOrEnd hs => exact (scan_headerOrEnd_stable hp hs).done c h
  | entity n hn =>
    simp only [scan] at h
    split at h
    · simp at h
    · rename_i hb
      simp only [Except.ok.injEq, Scan.done.injEq] at h
      obtain ⟨rfl, rfl⟩ := h
      refine ⟨b.take n, rfl, ?_, List.length_take_le n b, ?_⟩
      · simpa [hb] using (by omega : n ≠ 0)
      · rw [← List.append_assoc, List.take_append_drop]
  | entityEnd =>
    simp only [scan, Except.ok.injEq, Scan.done.injEq] at h
    obtain ⟨rfl, rfl⟩ := h
    rfl

lemma scan_error_append {e : ParseError} (hp : p.Sound l) (h : p.scan l b = .error e)
    (c : Bytes) : p.scan l (b ++ c) = .error e := by
  cases p with
  | requestLine => exact ((Line.request_stable l).map _).error c h
  | header => exact ((Line.header_stable l).map _).error c h
  | headerOrEnd hs => exact (scan_headerOrEnd_stable hp hs).error c h
  | entity n hn =>
    simp only [scan] at h
    split at h <;> simp at h
  | entityEnd => simp [scan] at h

end Phase

/-! ### Prefixes -/

namespace Framing

variable {l : Lexicon} {p : Phase} {b r : Bytes}

lemma scan_entity_done {n : Nat} {hn : 0 < n} (hb : b ≠ []) :
    (Phase.entity n hn).scan l b = .ok (.done (.entityChunk (b.take n)) (b.drop n)) := by
  simp [Phase.scan, hb]

lemma reading_entity {n : Nat} {hn : 0 < n} (hb : b ≠ []) :
    reading l (.entity n hn) b =
      (reading l (.outstanding (n - b.length)) (b.drop n)).glue (.entityChunk (b.take n)) := by
  rw [reading_done (scan_entity_done hb)]
  simp only [Phase.next, List.length_take]
  congr 3
  omega

lemma reading_entity_nil (l : Lexicon) {n : Nat} (hn : 0 < n) :
    reading l (.entity n hn) [] = ([], .ok ⟨l, .entity n hn, [], none⟩) :=
  reading_pending (r := []) (by simp [Phase.scan])

/-- **A frame that comes off** is the first, and the rest is read from what it leaves. -/
theorem reading_takes {frame : Frame} {b' : Bytes} (h : p.Takes l b frame b') :
    reading l p b = (reading l (p.next frame) b').glue frame := by
  cases p with
  | entity n hn =>
    obtain ⟨c, rfl, hc, hlen, rfl⟩ := h
    rw [reading_entity (by simp [hc]), Phase.next]
    by_cases hb : b' = []
    · subst hb
      rw [List.append_nil, List.take_of_length_le hlen, List.drop_of_length_le hlen]
    · by_cases heq : c.length = n
      · subst heq
        rw [List.take_left, List.drop_left, List.length_append, Nat.sub_self,
          Nat.sub_eq_zero_of_le (Nat.le_add_right _ _)]
      · have hpos : 0 < n - c.length := by omega
        rw [Phase.outstanding_pos hpos, reading_entity hb, List.take_append,
          List.take_of_length_le hlen, List.drop_append, List.drop_of_length_le hlen,
          List.nil_append, List.length_append, Nat.sub_sub]
        simp [Run.glue, Frame.glue_glue]
  | _ => exact reading_done h

lemma reading_append {frame : Frame} (hp : p.Sound l) (h : p.scan l b = .ok (.done frame r))
    (c : Bytes) : reading l p (b ++ c) = (reading l (p.next frame) (r ++ c)).glue frame :=
  reading_takes (Phase.takes_of_scan hp h c)

lemma reading_append_error {e : ParseError} (hp : p.Sound l) (h : p.scan l b = .error e)
    (c : Bytes) : reading l p (b ++ c) = ([], .error e) :=
  reading_error (Phase.scan_error_append hp h c)

/-- What is pending has been left as it was. -/
lemma pending_rest (h : p.scan l b = .ok (.pending r)) : r = b := by
  cases p with
  | requestLine => exact (Line.request_rewinds l).map _ _ _ h
  | header => exact (Line.header_rewinds l).map _ _ _ h
  | headerOrEnd hs =>
    simp only [Phase.scan] at h
    rcases he : Line.empty b with e | ⟨u, r'⟩ | r' <;>
      simp only [he, Scan.map, Except.ok.injEq, Scan.pending.injEq, reduceCtorEq] at h
    · exact (Line.header_rewinds l).map _ _ _ h
    · exact h ▸ Line.empty_rewinds _ _ he
  | entity n hn =>
    simp only [Phase.scan] at h
    split at h
    · rename_i hb
      simp_all
    · simp at h
  | entityEnd => simp [Phase.scan] at h

lemma scan_of_build {f : Framing} (h : build l p b = .ok f) :
    ∃ s, p.scan l b = .ok s ∧ f = ⟨l, p, s.rest, s.value?⟩ := by
  unfold build at h
  split at h
  · rename_i s hs
    exact ⟨s, hs, (Except.ok.inj h).symm⟩
  · simp at h

lemma scan_of_build_error {e : ParseError} (h : build l p b = .error e) :
    p.scan l b = .error e := by
  unfold build at h
  split at h
  · simp at h
  · rename_i hs
    rw [hs, Except.error.inj h]

lemma lexicon_of_build {f : Framing} (h : build l p b = .ok f) : f.lexicon = l := by
  obtain ⟨s, -, rfl⟩ := scan_of_build h
  rfl

lemma sound_nextPhase {f : Framing} (hp : p.Sound l) (h : build l p b = .ok f) :
    f.nextPhase.Sound l := by
  obtain ⟨_ | _, hs, rfl⟩ := scan_of_build h
  · exact hp.next hs
  · exact hp

lemma build_init (l : Lexicon) : build l .requestLine [] = .ok (init l) := by
  have hw : ¬ window Line.space l.method ≤ 0 := by
    simp only [window, Line.space, List.length_singleton, maxSize, UInt64.size]
    omega
  have ht : token Line.space l.method true [] = .ok (.pending []) := by
    simp [token, hw, show offset? Line.space [] = none by decide]
  simp [build, Phase.scan, Scanner.map, Line.request, Scanner.whole, Scanner.andThen, Line.method,
    Scanner.tryMap, ht, Scan.tryMap, Scan.andThen, Except.map, Scan.orRewind, Scan.map, init,
    Scan.rest, Scan.value?]

/-- **A framing loses nothing**: what its bytes and those to come are read as is the frame it
holds, and what its next phase makes of the bytes it has left and of those to come. -/
theorem reading_build {f : Framing} (hp : p.Sound l) (h : build l p b = .ok f) (c : Bytes) :
    reading l p (b ++ c) =
      f.frame.toList.foldr Run.glue (reading l f.nextPhase (f.buffer ++ c)) := by
  obtain ⟨⟨frame, r⟩ | r, hs, rfl⟩ := scan_of_build h
  · exact reading_append hp hs c
  · rw [pending_rest hs]
    rfl

end Framing

end Http1
