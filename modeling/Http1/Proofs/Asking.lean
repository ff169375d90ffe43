import Http1.Proofs.ChunkBoundary
import Http1.Proofs.Standing

/-!
A reader that is asked again and again.

A log is what a reader does and what it is asked for, read by read and answer by answer. A read may
bring any part of the supply. Main statement: the answers are the frames of the run over all of the
supply, then the failure or the end to which it comes, and then nothing more. Whenever the source
is read, the answers so far are all that could be had from the bytes before that read.

The log of a reader that is asked with `pull` is one of these, where each read brings what is next.
-/

namespace Http1

namespace FrameReader

inductive Event where
  /-- The source has been read, and this is what it brought. -/
  | read (c : Source.Read)
  | told (a : Pull)

def heard (es : List Event) : Bytes :=
  es.flatMap fun
    | .read (.data c) => c
    | _ => []

def told (es : List Event) : List Pull :=
  es.filterMap fun
    | .told a => some a
    | .read _ => none

@[simp] lemma heard_append (es more : List Event) : heard (es ++ more) = heard es ++ heard more :=
  List.flatMap_append

@[simp] lemma told_append (es more : List Event) : told (es ++ more) = told es ++ told more :=
  List.filterMap_append

/-- A reader that needs bytes reads its source, which brings `c` and goes on as `s`. -/
structure Reads (r : FrameReader) (f : Framing) (c : Source.Read) (s : Source) : Prop where
  state : r.state = .live f
  frame : f.frame = none
  brings : Source.Reads r.source.supply r.source.fate c s

lemma reads_of_read {r : FrameReader} {f : Framing} {c : Source.Read} {s : Source}
    (hs : r.state = .live f) (hf : f.frame = none) (hr : r.source.read = (c, s)) :
    r.Reads f c s :=
  ⟨hs, hf, Source.reads_of_eq hr⟩

/-- What may happen to a reader of a source, from its start on. -/
inductive Logs (l : Lexicon) (src : Source) : List Event → FrameReader → Prop where
  | start : Logs l src [] (create src l)
  | frame {es : List Event} {r : FrameReader} {f : Framing} {frame : Frame} :
      Logs l src es r → r.state = .live f → f.frame = some frame →
      Logs l src (es ++ [.told (.frame frame)]) ⟨r.source, .of (f.next [])⟩
  | fault {es : List Event} {r : FrameReader} {e : ParseError} :
      Logs l src es r → r.state = .failed e →
      Logs l src (es ++ [.told (.failed (.parse e))]) ⟨r.source, .ended⟩
  | nothing {es : List Event} {r : FrameReader} :
      Logs l src es r → r.state = .ended → Logs l src (es ++ [.told (.ended 0)]) r
  | wait {es : List Event} {r : FrameReader} {f : Framing} {s : Source} :
      Logs l src es r → r.Reads f .blocked s → Logs l src (es ++ [.read .blocked]) ⟨s, .live f⟩
  | data {es : List Event} {r : FrameReader} {f g : Framing} {c : Bytes} {s : Source} :
      Logs l src es r → r.Reads f (.data c) s → f.next c = .ok g →
      Logs l src (es ++ [.read (.data c)]) ⟨s, .live g⟩
  | malformed {es : List Event} {r : FrameReader} {f : Framing} {c : Bytes} {s : Source}
      {e : ParseError} :
      Logs l src es r → r.Reads f (.data c) s → f.next c = .error e →
      Logs l src (es ++ [.read (.data c), .told (.failed (.parse e))]) ⟨s, .ended⟩
  | broken {es : List Event} {r : FrameReader} {f : Framing} {e : TransportError} {s : Source} :
      Logs l src es r → r.Reads f (.failed e) s →
      Logs l src (es ++ [.read (.failed e), .told (.failed (.transport e))]) ⟨s, .ended⟩
  | ended {es : List Event} {r : FrameReader} {f : Framing} {s : Source} :
      Logs l src es r → r.Reads f .ended s →
      Logs l src (es ++ [.read .ended, .told (.ended f.buffer.length)]) ⟨s, .ended⟩

/-! ### The log of a question -/

def next (r : FrameReader) : Pull × FrameReader :=
  match hr : r.pull with
  | (.blocked, r') =>
    have : r'.potential < r.potential := by
      have hp := r.pull_potential
      simp only [hr, Pull.price] at hp
      omega
    next r'
  | answer => answer
termination_by r.potential

def asks (r : FrameReader) : Nat → List Pull × FrameReader
  | 0 => ([], r)
  | n + 1 => (r.next.1 :: (r.next.2.asks n).1, (r.next.2.asks n).2)

variable {l : Lexicon} {src : Source} {es : List Event} {r : FrameReader}

/-- What is answered at once: nothing, while the source has to be waited for. -/
def Pull.answer? : Pull → Option Pull
  | blocked => none
  | a => some a

lemma Logs.pull (h : Logs l src es r) :
    ∃ more, Logs l src (es ++ more) r.pull.2 ∧ told more = r.pull.1.answer?.toList := by
  fun_induction FrameReader.pull r generalizing es with
  | case1 r hs => exact ⟨_, h.nothing hs, rfl⟩
  | case2 r e hs => exact ⟨_, h.fault hs, rfl⟩
  | case3 r f hs frame hf f' hn =>
    have hlog := h.frame hs hf
    rw [hn] at hlog
    exact ⟨_, hlog, rfl⟩
  | case4 r f hs frame hf e hn =>
    have hlog := h.frame hs hf
    rw [hn] at hlog
    exact ⟨_, hlog, rfl⟩
  | case5 r f hs hf s hr => exact ⟨_, h.ended (reads_of_read hs hf hr), rfl⟩
  | case6 r f hs hf s hr => exact ⟨_, h.wait (reads_of_read hs hf hr), rfl⟩
  | case7 r f hs hf e s hr => exact ⟨_, h.broken (reads_of_read hs hf hr), rfl⟩
  | case8 r f hs hf c s hr e hn =>
    exact ⟨_, h.malformed (reads_of_read hs hf hr) hn, rfl⟩
  | case9 r f hs hf c s hr g hn _ ih =>
    obtain ⟨more, hlog, htold⟩ := ih (h.data (reads_of_read hs hf hr) hn)
    exact ⟨.read (.data c) :: more, by simpa using hlog, htold⟩

lemma Logs.next (h : Logs l src es r) :
    ∃ more, Logs l src (es ++ more) r.next.2 ∧ told more = [r.next.1] := by
  fun_induction FrameReader.next r generalizing es with
  | case1 r r' hp _ ih =>
    obtain ⟨more, hlog, htold⟩ := h.pull
    rw [hp] at hlog htold
    obtain ⟨more', hlog', htold'⟩ := ih hlog
    refine ⟨more ++ more', by simpa using hlog', ?_⟩
    rw [told_append, htold, htold']
    rfl
  | case2 r hanswer =>
    obtain ⟨more, hlog, htold⟩ := h.pull
    refine ⟨more, hlog, ?_⟩
    rw [htold]
    rcases hp : r.pull with ⟨_ | _ | _ | _, r'⟩
    case blocked => exact absurd hp (hanswer r')
    all_goals rfl

lemma Logs.asks (h : Logs l src es r) (n : Nat) :
    ∃ more, Logs l src (es ++ more) (r.asks n).2 ∧ told more = (r.asks n).1 := by
  induction n generalizing es r with
  | zero => exact ⟨[], by simpa [FrameReader.asks] using h, rfl⟩
  | succ n ih =>
    obtain ⟨first, hlog, htold⟩ := h.next
    obtain ⟨more, hlog', htold'⟩ := ih hlog
    refine ⟨first ++ more, by simpa [FrameReader.asks] using hlog', ?_⟩
    rw [told_append, htold, htold']
    rfl

/-! ### What a log comes to -/

/-- What is told behind the frames of a run: its failure, else that of the source, else the end of
input. -/
def lastAnswer (fate : Option TransportError) : Except ParseError Framing → Pull
  | .error e => .failed (.parse e)
  | .ok f =>
    match fate with
    | some e => .failed (.transport e)
    | none => .ended f.buffer.length

/-- These frames have been told, and a phase is tried on the bytes that were heard behind them. -/
structure Underway (l : Lexicon) (src : Source) (es : List Event) (r : FrameReader)
    (fs : List Frame) (p : Phase) (held : Bytes) : Prop where
  sound : p.Sound l
  state : r.state = .of (Framing.build l p held)
  fate : r.source.fate = src.fate
  supply : src.supply = heard es ++ r.source.supply
  told : told es = fs.map .frame
  reading : ∀ c, Framing.reading l .requestLine (heard es ++ c) =
    fs.foldr Framing.Run.glue (Framing.reading l p (held ++ c))

/-- These are all frames of the run, and what is behind them has been told too. -/
structure Over (l : Lexicon) (src : Source) (es : List Event) (r : FrameReader) (fs : List Frame)
    (k : Nat) : Prop where
  state : r.state = .ended
  frames : (Framing.reading l .requestLine src.supply).1 = Frame.merge fs
  told : told es = fs.map .frame ++
    lastAnswer src.fate (Framing.reading l .requestLine src.supply).2 :: .replicate k (.ended 0)

lemma foldr_glue (fs : List Frame) (run : Framing.Run) :
    fs.foldr Framing.Run.glue run = (fs.foldr Frame.glue run.1, run.2) := by
  induction fs with
  | nil => rfl
  | cons f fs ih => rw [List.foldr_cons, ih]; rfl

variable {fs : List Frame} {p : Phase} {held : Bytes} {k : Nat}

lemma Underway.over (h : Underway l src es r fs p held) {end' : Except ParseError Framing}
    (hend : Framing.reading l p (held ++ r.source.supply) = ([], end')) {more : List Event}
    (htold : FrameReader.told more = [lastAnswer src.fate end']) {r' : FrameReader}
    (hr : r'.state = .ended) : Over l src (es ++ more) r' fs 0 := by
  have hall : Framing.reading l .requestLine src.supply = (Frame.merge fs, end') := by
    rw [h.supply, h.reading, hend, foldr_glue]
    rfl
  exact ⟨hr, by rw [hall], by rw [told_append, h.told, htold, hall]; rfl⟩

/-- A reader that needs bytes has tried its phase on all it has heard. -/
lemma Underway.held_eq (h : Underway l src es r fs p held) {f : Framing} {c : Source.Read}
    {s : Source} (hr : r.Reads f c s) :
    p.scan l held = .ok (.pending held) ∧ f = ⟨l, p, held, none⟩ :=
  held_of_frame_none (ReaderState.of_eq_live (hr.state ▸ h.state)) hr.frame

lemma Underway.frame (h : Underway l src es r fs p held) {f : Framing} {frame : Frame}
    (hstate : r.state = .live f) (hf : f.frame = some frame) :
    ∃ rest, Underway l src (es ++ [.told (.frame frame)]) ⟨r.source, .of (f.next [])⟩
      (fs ++ [frame]) (p.next frame) rest := by
  have hb := ReaderState.of_eq_live (hstate ▸ h.state)
  obtain ⟨⟨frame', rest⟩ | rest, hs, rfl⟩ := Framing.scan_of_build hb
  · obtain rfl : frame' = frame := by simpa [Scan.value?] using hf
    refine ⟨rest, h.sound.next hs, ?_, h.fate, ?_, ?_, fun c => ?_⟩
    · rw [Framing.next_of_build hb, List.append_nil]
      rfl
    · rw [h.supply, heard_append, List.append_assoc]
      rfl
    · rw [told_append, h.told, List.map_append]
      rfl
    · have hnext := Framing.reading_append h.sound hs c
      rw [heard_append, List.append_assoc, List.foldr_append]
      exact (h.reading c).trans (congrArg (fs.foldr Framing.Run.glue) hnext)
  · simp [Scan.value?] at hf

lemma Underway.hears (h : Underway l src es r fs p held) {c : Source.Read} {s : Source} {b : Bytes}
    (hc : heard [.read c] = b) (hsupply : r.source.supply = b ++ s.supply)
    (hfate : s.fate = r.source.fate) :
    Underway l src (es ++ [.read c]) ⟨s, .of (Framing.build l p (held ++ b))⟩ fs p (held ++ b) where
  sound := h.sound
  state := rfl
  fate := hfate.trans h.fate
  supply := by rw [h.supply, heard_append, hc, List.append_assoc, hsupply]
  told := by
    rw [told_append, h.told]
    exact List.append_nil _
  reading c' := by
    rw [heard_append, hc, List.append_assoc, List.append_assoc]
    exact h.reading (b ++ c')

/-- **One event**: more frames have been told, or the run is over. -/
lemma Logs.stage (h : Logs l src es r) :
    (∃ fs p held, Underway l src es r fs p held) ∨ ∃ fs k, Over l src es r fs k := by
  -- what has not ended is under way
  have underway : ∀ {es : List Event} {r : FrameReader},
      (∃ fs p held, Underway l src es r fs p held) ∨ (∃ fs k, Over l src es r fs k) →
      r.state ≠ .ended → ∃ fs p held, Underway l src es r fs p held :=
    fun hstage hlive => hstage.resolve_right fun ⟨_, _, hover⟩ => hlive hover.state
  induction h with
  | start =>
    refine .inl ⟨[], .requestLine, [], trivial, ?_, rfl, rfl, rfl, fun c => rfl⟩
    rw [Framing.build_init]
    rfl
  | frame _ hstate hf ih =>
    obtain ⟨fs, p, held, h⟩ := underway ih (by simp [hstate])
    obtain ⟨rest, h⟩ := h.frame hstate hf
    exact .inl ⟨_, _, _, h⟩
  | fault _ hstate ih =>
    obtain ⟨fs, p, held, h⟩ := underway ih (by simp [hstate])
    have hb := Framing.scan_of_build_error (ReaderState.of_eq_failed (hstate ▸ h.state))
    exact .inr ⟨fs, 0, h.over (Framing.reading_append_error h.sound hb _) rfl rfl⟩
  | nothing _ hstate ih =>
    rcases ih with ⟨fs, p, held, h⟩ | ⟨fs, k, h⟩
    · have hof := hstate ▸ h.state
      cases hb : Framing.build l p held <;> simp [hb, ReaderState.of] at hof
    · refine .inr ⟨fs, k + 1, h.state, h.frames, ?_⟩
      rw [told_append, h.told, List.replicate_succ', List.append_assoc]
      rfl
  | wait _ hr ih =>
    obtain ⟨fs, p, held, h⟩ := underway ih (by simp [hr.state])
    obtain ⟨hs, rfl⟩ := h.held_eq hr
    cases hr.brings with
    | blocked hsupply hfate =>
      have hafter := h.hears (c := .blocked) (b := []) rfl hsupply.symm hfate
      rw [List.append_nil, Framing.build_of_scan hs] at hafter
      exact .inl ⟨_, _, _, hafter⟩
  | @data _ _ _ g c _ _ hr hn ih =>
    obtain ⟨fs, p, held, h⟩ := underway ih (by simp [hr.state])
    obtain ⟨hs, rfl⟩ := h.held_eq hr
    have hb : Framing.build l p (held ++ c) = .ok g := hn
    cases hr.brings with
    | data _ hsupply hfate =>
      have hafter := h.hears (c := .data c) (List.append_nil c) hsupply hfate
      rw [hb] at hafter
      exact .inl ⟨_, _, _, hafter⟩
  | @malformed _ _ _ c s e _ hr hn ih =>
    obtain ⟨fs, p, held, h⟩ := underway ih (by simp [hr.state])
    obtain ⟨hs, rfl⟩ := h.held_eq hr
    have hb : Framing.build l p (held ++ c) = .error e := hn
    cases hr.brings with
    | data _ hsupply hfate =>
      have hend := Framing.reading_append_error h.sound (Framing.scan_of_build_error hb) s.supply
      rw [List.append_assoc] at hend
      exact .inr ⟨fs, 0, h.over (hsupply ▸ hend) rfl rfl⟩
  | broken _ hr ih =>
    obtain ⟨fs, p, held, h⟩ := underway ih (by simp [hr.state])
    obtain ⟨hs, rfl⟩ := h.held_eq hr
    cases hr.brings with
    | failed hsupply hfate =>
      have hend := Framing.reading_pending hs
      refine .inr ⟨fs, 0, h.over (by rw [hsupply, List.append_nil]; exact hend) ?_ rfl⟩
      rw [← h.fate, hfate]
      rfl
  | ended _ hr ih =>
    obtain ⟨fs, p, held, h⟩ := underway ih (by simp [hr.state])
    obtain ⟨hs, rfl⟩ := h.held_eq hr
    cases hr.brings with
    | ended hsupply hfate =>
      have hend := Framing.reading_pending hs
      refine .inr ⟨fs, 0, h.over (by rw [hsupply, List.append_nil]; exact hend) ?_ rfl⟩
      rw [← h.fate, hfate]
      rfl

lemma Underway.isTerminated (h : Underway l src es r fs p held) : r.isTerminated = false := by
  rw [FrameReader.isTerminated, h.state]
  cases Framing.build l p held <;> rfl

lemma Over.isTerminated (h : Over l src es r fs k) : r.isTerminated = true := by
  rw [FrameReader.isTerminated, h.state]

lemma Underway.reading_heard (h : Underway l src es r fs p held) {f : Framing} {c : Source.Read}
    {s : Source} (hr : r.Reads f c s) :
    Framing.reading l .requestLine (heard es) = (Frame.merge fs, .ok f) := by
  obtain ⟨hs, rfl⟩ := h.held_eq hr
  have hreading := h.reading []
  rw [List.append_nil, List.append_nil, Framing.reading_pending hs, foldr_glue] at hreading
  exact hreading

lemma exists_reading_eq (l : Lexicon) (p : Phase) (b : Bytes) :
    ∃ gs, (Framing.reading l p b).1 = Frame.merge gs := by
  rcases hb : Framing.build l p b with e | f
  · exact ⟨[], by simp [Framing.reading, hb]⟩
  · exact ⟨f.drain.1, by rw [Framing.reading_of_build hb]; rfl⟩

/-- A log keeps to a run, whose frames are `fs` up to the cuts inside an entity: what it has told is
a beginning of these frames, of what the run comes to, and then of nothing again and again. -/
structure Keeps (l : Lexicon) (src : Source) (run : Framing.Run) (es : List Event) (r : FrameReader)
    (fs : List Frame) : Prop where
  frames : Frame.merge fs = Frame.merge run.1
  answers : ∃ k, told es <+: fs.map .frame ++ lastAnswer src.fate run.2 :: .replicate k (.ended 0)
  /-- The reader has ended once it has told what the run comes to. -/
  terminated : r.isTerminated ↔ fs.length < (told es).length
  /-- If it reads, it has told the frames of all bytes before, which have no fault, and no more. -/
  reads : ∀ f c s, r.Reads f c s → (told es).length ≤ fs.length ∧
    ∀ sofar, Framing.total sofar = heard es →
      ((Framing.init l).play sofar).merge = (Frame.merge (fs.take (told es).length), .ok f)
  /-- Further questions are answered, and the log goes on with the answers. -/
  answered : ∀ n, ∃ more, Logs l src (es ++ more) (r.asks n).2 ∧ told more = (r.asks n).1

/-- **A reader keeps to the run** over all bytes of its source, whatever it reads at a time. -/
theorem Logs.keeps {pieces : List Framing.Piece} (h : Logs l src es r)
    (hp : Framing.total pieces = src.supply) :
    ∃ fs, Keeps l src ((Framing.init l).play pieces) es r fs := by
  have hrun := Framing.merge_play l pieces
  rw [hp] at hrun
  have hframes : Frame.merge ((Framing.init l).play pieces).1 =
      (Framing.reading l .requestLine src.supply).1 := congrArg Prod.fst hrun
  have hend : ((Framing.init l).play pieces).2 =
      (Framing.reading l .requestLine src.supply).2 := by rw [← hrun]; rfl
  rcases h.stage with ⟨fs, p, held, hstage⟩ | ⟨fs, k, hstage⟩
  · -- the frames told so far, and those that are still to come
    obtain ⟨gs, hgs⟩ := exists_reading_eq l p (held ++ r.source.supply)
    have hlength : (told es).length = fs.length := by rw [hstage.told, List.length_map]
    have hmerge : Frame.merge (fs ++ gs) = Frame.merge ((Framing.init l).play pieces).1 := by
      rw [hframes, hstage.supply, hstage.reading, foldr_glue, hgs]
      exact List.foldr_append
    have htold : told es <+: (fs ++ gs).map .frame := by
      rw [hstage.told, List.map_append]
      exact List.prefix_append ..
    refine ⟨fs ++ gs, hmerge, ⟨0, htold.trans (List.prefix_append ..)⟩, ?_, ?_, h.asks⟩
    · rw [hstage.isTerminated, hlength, List.length_append]
      simp
    · intro f c s hr
      refine ⟨by rw [hlength, List.length_append]; omega, fun sofar hsofar => ?_⟩
      rw [Framing.merge_play, hsofar, hlength, List.take_left, hstage.reading_heard hr]
  · have hlength : (told es).length = fs.length + 1 + k := by
      rw [hstage.told]
      simp only [List.length_append, List.length_map, List.length_cons, List.length_replicate]
      omega
    refine ⟨fs, (hframes.trans hstage.frames).symm,
      ⟨k, [], by rw [List.append_nil, hend, hstage.told]⟩, ?_, ?_, h.asks⟩
    · rw [hstage.isTerminated, hlength]
      simp only [true_iff]
      omega
    · intro f c s hr
      exact absurd (hr.state.symm.trans hstage.state) (by simp)

/-- `GET * HTTP/1.1` in two reads, and a failure. -/
def brokenHead : Source :=
  [.bytes [71, 69, 84, 32, 42, 32, 72, 84], .wait, .bytes [84, 80, 47, 49, 46, 49, 13, 10],
    .failure .reset]

def tight : Lexicon := .uniform 8

/-- The line has been read and told. -/
def brokenLog : List Event :=
  [.read (.data [71, 69, 84, 32, 42, 32, 72, 84]), .read .blocked,
    .read (.data [84, 80, 47, 49, 46, 49, 13, 10]),
    .told (.frame (.requestLine ⟨.standard .get, .asterisk, .http11⟩))]

def brokenReader : FrameReader := ⟨[.failure .reset], .live ⟨tight, .header, [], none⟩⟩

lemma logs_brokenLog : Logs tight brokenHead brokenLog brokenReader := by
  have half : Logs tight brokenHead (brokenLog.take 2) ⟨brokenHead.drop 2,
      .live ⟨tight, .requestLine, [71, 69, 84, 32, 42, 32, 72, 84], none⟩⟩ :=
    (Logs.start.data (f := .init tight) (c := [71, 69, 84, 32, 42, 32, 72, 84])
      (reads_of_read rfl rfl rfl) rfl).wait (reads_of_read rfl rfl rfl)
  have line : Logs tight brokenHead (brokenLog.take 3) ⟨[.failure .reset],
      .live ⟨tight, .requestLine, [],
        some (.requestLine ⟨.standard .get, .asterisk, .http11⟩)⟩⟩ :=
    half.data (c := [84, 80, 47, 49, 46, 49, 13, 10]) (reads_of_read rfl rfl rfl) rfl
  exact line.frame rfl rfl

theorem keeps_brokenLog :
    Logs tight brokenHead brokenLog brokenReader ∧
      Framing.total [⟨.atOnce, brokenHead.supply⟩] = brokenHead.supply ∧
      ∃ fs, Keeps tight brokenHead ((Framing.init tight).play [⟨.atOnce, brokenHead.supply⟩])
        brokenLog brokenReader fs :=
  ⟨logs_brokenLog, rfl, logs_brokenLog.keeps rfl⟩

end FrameReader

end Http1
