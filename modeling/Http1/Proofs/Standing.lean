import Http1.FrameReader
import Http1.Proofs.Reading

/-!
What is before a reader.

However its source cuts them, the bytes before a reader are one string: those it holds and those
that its source will supply. A reader stands at a phase before such a string, and each question
to it is answered from the whole string, or leaves it where it was.
-/

namespace Http1

namespace Source

/-- The bytes that come before the end. -/
def supply : Source → Bytes
  | [] => []
  | .bytes [] :: _ => []
  | .bytes (x :: b) :: s => x :: b ++ supply s
  | .wait :: s => supply s
  | .failure _ :: _ => []

/-- The failure that ends the bytes, if it is one. -/
def fate : Source → Option TransportError
  | [] => none
  | .bytes [] :: _ => none
  | .bytes (_ :: _) :: s => fate s
  | .wait :: s => fate s
  | .failure e :: _ => some e

inductive Reads (b : Bytes) (fate : Option TransportError) : Read → Source → Prop where
  | data {c : Bytes} {s : Source} : c ≠ [] → b = c ++ s.supply → s.fate = fate →
      Reads b fate (.data c) s
  | blocked {s : Source} : s.supply = b → s.fate = fate → Reads b fate .blocked s
  | failed {e : TransportError} {s : Source} : b = [] → fate = some e → Reads b fate (.failed e) s
  | ended {s : Source} : b = [] → fate = none → Reads b fate .ended s

lemma read_reads (s : Source) : Reads s.supply s.fate s.read.1 s.read.2 := by
  match s with
  | [] => exact .ended rfl rfl
  | .bytes [] :: s => exact .ended rfl rfl
  | .wait :: s => exact .blocked rfl rfl
  | .failure e :: s => exact .failed rfl rfl
  | .bytes (x :: b) :: s => exact .data (by simp) rfl rfl

lemma reads_of_eq {s s' : Source} {c : Read} (h : s.read = (c, s')) :
    Reads s.supply s.fate c s' := by
  have hread := s.read_reads
  rwa [h] at hread

end Source

/-- How a reader stands that has tried a phase. -/
def ReaderState.of : Except ParseError Framing → ReaderState
  | .ok f => .live f
  | .error e => .failed e

namespace ReaderState

lemma of_eq_live {r : Except ParseError Framing} {f : Framing} (h : live f = of r) : r = .ok f := by
  rcases r with e | g
  · simp [of] at h
  · rw [live.inj h]

lemma of_eq_failed {r : Except ParseError Framing} {e : ParseError} (h : failed e = of r) :
    r = .error e := by
  rcases r with e | g
  · rw [failed.inj h]
  · simp [of] at h

end ReaderState

namespace FrameReader

/-- The reader stands at a phase, before these bytes and the end that comes after them. -/
structure Stands (l : Lexicon) (p : Phase) (b : Bytes) (fate : Option TransportError)
    (r : FrameReader) : Prop where
  sound : p.Sound l
  fate_eq : r.source.fate = fate
  state : ∃ held, b = held ++ r.source.supply ∧ r.state = .of (Framing.build l p held)

/-- What a question to a reader that stands so may bring, and what it makes of the reader. -/
inductive Answers (l : Lexicon) (p : Phase) (b : Bytes) (fate : Option TransportError) :
    Pull → FrameReader → Prop where
  | frame {f : Frame} {b' : Bytes} {r : FrameReader} :
      p.Takes l b f b' → r.Stands l (p.next f) b' fate → Answers l p b fate (.frame f) r
  | blocked {r : FrameReader} : r.Stands l p b fate → Answers l p b fate .blocked r
  | malformed {e : ParseError} {r : FrameReader} :
      p.scan l b = .error e → r.state = .ended → Answers l p b fate (.failed (.parse e)) r
  | broken {e : TransportError} {r : FrameReader} :
      p.scan l b = .ok (.pending b) → fate = some e → r.state = .ended →
        Answers l p b fate (.failed (.transport e)) r
  | ended {r : FrameReader} :
      p.scan l b = .ok (.pending b) → fate = none → r.state = .ended →
        Answers l p b fate (.ended b.length) r

variable {l : Lexicon} {p : Phase} {b : Bytes} {fate : Option TransportError} {r : FrameReader}

lemma stands_create (s : Source) (l : Lexicon) :
    (create s l).Stands l .requestLine s.supply s.fate :=
  ⟨trivial, rfl, [], rfl, by rw [Framing.build_init]; rfl⟩

lemma held_of_frame_none {held : Bytes} {f : Framing} (h : Framing.build l p held = .ok f)
    (hf : f.frame = none) : p.scan l held = .ok (.pending held) ∧ f = ⟨l, p, held, none⟩ := by
  obtain ⟨⟨frame, rest⟩ | rest, hs, rfl⟩ := Framing.scan_of_build h
  · simp [Scan.value?] at hf
  · obtain rfl := Framing.pending_rest hs
    exact ⟨hs, rfl⟩

lemma answers_frame (hp : p.Sound l) {held : Bytes} {f : Framing}
    (hb : Framing.build l p held = .ok f) {frame : Frame} (hf : f.frame = some frame)
    (s : Source) :
    Answers l p (held ++ s.supply) s.fate (.frame frame) ⟨s, .of (f.next [])⟩ := by
  obtain ⟨⟨frame', rest⟩ | rest, hs, rfl⟩ := Framing.scan_of_build hb
  · obtain rfl : frame' = frame := by simpa [Scan.value?] using hf
    have hnext : Framing.next ⟨l, p, rest, some frame'⟩ [] =
        Framing.build l (p.next frame') rest := by
      rw [Framing.next, List.append_nil]
      rfl
    exact .frame (Phase.takes_of_scan hp hs _)
      ⟨hp.next hs, rfl, rest, rfl, congrArg ReaderState.of hnext⟩
  · simp [Scan.value?] at hf

/-- **A question is answered from all that is before the reader.** -/
theorem Stands.answers (h : r.Stands l p b fate) : Answers l p b fate r.pull.1 r.pull.2 := by
  obtain ⟨sound, rfl, held, rfl, hstate⟩ := h
  fun_induction pull r generalizing held with
  | case1 r h => cases hb : Framing.build l p held <;> simp [h, hb, ReaderState.of] at hstate
  | case2 r e h =>
    have hb := ReaderState.of_eq_failed (h ▸ hstate)
    exact .malformed (Phase.scan_error_append sound (Framing.scan_of_build_error hb) _) rfl
  | case3 r f h frame hf f' hn =>
    have hans := answers_frame sound (ReaderState.of_eq_live (h ▸ hstate)) hf r.source
    rw [hn] at hans
    exact hans
  | case4 r f h frame hf e hn =>
    have hans := answers_frame sound (ReaderState.of_eq_live (h ▸ hstate)) hf r.source
    rw [hn] at hans
    exact hans
  | case5 r f h hf s hr =>
    obtain ⟨hs, rfl⟩ := held_of_frame_none (ReaderState.of_eq_live (h ▸ hstate)) hf
    cases Source.reads_of_eq hr with
    | ended hb hfate =>
      rw [hb, hfate, List.append_nil]
      exact .ended hs rfl rfl
  | case6 r f h hf s hr =>
    have hb := ReaderState.of_eq_live (h ▸ hstate)
    cases Source.reads_of_eq hr with
    | blocked hsup hfate => exact .blocked ⟨sound, hfate, held, by rw [hsup], by rw [hb]; rfl⟩
  | case7 r f h hf e s hr =>
    obtain ⟨hs, rfl⟩ := held_of_frame_none (ReaderState.of_eq_live (h ▸ hstate)) hf
    cases Source.reads_of_eq hr with
    | failed hb hfate =>
      rw [hb, hfate, List.append_nil]
      exact .broken hs rfl rfl
  | case8 r f h hf c s hr e hn =>
    obtain ⟨hs, rfl⟩ := held_of_frame_none (ReaderState.of_eq_live (h ▸ hstate)) hf
    cases Source.reads_of_eq hr with
    | data hc hsup hfate =>
      have hb : Framing.build l p (held ++ c) = .error e := hn
      rw [hsup, ← List.append_assoc]
      exact .malformed (Phase.scan_error_append sound (Framing.scan_of_build_error hb) _) rfl
  | case9 r f h hf c s hr f' hn _ ih =>
    obtain ⟨hs, rfl⟩ := held_of_frame_none (ReaderState.of_eq_live (h ▸ hstate)) hf
    cases Source.reads_of_eq hr with
    | data hc hsup hfate =>
      have hb : Framing.build l p (held ++ c) = .ok f' := hn
      rw [hsup, ← List.append_assoc, ← hfate]
      exact ih (held ++ c) (by rw [hb]; rfl)

end FrameReader

end Http1
