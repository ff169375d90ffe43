import Http1.Proofs.Delimited
import Http1.Proofs.Grammar

/-!
What each frame costs.

The frames of a connection take its bytes from the front, one after the other; a span is a frame
with the bytes it took. Main statement: how the spans of any run are spelled. A request line and
a header end at a line end. It is their only one as far as the fields in front of the last are
free of line ends, which nothing sees to: a method runs up to a space and a name up to a colon.
So the bytes after a request line are a header's in any case, be they an empty line. After a
header an empty line is one.
-/

namespace Http1

/-- A frame and the bytes it took. -/
structure Span where
  frame : Frame
  bytes : Bytes
  deriving DecidableEq

def OneLine (c : Bytes) : Prop := ∀ i, crlf <+: c.drop i ↔ i + crlf.length = c.length

namespace Span

/-- How the bytes of a frame are spelled, and when they are one line. -/
def Spelled (l : Lexicon) : Span → Prop
  | ⟨.requestLine line, c⟩ => ∃ m u, c = Line.requestBytes m u line.version ∧
      Method.ofToken? (latin1 m) = some line.method ∧ l.target? u = some line.target ∧
      (OneLine c ↔ Unbroken m ∧ Unbroken u)
  | ⟨.header h, c⟩ => ∃ n v, c = Line.headerBytes n v ∧
      trim (latin1 n) = h.name.text ∧ trim (latin1 v) = h.value.text ∧
      ¬ ['\r', '\n'] <:+: h.value.text ∧ Unbroken v ∧ (OneLine c ↔ Unbroken n)
  | ⟨.entityStart _, c⟩ => c = crlf ∨ c = [10]
  | ⟨.entityChunk b, c⟩ => c = b
  | ⟨.entityEnd, c⟩ => c = crlf ∨ c = [10] ∨ c = []

/-- The head of a message ends with this frame: there is an entity, or there is none. -/
def EndsHead : Span → Prop
  | ⟨.entityStart _, _⟩ => True
  | ⟨.entityEnd, _⟩ => True
  | _ => False

end Span

/-! ### Line ends in text -/

lemma ofUInt8_inj {a b : UInt8} (h : Char.ofUInt8 a = Char.ofUInt8 b) : a = b := by
  have hnat := congrArg Char.toNat h
  rw [toNat_ofUInt8, toNat_ofUInt8] at hnat
  exact UInt8.toNat_inj.1 hnat

lemma unbroken_text {v : Bytes} (hv : Unbroken v) : ¬ ['\r', '\n'] <:+: trim (latin1 v) := by
  intro h
  obtain ⟨s, t, htext⟩ := h.trans (trim_inside _)
  have hmap : v.map Char.ofUInt8 = s ++ crlf.map Char.ofUInt8 ++ t := htext.symm
  obtain ⟨a, c, rfl, ha, -⟩ := List.map_eq_append_iff.1 hmap
  obtain ⟨d, e, rfl, -, he⟩ := List.map_eq_append_iff.1 ha
  rw [List.map_inj_right fun _ _ => ofUInt8_inj] at he
  exact hv ⟨d, c, by rw [he]⟩

/-! ### The spelling of one frame -/

lemma oneLine_append_crlf {a : Bytes} : OneLine (a ++ crlf) ↔ Unbroken a := by
  rw [← clears_crlf_iff]
  constructor
  · intro h i hi hocc
    have hend := (h i).1 hocc
    rw [List.length_append] at hend
    omega
  · intro h i
    rw [List.length_append]
    by_cases hi : i < a.length
    · exact ⟨fun hocc => absurd hocc (h i hi), by omega⟩
    · obtain ⟨j, rfl⟩ : ∃ j, i = a.length + j := ⟨i - a.length, by omega⟩
      rw [← List.drop_drop, List.drop_left]
      constructor
      · intro hocc
        have hlen := hocc.length_le
        rw [List.length_drop] at hlen
        have hpos : 0 < crlf.length := by decide
        omega
      · intro hend
        obtain rfl : j = 0 := by omega
        exact List.prefix_refl _

lemma oneLine_requestBytes {m u : Bytes} {v : Version} :
    OneLine (Line.requestBytes m u v) ↔ Unbroken m ∧ Unbroken u := by
  have hb : Line.requestBytes m u v = (m ++ 32 :: (u ++ 32 :: v.token)) ++ crlf := by
    simp [Line.requestBytes, Line.space]
  rw [hb, oneLine_append_crlf, unbroken_append_cons (by decide) (by decide),
    unbroken_append_cons (by decide) (by decide)]
  simp [unbroken_token]

lemma oneLine_headerBytes {n v : Bytes} (hv : Unbroken v) :
    OneLine (Line.headerBytes n v) ↔ Unbroken n := by
  have hb : Line.headerBytes n v = (n ++ 58 :: v) ++ crlf := by
    simp [Line.headerBytes, Line.colon]
  rw [hb, oneLine_append_crlf, unbroken_append_cons (by decide) (by decide)]
  simp [hv]

namespace Phase

variable {l : Lexicon} {p q : Phase} {b b' r : Bytes} {frame : Frame}

lemma spelled_header {h : Header} (hh : Line.header l b = .ok (.done h r)) :
    ∃ c, b = c ++ r ∧ Span.Spelled l ⟨.header h, c⟩ := by
  obtain ⟨n, v, rfl, ⟨-, hn⟩, hfield, hv⟩ := Line.header_eq_done_iff.1 hh
  have hunbroken := clears_crlf_iff.1 hfield.clears
  exact ⟨_, rfl, n, v, rfl, hn, hv, hv ▸ unbroken_text hunbroken, hunbroken,
    oneLine_headerBytes hunbroken⟩

lemma empty_eq_done_iff {u : Unit} :
    Line.empty b = .ok (.done u r) ↔ b = crlf ++ r ∨ b = [10] ++ r := by
  unfold Line.empty
  split <;> simp_all [crlf]

lemma spelled_endOfHead (hs : List Header) {c : Bytes} (hc : c = crlf ∨ c = [10]) :
    Span.Spelled l ⟨endOfHead hs, c⟩ := by
  rcases endOfHead_eq hs with ⟨h, -⟩ | ⟨n, -, h, -⟩ <;> rw [h]
  · exact hc.elim .inl fun h => .inr (.inl h)
  · exact hc

lemma Takes.spelled (h : p.Takes l b frame b') : ∃ c, b = c ++ b' ∧ Span.Spelled l ⟨frame, c⟩ := by
  cases p with
  | requestLine =>
    obtain ⟨line, hline, rfl⟩ := Scanner.map_eq_done_iff.1 h
    obtain ⟨m, u, rfl, ⟨-, hm⟩, ⟨-, hu⟩, -⟩ := Line.request_eq_done_iff.1 hline
    exact ⟨_, rfl, m, u, rfl, hm, hu, oneLine_requestBytes⟩
  | header =>
    obtain ⟨x, rfl, hx⟩ := map_header_done h
    exact spelled_header hx
  | headerOrEnd hs =>
    simp only [Takes, scan] at h
    rcases he : Line.empty b with e | ⟨u, r⟩ | r <;>
      simp only [he, Scan.map, Except.ok.injEq, Scan.done.injEq, reduceCtorEq] at h
    · obtain ⟨x, rfl, hx⟩ := map_header_done h
      exact spelled_header hx
    · obtain ⟨rfl, rfl⟩ := h
      rcases empty_eq_done_iff.1 he with rfl | rfl
      · exact ⟨_, rfl, spelled_endOfHead hs (.inl rfl)⟩
      · exact ⟨_, rfl, spelled_endOfHead hs (.inr rfl)⟩
  | entity n hn =>
    obtain ⟨c, rfl, -, -, rfl⟩ := h
    exact ⟨c, rfl, rfl⟩
  | entityEnd =>
    simp only [Takes, scan, Except.ok.injEq, Scan.done.injEq] at h
    obtain ⟨rfl, rfl⟩ := h
    exact ⟨[], rfl, .inr (.inr rfl)⟩

/-! ### The spelling of a run -/

/-- From a phase and the bytes in front of it, span after span, to a phase and the bytes left. -/
inductive Consumes (l : Lexicon) : Phase → Bytes → List Span → Phase → Bytes → Prop where
  | nil {p : Phase} {b : Bytes} : Consumes l p b [] p b
  | cons {p q : Phase} {frame : Frame} {c b r : Bytes} {spans : List Span} :
      p.Takes l (c ++ b) frame b → Span.Spelled l ⟨frame, c⟩ →
      Consumes l (p.next frame) b spans q r → Consumes l p (c ++ b) (⟨frame, c⟩ :: spans) q r

variable {spans pre post : List Span}

lemma Consumes.bytes_eq (h : Consumes l p b spans q r) : b = spans.flatMap Span.bytes ++ r := by
  induction h with
  | nil => rfl
  | cons _ _ _ ih =>
    rw [List.flatMap_cons, List.append_assoc, ← ih]

lemma Consumes.spelled (h : Consumes l p b spans q r) : ∀ x ∈ spans, x.Spelled l := by
  induction h with
  | nil => exact List.forall_mem_nil _
  | cons _ hx _ ih => exact List.forall_mem_cons.2 ⟨hx, ih⟩

lemma Consumes.split (h : Consumes l p b (pre ++ post) q r) :
    ∃ p' b', Consumes l p b pre p' b' ∧ Consumes l p' b' post q r := by
  induction pre generalizing p b with
  | nil => exact ⟨p, b, .nil, h⟩
  | cons x pre ih =>
    cases h with
    | cons htakes hx hrest =>
      obtain ⟨p', b', hpre, hpost⟩ := ih hrest
      exact ⟨p', b', .cons htakes hx hpre, hpost⟩

lemma Takes.next_of_header {x : Header} (h : p.Takes l b (.header x) b') :
    ∃ hs, p.next (.header x) = headerOrEnd hs := by
  cases p with
  | requestLine =>
    obtain ⟨line, -, hline⟩ := Scanner.map_eq_done_iff.1 h
    cases hline
  | header => exact ⟨_, rfl⟩
  | headerOrEnd hs => exact ⟨_, rfl⟩
  | entity n hn =>
    obtain ⟨c, hc, -⟩ := h
    cases hc
  | entityEnd =>
    simp [Takes, scan] at h

lemma scan_empty_line (hs : List Header) (c : Bytes) :
    (headerOrEnd hs).scan l (crlf ++ c) = .ok (.done (endOfHead hs) c) := rfl

end Phase

namespace Framing

open Phase

variable {l : Lexicon} {p : Phase} {a : Bytes} {f : Framing}

/-- The frames of a walk with what each of them took, and the try at which it stands. -/
lemma walk_consumes (hp : p.Sound l) (h : build l p a = .ok f) (bs : List Bytes) :
    ∃ spans q r, Consumes l p (a ++ bs.flatten) spans q r ∧
      f.walk bs = (spans.map Span.frame, build l q r) := by
  induction bs generalizing p a f with
  | nil => exact ⟨[], p, a, by simpa using .nil, by rw [walk, h]; rfl⟩
  | cons b bs ih =>
    -- what comes behind the frame at hand, if there is one
    obtain ⟨spans, q, r, hspans, hwalk⟩ : ∃ spans q r,
        Consumes l f.nextPhase (f.buffer ++ b ++ bs.flatten) spans q r ∧
          Run.andThen ([], f.next b) (fun g => g.walk bs) =
            (spans.map Span.frame, build l q r) := by
      rw [next_of_build h]
      rcases hn : build l f.nextPhase (f.buffer ++ b) with e | g
      · have he := scan_error_append (sound_nextPhase hp h) (scan_of_build_error hn) bs.flatten
        have hb : build l f.nextPhase (f.buffer ++ b ++ bs.flatten) = .error e := by
          rw [build, he]
        exact ⟨[], _, _, .nil, by rw [hb]; rfl⟩
      · exact ih (sound_nextPhase hp h) hn
    rw [walk, Run.andThen_eq, advance, hwalk, List.flatten_cons, ← List.append_assoc]
    obtain ⟨⟨frame, r₀⟩ | r₀, hs, rfl⟩ := scan_of_build h
    · have htakes := takes_of_scan hp hs (b ++ bs.flatten)
      obtain ⟨c, hc, hspelled⟩ := htakes.spelled
      refine ⟨⟨frame, c⟩ :: spans, q, r, ?_, rfl⟩
      rw [List.append_assoc] at hspans
      rw [List.append_assoc, hc]
      exact .cons (hc ▸ htakes) hspelled hspans
    · have hr := pending_rest hs
      subst hr
      exact ⟨spans, q, r, hspans, rfl⟩

lemma play_consumes (l : Lexicon) (s : List Piece) :
    ∃ spans q r, Consumes l .requestLine (total s) spans q r ∧
      (init l).play s = (spans.map Span.frame, build l q r) := by
  obtain ⟨bs, hbs, hplay⟩ := play_eq_walk (init l) s
  rw [hplay, ← hbs]
  exact walk_consumes (p := .requestLine) trivial (build_init l) bs

/-- **The spelling of a run**: whatever the schedule, the bytes of the connection are those of its
frames, in order, and what the last phase leaves waiting or finds fault with. Each frame is spelled
as it says, and an empty line right after a header ends the head. -/
theorem spelled_play (l : Lexicon) (s : List Piece) :
    ∃ spans q r, Consumes l .requestLine (total s) spans q r ∧
      total s = spans.flatMap Span.bytes ++ r ∧
      (init l).play s = (spans.map Span.frame, build l q r) ∧
      (∀ x ∈ spans, x.Spelled l) ∧
      ∀ pre x c post, spans = pre ++ ⟨.header x, c⟩ :: post →
        crlf <+: post.flatMap Span.bytes ++ r →
        ∃ ending more, post = ending :: more ∧ ending.EndsHead ∧ ending.bytes = crlf := by
  obtain ⟨spans, q, r, hspans, hplay⟩ := play_consumes l s
  refine ⟨spans, q, r, hspans, hspans.bytes_eq, hplay, hspans.spelled, ?_⟩
  rintro pre x c post rfl ⟨rest, hrest⟩
  obtain ⟨p, b, -, hafter⟩ := hspans.split
  cases hafter with
  | @cons _ _ _ _ b₁ _ _ htakes _ hpost =>
    obtain ⟨hs, hnext⟩ := htakes.next_of_header
    rw [hnext] at hpost
    have hb₁ := hpost.bytes_eq
    rw [← hrest] at hb₁
    subst hb₁
    -- an empty line is taken at once, so it is not left over
    generalize hb : crlf ++ rest = b₂ at hpost
    cases hpost with
    | nil =>
      have hwaits := waits_play (init l) s
      rw [hplay, ← hb, build_of_scan (scan_empty_line hs rest)] at hwaits
      exact absurd (hwaits _ rfl) (by simp [Scan.value?])
    | @cons _ _ frame d b₃ _ more htakes' _ _ =>
      have hscan : (headerOrEnd hs).scan l (d ++ b₃) = .ok (.done frame b₃) := htakes'
      rw [← hb, scan_empty_line] at hscan
      obtain ⟨rfl, rfl⟩ : endOfHead hs = frame ∧ rest = b₃ := by simpa using hscan
      refine ⟨⟨endOfHead hs, d⟩, more, rfl, ?_, List.append_cancel_right hb.symm⟩
      rcases endOfHead_eq hs with ⟨h, -⟩ | ⟨n, -, h, -⟩ <;> rw [h] <;> trivial

/-- Twice `GET * HTTP/1.1`, first without a header and then with `Host:b`. -/
def headerless : Bytes :=
  [71, 69, 84, 32, 42, 32, 72, 84, 84, 80, 47, 49, 46, 49, 13, 10, 13, 10, 71, 69, 84, 32, 42, 32,
    72, 84, 84, 80, 47, 49, 46, 49, 13, 10, 72, 111, 115, 116, 58, 98, 13, 10, 13, 10]

/-- The header that comes of it: the second request line is in its name. -/
def swallowing : Header :=
  ⟨⟨"GET * HTTP/1.1\r\nHost".toList, by decide, by decide⟩, ⟨['b'], by decide, by decide⟩⟩

def narrow : Lexicon := (Limits.mk 22 8 8 8 8).lexicon

/-- The empty line right after a request line ends no head. -/
theorem play_headerless :
    crlf <+: headerless.drop 16 ∧
      (init narrow).play [⟨.atOnce, headerless⟩] =
        ([.requestLine ⟨.standard .get, .asterisk, .http11⟩, .header swallowing, .entityEnd],
          .ok (init narrow)) ∧
      ['\r', '\n'] <:+: swallowing.name.text := by
  have hline : (init narrow).next headerless = .ok ⟨narrow, .requestLine, headerless.drop 16,
      some (.requestLine ⟨.standard .get, .asterisk, .http11⟩)⟩ := rfl
  refine ⟨by decide, ?_, ⟨"GET * HTTP/1.1".toList, "Host".toList, by decide⟩⟩
  rw [play, advance, hline, Run.andThen_ok, play,
    drain_of_next (g := ⟨narrow, .header, crlf, some (.header swallowing)⟩) rfl rfl,
    drain_of_next (g := ⟨narrow, .headerOrEnd [swallowing], [], some .entityEnd⟩) rfl rfl,
    drain_of_next (g := init narrow) rfl rfl, drain_of_none rfl]
  rfl

end Framing

end Http1
