import Http1.Proofs.Asking
import Http1.Proofs.Delimited

/-!
Draining ends.

Every frame costs a byte, but for the end of an entity, which takes none. It is paid for by the
request line of its message, which takes two bytes at least: the byte that is left over is kept as
a credit until the message ends. So there are never more frames than bytes, and a framing that is
stepped without bytes as long as it has a frame comes to rest. Main statement: this, and that a
reader whose source brings something with every read has an answer after finitely many of them,
whatever they bring.
-/

namespace Http1

/-! ### What a frame costs -/

namespace Phase

/-- The bytes of the message that no frame has been given for. -/
def credit : Phase → Nat
  | requestLine => 0
  | _ => 1

lemma credit_le (p : Phase) : p.credit ≤ 1 := by cases p <;> simp [credit]

variable {l : Lexicon} {p : Phase} {b r : Bytes} {frame : Frame}

lemma request_size {line : RequestLine} (h : Line.request l b = .ok (.done line r)) :
    r.length + 2 ≤ b.length := by
  obtain ⟨m, u, rfl, -⟩ := Line.request_eq_done_iff.1 h
  simp only [Line.requestBytes, Line.space, List.length_append, List.length_singleton]
  omega

/-- **A frame is paid for**: by a byte, and the next phase has its credit from what is left, or by
the credit. -/
lemma scan_credit (h : p.scan l b = .ok (.done frame r)) :
    1 + r.length + (p.next frame).credit ≤ b.length + p.credit := by
  have hnext := (p.next frame).credit_le
  cases p with
  | requestLine =>
    obtain ⟨line, hline, rfl⟩ := Scanner.map_eq_done_iff.1 h
    have hsize := request_size hline
    have hcredit : requestLine.credit = 0 := rfl
    omega
  | header =>
    obtain ⟨x, rfl, hx⟩ := map_header_done h
    have hshort := Line.header_shortens l _ _ _ hx
    have hcredit : header.credit = 1 := rfl
    omega
  | headerOrEnd hs =>
    have hshort : r.length < b.length := by
      simp only [scan] at h
      rcases he : Line.empty b with e | ⟨u, r'⟩ | r' <;>
        simp only [he, Scan.map, Except.ok.injEq, Scan.done.injEq, reduceCtorEq] at h
      · obtain ⟨x, -, hx⟩ := map_header_done h
        exact Line.header_shortens l _ _ _ hx
      · exact h.2 ▸ Line.empty_shortens _ _ _ he
    have hcredit : (headerOrEnd hs).credit = 1 := rfl
    omega
  | entity n hn =>
    have hshort : r.length < b.length := by
      simp only [scan] at h
      split at h
      · cases h
      · rename_i hb
        obtain ⟨-, rfl⟩ : _ ∧ b.drop n = r := by simpa using h
        have hpos := List.length_pos_iff.2 hb
        rw [List.length_drop]
        omega
    have hcredit : (entity n hn).credit = 1 := rfl
    omega
  | entityEnd =>
    -- no byte is taken
    obtain ⟨rfl, rfl⟩ : Frame.entityEnd = frame ∧ b = r := by simpa [scan] using h
    simp only [credit, next]
    omega

end Phase

/-! ### Frames and bytes -/

namespace Framing

variable {l : Lexicon} {f g : Framing} {b : Bytes}

/-- The frames that a framing can still give without more bytes are no more than this. -/
def due (f : Framing) : Nat := f.frame.toList.length + f.buffer.length + f.nextPhase.credit

lemma due_build {p : Phase} (h : build l p b = .ok f) : f.due ≤ b.length + p.credit := by
  obtain ⟨⟨frame, r⟩ | r, hs, rfl⟩ := scan_of_build h
  · exact Phase.scan_credit hs
  · rw [pending_rest hs]
    simp [due, Scan.value?, Scan.rest, nextPhase]

/-- **One step**: the frame that is given out comes off what is due. -/
lemma due_next (h : f.next b = .ok g) : f.frame.toList.length + g.due ≤ f.due + b.length := by
  have hle := due_build h
  have hdue : f.due = f.frame.toList.length + f.buffer.length + f.nextPhase.credit := rfl
  rw [List.length_append] at hle
  omega

lemma length_walk_le (f : Framing) (bs : List Bytes) :
    (f.walk bs).1.length ≤ f.due + bs.flatten.length ∧
      ∀ g, (f.walk bs).2 = .ok g → (f.walk bs).1.length + g.due ≤ f.due + bs.flatten.length := by
  induction bs generalizing f with
  | nil =>
    refine ⟨Nat.zero_le _, fun g hg => ?_⟩
    cases hg
    simp [walk]
  | cons b bs ih =>
    rcases hn : f.next b with e | f'
    · have hframe : f.frame.toList.length ≤ f.due := by
        rw [due]
        omega
      refine ⟨?_, fun g hg => ?_⟩
      · simp only [walk, advance, hn, Run.andThen_error]
        omega
      · simp [walk, advance, hn] at hg
    · have hstep := due_next hn
      obtain ⟨hle, hend⟩ := ih f'
      simp only [walk, advance, hn, Run.andThen_ok, List.length_append, List.flatten_cons]
      refine ⟨by omega, fun g hg => ?_⟩
      have hdue := hend g hg
      omega

/-- Steps without bytes as long as there is a frame: so many of them, and then this. -/
inductive Settles : Framing → Nat → Run → Prop
  | waits {f : Framing} : f.frame = none → Settles f 0 ([], .ok f)
  | fails {f : Framing} {frame : Frame} {e : ParseError} :
      f.frame = some frame → f.next [] = .error e → Settles f 1 ([frame], .error e)
  | goes {f g : Framing} {frame : Frame} {n : Nat} {run : Run} :
      f.frame = some frame → f.next [] = .ok g → Settles g n run →
      Settles f (n + 1) (frame :: run.1, run.2)

lemma settles_drain (f : Framing) : ∃ n ≤ f.due, Settles f n f.drain := by
  induction hd : f.due using Nat.strongRecOn generalizing f with
  | _ d ih =>
    subst hd
    rcases hf : f.frame with _ | frame
    · rw [drain_of_none hf]
      exact ⟨0, Nat.zero_le _, .waits hf⟩
    · have hone : f.frame.toList.length = 1 := by rw [hf]; rfl
      rcases hn : f.next [] with e | g
      · have hdrain : f.drain = ([frame], .error e) := by
          rw [drain_of_some hf, advance, hf, hn]
          rfl
        rw [hdrain]
        refine ⟨1, ?_, .fails hf hn⟩
        rw [due]
        omega
      · have hstep := due_next hn
        rw [hone, List.length_nil] at hstep
        obtain ⟨n, hle, hsettles⟩ := ih g.due (by omega) g rfl
        rw [drain_of_next hf hn]
        exact ⟨n + 1, by omega, .goes hf hn hsettles⟩

lemma due_init (l : Lexicon) : (init l).due = 0 := rfl

end Framing

/-! ### Reads -/

/-- What a read of a source may bring, however much it takes: it ends a part that comes next, or
takes some bytes of it. -/
inductive Source.Gives : Source → Source.Read → Source → Prop
  | exhausted : Gives [] .ended []
  | close {s : Source} : Gives (.bytes [] :: s) .ended s
  | all {c : Bytes} {s : Source} : c ≠ [] → Gives (.bytes c :: s) (.data c) s
  | part {c rest : Bytes} {s : Source} : c ≠ [] → rest ≠ [] →
      Gives (.bytes (c ++ rest) :: s) (.data c) (.bytes rest :: s)
  | wait {s : Source} : Gives (.wait :: s) .blocked s
  | failure {e : TransportError} {s : Source} : Gives (.failure e :: s) (.failed e) s

namespace Source

variable {s s' : Source} {c : Read}

lemma gives_read (s : Source) : s.Gives s.read.1 s.read.2 := by
  match s with
  | [] => exact .exhausted
  | .bytes [] :: s => exact .close
  | .wait :: s => exact .wait
  | .failure e :: s => exact .failure
  | .bytes (x :: b) :: s => exact .all (by simp)

lemma gives_of_read (h : s.read = (c, s')) : s.Gives c s' := by
  have hgives := s.gives_read
  rwa [h] at hgives

lemma Gives.weight_lt (h : s.Gives c s') (hc : c = .blocked ∨ ∃ b, c = .data b) :
    s'.weight 1 < s.weight 1 := by
  cases h with
  | exhausted => simp at hc
  | close => simp at hc
  | failure => simp at hc
  | wait => simp [weight, unread]
  | all hne =>
    have hpos := List.length_pos_iff.2 hne
    simp only [weight, unread, List.length_cons]
    omega
  | part hne _ =>
    have hpos := List.length_pos_iff.2 hne
    simp only [weight, unread, List.length_cons, List.length_append]
    omega

end Source

namespace FrameReader

/-- A read that brings no answer: it has to be waited for, or what it brings makes no fault. -/
inductive Hears : FrameReader → FrameReader → Prop
  | wait {r : FrameReader} {f : Framing} {s : Source} :
      r.state = .live f → f.frame = none → r.source.Gives .blocked s → Hears r ⟨s, .live f⟩
  | data {r : FrameReader} {f g : Framing} {c : Bytes} {s : Source} :
      r.state = .live f → f.frame = none → r.source.Gives (.data c) s → f.next c = .ok g →
      Hears r ⟨s, .live g⟩

inductive Hearing : FrameReader → Nat → FrameReader → Prop
  | none {r : FrameReader} : Hearing r 0 r
  | more {r r' r'' : FrameReader} {n : Nat} :
      r.Hears r' → Hearing r' n r'' → Hearing r (n + 1) r''

/-- An answer, after a last read or without one. -/
inductive Tells : FrameReader → Pull × FrameReader → Prop
  | nothing {r : FrameReader} : r.state = .ended → Tells r (.ended 0, r)
  | fault {r : FrameReader} {e : ParseError} :
      r.state = .failed e → Tells r (.failed (.parse e), { r with state := .ended })
  | frame {r : FrameReader} {f : Framing} {frame : Frame} :
      r.state = .live f → f.frame = some frame →
      Tells r (.frame frame, { r with state := .of (f.next []) })
  | malformed {r : FrameReader} {f : Framing} {c : Bytes} {s : Source} {e : ParseError} :
      r.state = .live f → f.frame = none → r.source.Gives (.data c) s → f.next c = .error e →
      Tells r (.failed (.parse e), ⟨s, .ended⟩)
  | broken {r : FrameReader} {f : Framing} {s : Source} {e : TransportError} :
      r.state = .live f → f.frame = none → r.source.Gives (.failed e) s →
      Tells r (.failed (.transport e), ⟨s, .ended⟩)
  | closed {r : FrameReader} {f : Framing} {s : Source} :
      r.state = .live f → f.frame = none → r.source.Gives .ended s →
      Tells r (.ended f.buffer.length, ⟨s, .ended⟩)

variable {r r' r'' : FrameReader} {n m : Nat}

lemma Hears.weight_lt (h : r.Hears r') : r'.source.weight 1 < r.source.weight 1 := by
  cases h with
  | wait _ _ hgives => exact hgives.weight_lt (.inl rfl)
  | data _ _ hgives _ => exact hgives.weight_lt (.inr ⟨_, rfl⟩)

lemma Hearing.trans (h : r.Hearing n r') (h' : r'.Hearing m r'') : r.Hearing (n + m) r'' := by
  induction h with
  | none => rwa [Nat.zero_add]
  | more hears _ ih =>
    rw [Nat.add_right_comm]
    exact .more hears (ih h')

/-- **Reads without an answer** are no more than the source has to bring. -/
lemma Hearing.weight_le (h : r.Hearing n r') :
    n + r'.source.weight 1 ≤ r.source.weight 1 := by
  induction h with
  | none => exact Nat.le_of_eq (Nat.zero_add _)
  | more hears _ ih =>
    have hlt := hears.weight_lt
    omega

lemma tells_or_hears (r : FrameReader) : (∃ out, r.Tells out) ∨ ∃ r', r.Hears r' := by
  rcases hstate : r.state with f | e | _
  · rcases hf : f.frame with _ | frame
    · rcases hr : r.source.read with ⟨c | _ | e | _, s⟩
      · rcases hn : f.next c with e | g
        · exact .inl ⟨_, .malformed hstate hf (Source.gives_of_read hr) hn⟩
        · exact .inr ⟨_, .data hstate hf (Source.gives_of_read hr) hn⟩
      · exact .inr ⟨_, .wait hstate hf (Source.gives_of_read hr)⟩
      · exact .inl ⟨_, .broken hstate hf (Source.gives_of_read hr)⟩
      · exact .inl ⟨_, .closed hstate hf (Source.gives_of_read hr)⟩
    · exact .inl ⟨_, .frame hstate hf⟩
  · exact .inl ⟨_, .fault hstate⟩
  · exact .inl ⟨_, .nothing hstate⟩

lemma pull_comes (r : FrameReader) :
    ∃ n r', r.Hearing n r' ∧ (r.pull = (.blocked, r') ∨ r'.Tells r.pull) := by
  fun_induction pull r with
  | case1 r h => exact ⟨0, r, .none, .inr (.nothing h)⟩
  | case2 r e h => exact ⟨0, r, .none, .inr (.fault h)⟩
  | case3 r f h frame hf f' hn =>
    have htells := Tells.frame h hf
    rw [hn] at htells
    exact ⟨0, r, .none, .inr htells⟩
  | case4 r f h frame hf e hn =>
    have htells := Tells.frame h hf
    rw [hn] at htells
    exact ⟨0, r, .none, .inr htells⟩
  | case5 r f h hf s hr => exact ⟨0, r, .none, .inr (.closed h hf (Source.gives_of_read hr))⟩
  | case6 r f h hf s hr =>
    exact ⟨1, _, .more (.wait h hf (Source.gives_of_read hr)) .none, .inl rfl⟩
  | case7 r f h hf e s hr => exact ⟨0, r, .none, .inr (.broken h hf (Source.gives_of_read hr))⟩
  | case8 r f h hf c s hr e hn =>
    exact ⟨0, r, .none, .inr (.malformed h hf (Source.gives_of_read hr) hn)⟩
  | case9 r f h hf c s hr g hn _ ih =>
    obtain ⟨n, r', hhearing, hcomes⟩ := ih
    exact ⟨n + 1, r', .more (.data h hf (Source.gives_of_read hr) hn) hhearing, hcomes⟩

lemma next_comes (r : FrameReader) : ∃ n r', r.Hearing n r' ∧ r'.Tells r.next := by
  fun_induction next r with
  | case1 r r' hp _ ih =>
    obtain ⟨n, x, hhearing, hcomes⟩ := r.pull_comes
    rw [hp] at hcomes
    obtain rfl : r' = x := by
      rcases hcomes with heq | htells
      · exact (Prod.mk.inj heq).2
      · cases htells
    obtain ⟨m, y, hhearing', htells⟩ := ih
    exact ⟨n + m, y, hhearing.trans hhearing', htells⟩
  | case2 r hanswer =>
    obtain ⟨n, x, hhearing, hcomes⟩ := r.pull_comes
    exact ⟨n, x, hhearing, hcomes.resolve_left (hanswer x)⟩

end FrameReader

/-! ### The end -/

open Framing FrameReader

/-- **Draining ends.** Whatever the lexicon, the bytes and their chunks, there are no more frames
than bytes. So from any state that comes of this, stepping without bytes as long as there is a frame
comes to rest, and the frames are still no more than the bytes. And a reader has an answer after
finitely many reads: whatever the reads bring, there are no more of them without an answer than the
source has bytes and events, and behind them there is an answer or another read. -/
theorem draining_ends (l : Lexicon) :
    (∀ bs : List Bytes, ((init l).walk bs).1.length ≤ bs.flatten.length) ∧
    (∀ s : List Piece, ((init l).play s).1.length ≤ (total s).length) ∧
    (∀ bs fs f, (init l).walk bs = (fs, .ok f) →
      ∃ n, Settles f n f.drain ∧ fs.length + n ≤ bs.flatten.length) ∧
    ∀ r : FrameReader, (∃ n r', r.Hearing n r' ∧ r'.Tells r.next) ∧
      ∀ n r', r.Hearing n r' → n + r'.source.weight 1 ≤ r.source.weight 1 ∧
        ((∃ out, r'.Tells out) ∨ ∃ r'', r'.Hears r'') := by
  have hwalk : ∀ bs : List Bytes, ((init l).walk bs).1.length ≤ bs.flatten.length := by
    intro bs
    have hle := (length_walk_le (init l) bs).1
    rwa [due_init, Nat.zero_add] at hle
  refine ⟨hwalk, fun s => ?_, fun bs fs f h => ?_,
    fun r => ⟨r.next_comes, fun n r' h => ⟨h.weight_le, r'.tells_or_hears⟩⟩⟩
  · obtain ⟨bs, hbs, hplay⟩ := play_eq_walk (init l) s
    rw [hplay, ← hbs]
    exact hwalk bs
  · have hdue := (length_walk_le (init l) bs).2 f (by rw [h])
    rw [h, due_init, Nat.zero_add] at hdue
    dsimp only at hdue
    obtain ⟨n, hn, hsettles⟩ := settles_drain f
    exact ⟨n, hsettles, by omega⟩

/-- The line `A * HTTP/1.0` in two chunks. -/
def twoChunks : List Bytes :=
  [[65, 32, 42, 32, 72, 84, 84, 80], [47, 49, 46, 48, 13, 10]]

theorem draining_ends_twoChunks :
    ∃ f n, (init (.uniform 9)).walk twoChunks = ([], .ok f) ∧ f.frame.isSome ∧
      Settles f n f.drain ∧ n ≤ 14 := by
  have hwalk : (init (.uniform 9)).walk twoChunks =
      ([], .ok ⟨.uniform 9, .requestLine, [],
        some (.requestLine ⟨.custom ⟨['A'], by decide, by decide⟩, .asterisk, .http10⟩)⟩) := rfl
  obtain ⟨n, hsettles, hle⟩ := (draining_ends (.uniform 9)).2.2.1 _ _ _ hwalk
  rw [List.length_nil, Nat.zero_add] at hle
  exact ⟨_, n, hwalk, rfl, hsettles, hle⟩

end Http1
