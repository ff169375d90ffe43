import Http1.Connection
import Http1.Proofs.Delivery
import Http1.Proofs.Sent

/-!
Receiving the head of a request.

A connection reads frames into an assembly until its request is released. What it comes to is
told by the reading of all bytes before it: the request that comes first, and the reader in front
of its entity or of the next request; or the end, if no request is complete.
-/

namespace Http1

open Framing (reading)

namespace Assembly

/-- An assembly in the head of a request, of which so much has come. -/
inductive Heads (k : Nat) : Phase → Assembly → Draft → Prop where
  | line : Heads k .requestLine (.create k) .empty
  | first (line : RequestLine) :
      Heads k .header ⟨k, some line, [], none, false⟩ ⟨some line, [], []⟩
  | more (line : RequestLine) (hs : List Header) :
      Heads k (.headerOrEnd hs) ⟨k, some line, hs, none, false⟩ ⟨some line, hs, []⟩

/-- What becomes of a frame in a head: it is taken, or it releases the request without an entity,
or with one. -/
inductive Takes (k : Nat) (p : Phase) (a : Assembly) (d : Draft) (f : Frame) : Prop where
  | accepted (a' : Assembly) : a.push f = (.accepted, a') → d.sent? f = none →
      Heads k (p.next f) a' (d.add f) → Takes k p a d f
  | bare (line : RequestLine) (hs : List Header) (a' : Assembly) :
      a.push f = (.released ⟨line, hs, .empty⟩, a') → a'.entity = none → a'.done = true →
      d.sent? f = some ⟨line, hs, []⟩ → d.add f = .empty → p.next f = .requestLine →
      Takes k p a d f
  | streaming (line : RequestLine) (hs : List Header) (n : Nat) : 0 < n →
      a.push f = (.released ⟨line, hs, .streaming (.create n k)⟩, .opened k n) →
      d.sent? f = none → d.add f = ⟨some line, hs, []⟩ → p.next f = .outstanding n →
      Takes k p a d f

variable {k : Nat} {p : Phase} {a : Assembly} {d : Draft} {f : Frame}

lemma Heads.takes (h : Heads k p a d) (hf : p.Emits f) : Takes k p a d f := by
  cases h with
  | line =>
    cases f with
    | requestLine line => exact .accepted ⟨k, some line, [], none, false⟩ rfl rfl (.first line)
    | _ => exact hf.elim
  | first line =>
    cases f with
    | header x => exact .accepted ⟨k, some line, [x], none, false⟩ rfl rfl (.more line [x])
    | _ => exact hf.elim
  | more line hs =>
    cases f with
    | header x =>
      exact .accepted ⟨k, some line, hs ++ [x], none, false⟩ rfl rfl (.more line (hs ++ [x]))
    | _ =>
      have hend : _ = Phase.endOfHead hs := hf
      rcases Phase.endOfHead_eq hs with ⟨he, -⟩ | ⟨n, hn, he, -⟩ <;> rw [hend, he]
      · exact .bare line hs ⟨k, none, [], none, true⟩ rfl rfl rfl rfl rfl rfl
      · exact .streaming line hs n hn rfl rfl rfl rfl

end Assembly

/-- The bytes do not end within an entity. -/
def Connection.Outside (run : Framing.Run) : Prop :=
  ∀ f, run.2 = .ok f → ∀ n h, f.phase ≠ .entity n h

namespace Session

open Connection (Outside)

/-- From a draft on, a run completes these requests first, and then goes on as another run does
from another draft. -/
structure Continues (run : Framing.Run) (d : Draft) (ms : List Sent) (run' : Framing.Run)
    (d' : Draft) : Prop where
  gather : d.gather run.1 = ms ++ d'.gather run'.1
  after : d.after run.1 = d'.after run'.1
  ends : run.2 = run'.2

lemma Continues.trans {run run' run'' : Framing.Run} {d d' d'' : Draft} {ms ms' : List Sent}
    (h : Continues run d ms run' d') (h' : Continues run' d' ms' run'' d'') :
    Continues run d (ms ++ ms') run'' d'' :=
  ⟨by rw [h.gather, h'.gather, List.append_assoc], h.after.trans h'.after, h.ends.trans h'.ends⟩

lemma continues_takes {l : Lexicon} {p : Phase} {b b' : Bytes} {f : Frame} (h : p.Takes l b f b')
    (d : Draft) :
    Continues (reading l p b) d (d.sent? f).toList (reading l (p.next f) b') (d.add f) := by
  rw [Framing.reading_takes h]
  exact ⟨by rw [Framing.Run.glue, Draft.gather_glue, Draft.gather], Draft.after_glue d f _, rfl⟩

/-- What receiving comes to, before bytes that read so, when so much of a request has come. -/
inductive Yields (l : Lexicon) (k : Nat) (fate : Option TransportError) (run : Framing.Run)
    (d : Draft) : Received → FrameReader → Prop where
  | bare {line : RequestLine} {hs : List Header} {b : Bytes} {a : Assembly} {r : FrameReader} :
      a.entity = none → a.done = true → r.Stands l .requestLine b fate →
      Continues run d [⟨line, hs, []⟩] (reading l .requestLine b) .empty →
      Yields l k fate run d (.request ⟨line, hs, .empty⟩ a) r
  | streaming {line : RequestLine} {hs : List Header} {n : Nat} {b : Bytes} {r : FrameReader} :
      0 < n → r.Stands l (.outstanding n) b fate →
      Continues run d [] (reading l (.outstanding n) b) ⟨some line, hs, []⟩ →
      Yields l k fate run d (.request ⟨line, hs, .streaming (.create n k)⟩ (.opened k n)) r
  | malformed {e : ParseError} {r : FrameReader} :
      d.gather run.1 = [] → run.2 = .error e → Yields l k fate run d (.failed (.parse e)) r
  | broken {e : TransportError} {f : Framing} {r : FrameReader} :
      fate = some e → d.gather run.1 = [] → run.2 = .ok f → Outside run →
      Yields l k fate run d (.failed (.transport e)) r
  | ended {n : Nat} {f : Framing} {r : FrameReader} :
      fate = none → d.gather run.1 = [] → run.2 = .ok f → Outside run →
      Yields l k fate run d (.ended n) r

/-- What receiving comes to depends on what is gathered and on the end. -/
lemma Yields.congr {l : Lexicon} {k : Nat} {fate : Option TransportError} {run run' : Framing.Run}
    {d d' : Draft} {q : Received} {r : FrameReader} (h : Yields l k fate run' d' q r)
    (hc : Continues run d [] run' d') : Yields l k fate run d q r := by
  have hgather : d.gather run.1 = d'.gather run'.1 := hc.gather
  have outside : Outside run' → Outside run := fun hout f hf => hout f (hc.ends.symm.trans hf)
  cases h with
  | bare he hd hs h => exact .bare he hd hs (hc.trans h)
  | streaming hn hs h => exact .streaming hn hs (hc.trans h)
  | malformed h1 h2 => exact .malformed (hgather.trans h1) (hc.ends.trans h2)
  | broken hf h1 h2 h3 => exact .broken hf (hgather.trans h1) (hc.ends.trans h2) (outside h3)
  | ended hf h1 h2 h3 => exact .ended hf (hgather.trans h1) (hc.ends.trans h2) (outside h3)

lemma outside_of_heads {l : Lexicon} {k : Nat} {p : Phase} {b : Bytes} {d : Draft} {a : Assembly}
    (ha : a.Heads k p d) : Outside ([], .ok ⟨l, p, b, none⟩) := by
  intro f hf n h hphase
  cases hf
  cases ha <;> simp at hphase

/-! ### Asking until a request is released -/

/-- What receiving comes to, question by question. -/
inductive Receives : FrameReader → Assembly → Received → FrameReader → Prop where
  | waits {r r' r'' : FrameReader} {a : Assembly} {q : Received} :
      r.pull = (.blocked, r') → Receives r' a q r'' → Receives r a q r''
  | takes {r r' r'' : FrameReader} {f : Frame} {a a' : Assembly} {p : Assembly.Pushed}
      {q : Received} :
      r.pull = (.frame f, r') → a.push f = (p, a') → (∀ q, p ≠ .released q) → p ≠ .refused →
      Receives r' a' q r'' → Receives r a q r''
  | released {r r' : FrameReader} {f : Frame} {a a' : Assembly} {q : Request} :
      r.pull = (.frame f, r') → a.push f = (.released q, a') → Receives r a (.request q a') r'
  | refused {r r' : FrameReader} {f : Frame} {a a' : Assembly} :
      r.pull = (.frame f, r') → a.push f = (.refused, a') →
      Receives r a (.failed .unexpectedFrame) r'
  | failed {r r' : FrameReader} {a : Assembly} {e : ConnectionError} :
      r.pull = (.failed e, r') → Receives r a (.failed e) r'
  | ended {r r' : FrameReader} {a : Assembly} {n : Nat} :
      r.pull = (.ended n, r') → Receives r a (.ended n) r'

lemma Receives.induction {P : FrameReader → Prop} {r r' : FrameReader} {a : Assembly} {q : Received}
    (hpull : ∀ r, P r → P r.pull.2) (h : Receives r a q r') (hr : P r) : P r' := by
  induction h with
  | waits h _ ih => exact ih (by simpa [h] using hpull _ hr)
  | takes h _ _ _ _ ih => exact ih (by simpa [h] using hpull _ hr)
  | released h => simpa [h] using hpull _ hr
  | refused h => simpa [h] using hpull _ hr
  | failed h => simpa [h] using hpull _ hr
  | ended h => simpa [h] using hpull _ hr

lemma receive_receives (r : FrameReader) (a : Assembly) :
    Receives r a (receive r a).1 (receive r a).2 := by
  fun_induction receive r a with
  | case1 r a r' h hlt ih => exact .waits h ih
  | case2 r a f r' h hlt q a' hp => exact .released h hp
  | case3 r a f r' h hlt a' hp => exact .refused h hp
  | case4 r a f r' h hlt q a' hrel href hp ih => exact .takes h hp hrel href ih
  | case5 r a e r' h => exact .failed h
  | case6 r a n r' h => exact .ended h

lemma receive_of_receives {r r' : FrameReader} {a : Assembly} {q : Received}
    (h : Receives r a q r') : receive r a = (q, r') := by
  induction h with
  | waits h _ ih =>
    rw [receive]
    split <;> rename_i hp <;> rw [h] at hp <;> cases hp
    exact ih
  | takes h hp hrel href _ ih =>
    rw [receive]
    split <;> rename_i hd <;> rw [h] at hd <;> cases hd
    dsimp only
    rw [hp]
    split <;> rename_i hpushed <;> cases hpushed
    · exact absurd rfl (hrel _)
    · exact absurd rfl href
    · exact ih
  | released h hp =>
    rw [receive]
    split <;> rename_i hd <;> rw [h] at hd <;> cases hd
    dsimp only
    rw [hp]
  | refused h hp =>
    rw [receive]
    split <;> rename_i hd <;> rw [h] at hd <;> cases hd
    dsimp only
    rw [hp]
  | failed h =>
    rw [receive]
    split <;> rename_i hd <;> rw [h] at hd <;> cases hd
    rfl
  | ended h =>
    rw [receive]
    split <;> rename_i hd <;> rw [h] at hd <;> cases hd
    rfl

/-- **Receiving** goes by what is before the reader. -/
theorem Receives.yields {l : Lexicon} {k : Nat} {fate : Option TransportError} {p : Phase}
    {b : Bytes} {d : Draft} {r r' : FrameReader} {a : Assembly} {q : Received}
    (h : Receives r a q r') (hr : r.Stands l p b fate) (ha : a.Heads k p d) :
    Yields l k fate (reading l p b) d q r' := by
  have answered : ∀ {p b q} {r r' : FrameReader}, r.Stands l p b fate → r.pull = (q, r') →
      FrameReader.Answers l p b fate q r' := by
    intro p b q r r' hr h
    have hans := hr.answers
    rwa [h] at hans
  induction h generalizing p b d with
  | waits h _ ih =>
    cases answered hr h with
    | blocked hr' => exact ih hr' ha
  | takes h hp hrel href _ ih =>
    cases answered hr h with
    | frame htakes hstands =>
      have hc := continues_takes htakes d
      cases ha.takes htakes.emits with
      | accepted a'' hpush hsent hheads =>
        obtain ⟨rfl, rfl⟩ := Prod.mk.inj (hp.symm.trans hpush)
        rw [hsent] at hc
        exact (ih hstands hheads).congr hc
      | bare line hs a'' hpush => exact (hrel _ (Prod.mk.inj (hp.symm.trans hpush)).1).elim
      | streaming line hs n hn hpush => exact (hrel _ (Prod.mk.inj (hp.symm.trans hpush)).1).elim
  | @released _ _ _ _ a' q h hp =>
    cases answered hr h with
    | frame htakes hstands =>
      have hc := continues_takes htakes d
      cases ha.takes htakes.emits with
      | accepted a'' hpush => simp [hp] at hpush
      | bare line hs a'' hpush he hd hsent hadd hnext =>
        obtain ⟨rfl, rfl⟩ : q = ⟨line, hs, .empty⟩ ∧ a' = a'' := by simpa [hp] using hpush
        rw [hsent, hadd, hnext] at hc
        exact .bare he hd (hnext ▸ hstands) hc
      | streaming line hs n hn hpush hsent hadd hnext =>
        obtain ⟨rfl, rfl⟩ : q = ⟨line, hs, .streaming (.create n k)⟩ ∧ a' = .opened k n := by
          simpa [hp] using hpush
        rw [hsent, hadd, hnext] at hc
        exact .streaming hn (hnext ▸ hstands) hc
  | refused h hp =>
    cases answered hr h with
    | frame htakes hstands =>
      cases ha.takes htakes.emits with
      | accepted a'' hpush => simp [hp] at hpush
      | bare line hs a'' hpush => simp [hp] at hpush
      | streaming line hs n hn hpush => simp [hp] at hpush
  | failed h =>
    cases answered hr h with
    | malformed hs _ =>
      have hread := Framing.reading_error hs
      exact .malformed (by rw [hread]; rfl) (by rw [hread])
    | broken hs hf _ =>
      have hread := Framing.reading_pending hs
      exact .broken hf (by rw [hread]; rfl) (by rw [hread]) (hread ▸ outside_of_heads ha)
  | ended h =>
    cases answered hr h with
    | ended hs hf _ =>
      have hread := Framing.reading_pending hs
      exact .ended hf (by rw [hread]; rfl) (by rw [hread]) (hread ▸ outside_of_heads ha)

lemma receive_yields {l : Lexicon} {k : Nat} {fate : Option TransportError} {p : Phase} {b : Bytes}
    {d : Draft} {r : FrameReader} {a : Assembly} (hr : r.Stands l p b fate) (ha : a.Heads k p d) :
    Yields l k fate (reading l p b) d (receive r a).1 (receive r a).2 :=
  (receive_receives r a).yields hr ha

end Session

end Http1
