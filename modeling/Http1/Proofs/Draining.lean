import Http1.Proofs.Serializing

/-!
A receiver beside the sender of its channel.

The two take turns in any order: the sender of an entity sends chunks until it leaves, and the
receiver looks until it has found an end. Three ends are told apart: a clean one, one that comes too
early, and a last word of the sender. Main statement: a clean end has brought all that was sent,
chunk for chunk, and so no less than the declared length. It brings more if more was sent: nothing
holds back what comes behind the declared length, and the count of what is missing stops at zero.
-/

namespace Http1

open Channel (create chunks)

/-! ### Ends -/

/-- How an entity of `n` bytes ends, of which this was sent and that received. -/
inductive Ends (n : Nat) (sent : List (Except EntityError Bytes)) (got : List Bytes) :
    Option EntityError → Prop
  | clean : sent = got.map .ok → n ≤ got.flatten.length → Ends n sent got none
  | short : sent = got.map .ok → got.flatten.length < n →
      Ends n sent got (some (.truncated n got.flatten.length))
  | failed {why : EntityError} {later : List (Except EntityError Bytes)} :
      sent = got.map .ok ++ .error why :: later → Ends n sent got (some why)

namespace Channel

variable {c : Channel} {sent : List (Except EntityError Bytes)} {n k : Nat}

@[simp] lemma chunks_ok (cs : List Bytes) : chunks (cs.map .ok) = cs := by
  simpa [chunks] using chunks_ok_append cs []

lemma eq_map_chunks (h : failure? sent = none) : sent = (chunks sent).map .ok := by
  induction sent with
  | nil => rfl
  | cons item q ih =>
    cases item with
    | ok chunk => rw [chunks, List.map_cons, ← ih h]
    | error e => cases h

lemma whole_of_verdict (h : (create n k).verdict sent = none) :
    sent = (chunks sent).map .ok ∧ n ≤ (chunks sent).flatten.length := by
  rcases hf : failure? sent with _ | e
  · have hsent := eq_map_chunks hf
    obtain ⟨-, hverdict, -⟩ := create_brings n k (chunks sent)
    rw [← hsent, h] at hverdict
    refine ⟨hsent, Nat.le_of_not_lt fun hlt => ?_⟩
    rw [if_pos hlt] at hverdict
    cases hverdict
  · simp [verdict, hf, create] at h

lemma Deaf.on (h : c.Deaf) (a : Act) : (c.on a).Deaf := by
  cases a with
  | send chunk =>
    rw [on_send_of_not_admits h.not_admits]
    exact h
  | abort e =>
    simp only [Channel.on, abort_of_not_admits h.not_admits]
    exact .inl rfl
  | hangUp => exact .inl rfl

lemma receiving_poll_of_error {e : EntityError} {q : List (Except EntityError Bytes)}
    (hf : c.finished = false) (hq : c.queue = .error e :: q) : c.poll.2.receiving = false := by
  unfold poll
  rw [if_neg (by simp [hf])]
  split <;> rename_i hq' <;> rw [hq] at hq' <;> simp at hq'

/-- Nothing goes into a channel whose receiver has found the end. -/
lemma closes_poll (hf : c.finished = false) (hchunk : ∀ b, c.poll.1 ≠ .chunk b)
    (hpending : c.poll.1 ≠ .pending) : c.poll.2.finished = true ∧ c.poll.2.Deaf := by
  rcases hq : c.queue with _ | ⟨e | chunk, q⟩
  · rcases hs : c.sending with _ | _
    · have hdeaf : c.poll.2.Deaf := .inl (c.sending_poll.trans hs)
      by_cases hr : c.remaining = 0
      · exact ⟨congrArg (·.2.finished) (poll_of_whole hf hq hs hr), hdeaf⟩
      · exact ⟨(poll_of_short hf hq hs hr).2, hdeaf⟩
    · exact absurd (by rw [poll_of_sending hf hq hs]) hpending
  · exact ⟨(poll_of_error hf hq).2, .inr (receiving_poll_of_error hf hq)⟩
  · exact absurd (poll_of_chunk hf hq).1 (hchunk chunk)

/-- **A look** brings the next chunk, or the end that all that was sent comes to. -/
lemma Ledger.look {got : List Bytes} (h : (create n k).Ledger sent got c) :
    match c.poll.1 with
    | .chunk b => (create n k).Ledger sent (got ++ [b]) c.poll.2
    | .failed e => Ends n sent got (some e)
    | .ended => Ends n sent got none
    | .pending => c.poll.2 = c := by
  have hf : c.finished = false := h.finished
  have hsent := h.sent
  have hlength : c.length = n := h.length
  have hremaining : c.remaining = n - got.flatten.length := h.remaining
  rcases hq : c.queue with _ | ⟨e | chunk, q⟩
  · -- nothing waits, so that it is the sender who decides
    rw [hq, List.append_nil] at hsent
    rcases hs : c.sending with _ | _
    · by_cases hr : c.remaining = 0
      · rw [poll_of_whole hf hq hs hr]
        exact .clean hsent (by omega)
      · obtain ⟨hp, -⟩ := poll_of_short hf hq hs hr
        have hcount : c.length - c.remaining = got.flatten.length := by omega
        rw [hp, hcount, hlength]
        exact .short hsent (by omega)
    · rw [poll_of_sending hf hq hs]
  · rw [(poll_of_error hf hq).1]
    rw [hq] at hsent
    exact .failed hsent
  · have hchunk := (poll_of_chunk hf hq).1
    have hpoll : c.poll = (.chunk chunk, c.poll.2) := by rw [← hchunk]
    have hnext := h.poll hpoll
    rwa [hchunk]

end Channel

/-! ### Turns -/

structure Draining where
  channel : Channel
  /-- All that has gone into the channel. -/
  sent : List (Except EntityError Bytes)
  /-- The chunks that have been received. -/
  got : List Bytes
  /-- The end that the receiver has found, with its error if there is one. -/
  ending : Option (Option EntityError)

namespace Draining

inductive Turn where
  | sender (a : Channel.Act)
  | receiver

def start (n k : Nat) : Draining := ⟨create n k, [], [], none⟩

/-- The receiver looks; what it finds after the end counts no more. -/
def look (d : Draining) : Draining :=
  let d' := { d with channel := d.channel.poll.2 }
  match d.channel.poll.1 with
  | .chunk b => { d' with got := d.got ++ [b] }
  | .failed e => { d' with ending := d.ending.or (some (some e)) }
  | .ended => { d' with ending := d.ending.or (some none) }
  | .pending => d'

def on (d : Draining) : Turn → Draining
  | .sender a => { d with channel := d.channel.on a, sent := d.sent ++ d.channel.puts a }
  | .receiver => d.look

def run (d : Draining) (turns : List Turn) : Draining := turns.foldl on d

def looks (d : Draining) (m : Nat) : Draining := d.run (.replicate m .receiver)

variable {n k m : Nat} {d : Draining} {turns : List Turn}

lemma looks_succ (d : Draining) (m : Nat) : d.looks (m + 1) = d.look.looks m := rfl

/-- How it stands with an entity of `n` bytes in a channel for `k` chunks. -/
inductive Stands (n k : Nat) (d : Draining) : Prop
  | underway : d.ending = none → (create n k).Ledger d.sent d.got d.channel → Stands n k d
  | ended {e : Option EntityError} : d.ending = some e → Ends n d.sent d.got e →
      d.channel.finished = true → d.channel.Deaf → Stands n k d

lemma stands_start (n k : Nat) : (start n k).Stands n k :=
  .underway rfl (create n k).ledger_start

namespace Stands

lemma sender (h : d.Stands n k) (a : Channel.Act) : (d.on (.sender a)).Stands n k := by
  cases h with
  | underway he h => exact .underway he (h.on a)
  | ended he hends hf hdeaf =>
    refine .ended he ?_ ((d.channel.on_keeps a).2.2.2.trans hf) (hdeaf.on a)
    simpa [Draining.on, Channel.puts_of_deaf hdeaf] using hends

lemma look_of_ending (h : d.Stands n k) {e : Option EntityError} (he : d.ending = some e) :
    d.look = d := by
  cases h with
  | underway hnone => simp [he] at hnone
  | ended _ _ hf _ =>
    have hsame : d.ending.or (some none) = d.ending := by rw [he]; rfl
    simp only [Draining.look, Channel.poll_of_finished hf, hsame]

lemma look (h : d.Stands n k) : d.look.Stands n k := by
  cases h with
  | ended he hends hf hdeaf =>
    have h : d.Stands n k := .ended he hends hf hdeaf
    rw [h.look_of_ending he]
    exact h
  | underway he h =>
    have hlook := h.look
    have hcloses := Channel.closes_poll (c := d.channel) h.finished
    rw [Draining.look]
    cases hp : d.channel.poll.1 with rw [hp] at hlook hcloses
    | chunk b => exact .underway he hlook
    | failed e =>
      obtain ⟨hf, hdeaf⟩ := hcloses (by simp) (by simp)
      exact .ended (by rw [he]; rfl) hlook hf hdeaf
    | ended =>
      obtain ⟨hf, hdeaf⟩ := hcloses (by simp) (by simp)
      exact .ended (by rw [he]; rfl) hlook hf hdeaf
    | pending =>
      have hsame : { d with channel := d.channel.poll.2 } = d := by rw [hlook]
      dsimp only
      rw [hsame]
      exact .underway he h

lemma run (h : d.Stands n k) (turns : List Turn) : (d.run turns).Stands n k := by
  induction turns generalizing d with
  | nil => exact h
  | cons turn turns ih =>
    cases turn with
    | sender a => exact ih (h.sender a)
    | receiver => exact ih h.look

lemma ends (h : d.Stands n k) {e : Option EntityError} (he : d.ending = some e) :
    Ends n d.sent d.got e := by
  cases h with
  | underway hnone => simp [he] at hnone
  | ended he' hends =>
    obtain rfl : e = _ := Option.some.inj (he.symm.trans he')
    exact hends

end Stands

/-! ### Coming to an end -/

lemma look_keeps (d : Draining) :
    d.look.sent = d.sent ∧ d.look.channel.sending = d.channel.sending ∧
      (d.ending.isSome → d.look.ending.isSome) := by
  have hsending := d.channel.sending_poll
  rw [look]
  cases d.channel.poll.1 with
  | chunk b => exact ⟨rfl, hsending, id⟩
  | failed e => exact ⟨rfl, hsending, fun _ => by simp⟩
  | ended => exact ⟨rfl, hsending, fun _ => by simp⟩
  | pending => exact ⟨rfl, hsending, id⟩

lemma look_lowers (hs : d.channel.sending = false) :
    d.look.ending.isSome ∨ d.look.channel.queue.length < d.channel.queue.length := by
  rw [look]
  cases hp : d.channel.poll.1 with
  | chunk b => exact .inr (Channel.length_poll_lt hp)
  | failed e => exact .inl (by simp)
  | ended => exact .inl (by simp)
  | pending =>
    have hsending := Channel.sending_of_pending hp
    simp [hs] at hsending

lemma sent_looks (d : Draining) (m : Nat) : (d.looks m).sent = d.sent := by
  induction m generalizing d with
  | zero => rfl
  | succ m ih => rw [looks_succ, ih, d.look_keeps.1]

lemma looks_withSent (d : Draining) (sent : List (Except EntityError Bytes)) (m : Nat) :
    { d with sent := sent }.looks m = { d.looks m with sent := sent } := by
  induction m generalizing d with
  | zero => rfl
  | succ m ih =>
    have hlook : { d with sent := sent }.look = { d.look with sent := sent } := by
      rw [look, look]
      cases d.channel.poll.1 <;> rfl
    rw [looks_succ, looks_succ, hlook, ih]

lemma isSome_looks (hs : d.channel.sending = false)
    (hm : d.ending.isSome ∨ d.channel.queue.length < m) : (d.looks m).ending.isSome := by
  induction m generalizing d with
  | zero => exact hm.resolve_right (by simp)
  | succ m ih =>
    obtain ⟨-, hsending, hending⟩ := d.look_keeps
    rw [looks_succ]
    refine ih (hsending.trans hs) ?_
    rcases hm with hsome | hlt
    · exact .inl (hending hsome)
    · exact (look_lowers hs).imp_right fun hlower => by omega

/-- **A receiver who goes on looking** comes to the end once the sender has left. -/
lemma Stands.drained (h : d.Stands n k) (hs : d.channel.sending = false)
    (hm : d.channel.queue.length < m) :
    ∃ e, (d.looks m).ending = some e ∧ Ends n d.sent (d.looks m).got e := by
  obtain ⟨e, he⟩ := Option.isSome_iff_exists.1 (isSome_looks hs (.inr hm))
  have hends : Ends n (d.looks m).sent (d.looks m).got e := (h.run _).ends he
  exact ⟨e, he, d.sent_looks m ▸ hends⟩

/-! ### Collecting -/

def collected (d : Draining) : Option (Except EntityError Bytes) :=
  d.ending.map fun
    | none => .ok d.got.flatten
    | some e => .error e

/-- Who collects the rest of an entity looks until there is an end, or nothing to find for now. -/
lemma collectFrom_eq (h : d.ending = none) :
    ∃ m, d.channel.collectFrom d.got.reverse = (d.looks m).collected := by
  generalize hc : d.channel = c
  generalize hg : d.got.reverse = got
  fun_induction Channel.collectFrom got c generalizing d with
  | case1 got c chunk hp _ ih =>
    subst hc hg
    have hlook : d.look = { d with channel := d.channel.poll.2, got := d.got ++ [chunk] } := by
      simp only [look, hp]
    obtain ⟨m, hm⟩ := ih (d := d.look) (by rw [hlook]; exact h) (by rw [hlook])
      (by rw [hlook]; simp)
    exact ⟨m + 1, hm⟩
  | case2 got c e hp =>
    subst hc hg
    exact ⟨1, by simp [looks, run, on, look, hp, collected, h]⟩
  | case3 got c hp =>
    subst hc hg
    exact ⟨1, by simp [looks, run, on, look, hp, collected, h]⟩
  | case4 got c hp => exact ⟨0, by simp [looks, run, collected, h]⟩

/-! ### What a clean end has brought -/

/-- An entity of `n` bytes has come whole, in these chunks: they are all that was sent, and long
enough; if no more was sent than declared, they have just that length. -/
structure Whole (n : Nat) (sent : List (Except EntityError Bytes)) (cs : List Bytes) : Prop where
  all : sent = cs.map .ok
  enough : n ≤ cs.flatten.length
  exact : (chunks sent).flatten.length ≤ n → cs.flatten.length = n

lemma whole_of {sent : List (Except EntityError Bytes)} {cs : List Bytes}
    (hsent : sent = cs.map .ok) (hn : n ≤ cs.flatten.length) : Whole n sent cs where
  all := hsent
  enough := hn
  exact hle := by
    rw [hsent, Channel.chunks_ok] at hle
    omega

lemma Stands.whole (h : d.Stands n k) (he : d.ending = some none) : Whole n d.sent d.got := by
  cases h.ends he with
  | clean hsent hn => exact whole_of hsent hn

lemma Stands.length_eq (h : d.Stands n k) (he : d.ending = none) : d.channel.length = n := by
  cases h with
  | underway _ h => exact h.length
  | ended he' => simp [he] at he'

lemma Stands.collected_whole (h : d.Stands n k) (he : d.ending = none) {b : Bytes}
    (hb : d.channel.collectFrom d.got.reverse = some (.ok b)) :
    ∃ cs, Whole n d.sent cs ∧ b = cs.flatten := by
  obtain ⟨m, hm⟩ := collectFrom_eq he
  rw [hb, collected] at hm
  rcases hend : (d.looks m).ending with _ | _ | e <;> rw [hend] at hm
  · cases hm
  · have hwhole : Whole n (d.looks m).sent (d.looks m).got := (h.run _).whole hend
    rw [d.sent_looks m] at hwhole
    exact ⟨_, hwhole, Except.ok.inj (Option.some.inj hm)⟩
  · cases Option.some.inj hm

lemma written_whole {sink : Sink} {buffer : Bytes} {v : Version} {s : Status} {hs : List Header}
    {turns : List Transfer.Turn} {t : Transfer}
    (ht : (Transfer.start sink buffer v ⟨s, hs, .streaming (create n k)⟩).run turns = t)
    (hr : t.result = some (.ok ())) :
    ∃ cs, Whole n t.sent cs ∧
      t.output = sink.output ++ (buffer ++ Response.encodeHead v s hs) ++ cs.flatten := by
  have hstands := (Transfer.stands_start sink buffer v ⟨s, hs, .streaming (create n k)⟩).run turns
  rw [ht] at hstands
  rcases hstands.ended hr with ⟨why, hbroken⟩ | ⟨houtcome, hout, -⟩
  · cases hbroken
  · have hverdict : (create n k).verdict t.sent = none := by
      rcases hv : (create n k).verdict t.sent with _ | why
      · rfl
      · simp [Entity.outcome, hv] at houtcome
    obtain ⟨hsent, hn⟩ := Channel.whole_of_verdict hverdict
    exact ⟨_, whole_of hsent hn, hout⟩

/-- **An entity is no shorter than declared.** Whoever reads it, and however that goes along with
the sending, finds a clean end only behind all that was sent, if this comes to the declared length;
the same holds of the bytes that are collected, and of those that are written behind a head. If no
more was sent than declared, it is exactly that length. And who goes on after the sender has left
comes to an end, which is clean unless there is an error or too few bytes were sent. -/
theorem declared_length (n k : Nat) :
    (∀ turns : List Turn, let d := (start n k).run turns
      (d.ending = some none → Whole n d.sent d.got) ∧
      (d.channel.sending = false → ∀ m, d.channel.queue.length < m →
        ∃ e, (d.looks m).ending = some e ∧ Ends n d.sent (d.looks m).got e) ∧
      (d.ending = none → (Entity.streaming d.channel).length = n ∧
        ∀ b, d.channel.collectFrom d.got.reverse = some (.ok b) →
          ∃ cs, Whole n d.sent cs ∧ b = cs.flatten)) ∧
    ∀ (sink : Sink) (buffer : Bytes) (v : Version) (s : Status) (hs : List Header)
        (turns : List Transfer.Turn),
      let t := (Transfer.start sink buffer v ⟨s, hs, .streaming (create n k)⟩).run turns
      t.result = some (.ok ()) → ∃ cs, Whole n t.sent cs ∧
        t.output = sink.output ++ (buffer ++ Response.encodeHead v s hs) ++ cs.flatten := by
  refine ⟨fun turns => ?_, fun sink buffer v s hs turns => written_whole rfl⟩
  have hstands : ((start n k).run turns).Stands n k := (stands_start n k).run turns
  exact ⟨hstands.whole, fun hs m hm => hstands.drained hs hm,
    fun he => ⟨hstands.length_eq he, fun b => hstands.collected_whole he⟩⟩

/-- The bytes `ab` and `c` are sent for an entity that is said to have two; the receiver looks in
between. -/
def surplus : List Turn :=
  [.sender (.send [97, 98]), .receiver, .sender (.send [99]), .sender .hangUp, .receiver, .receiver]

def exactly : List Turn :=
  [.sender (.send [97]), .sender (.send [98]), .receiver, .sender (.send [98]), .sender .hangUp]

theorem declared_length_exactly :
    let d := (start 2 1).run exactly
    d.channel.sending = false ∧ d.ending = none ∧ d.sent = [[97], [98]].map .ok ∧
      ∃ e, (d.looks 2).ending = some e ∧ Ends 2 d.sent (d.looks 2).got e := by
  have hs : ((start 2 1).run exactly).channel.sending = false := rfl
  exact ⟨hs, rfl, rfl, ((declared_length 2 1).1 exactly).2.1 hs 2 (by decide)⟩

/-- What comes behind the declared length is received, collected and written like the rest. -/
theorem overlong_surplus :
    let d := (start 2 1).run surplus
    let r : Response := ⟨.ok, [.contentLength 2], .streaming (.ofChunks 2 [[97, 98], [99]] none)⟩
    let t := (Transfer.start (.ofBehaviour .willing) [] .http11 r).run
      (.replicate 10 (.writer .willing))
    d.ending = some none ∧ d.got = [[97, 98], [99]] ∧ d.channel.length = 2 ∧
      r.entity.length = 2 ∧ r.entity.collect = some (.ok [97, 98, 99]) ∧
      t.result = some (.ok ()) ∧
      t.output = Response.encodeHead .http11 .ok [.contentLength 2] ++ [97, 98, 99] := by
  refine ⟨rfl, rfl, rfl, rfl, ?_, ?_, ?_⟩
  · decide +kernel
  · decide +kernel
  · decide +kernel

end Draining

end Http1
