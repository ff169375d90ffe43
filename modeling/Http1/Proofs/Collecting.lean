import Http1.Proofs.Draining

/-!
Collecting a streamed entity.

Who collects an entity keeps what has come as it is cheapest: nothing yet, one chunk as it came, or
a copy of all the bytes once there is a second chunk. The sender works beside this, and the two take
turns in any order. Main statement: what is collected is the plain fold of what was sent, that is
the error that was left behind it, or else all the bytes, if there are enough of them. The counts of
the channel go with what has come, and behind the end there is nothing.
-/

namespace Http1

open Channel (create)

/-! ### What has been kept -/

/-- The chunks that have come: none, a single one as it came, or their bytes in a copy. -/
inductive Gathered where
  | nothing
  | single (chunk : Bytes)
  | copied (bytes : Bytes)

namespace Gathered

/-- Keeps one more chunk. Only the second one makes a copy of the first. -/
def add : Gathered → Bytes → Gathered
  | nothing, b => single b
  | single a, b => copied (a ++ b)
  | copied a, b => copied (a ++ b)

def bytes : Gathered → Bytes
  | nothing => []
  | single a => a
  | copied a => a

def pieces : Gathered → List Bytes
  | nothing => []
  | single a => [a]
  | copied a => [a]

def ofChunks (cs : List Bytes) : Gathered := cs.foldl add nothing

lemma bytes_add (g : Gathered) (b : Bytes) : (g.add b).bytes = g.bytes ++ b := by cases g <;> rfl

lemma flatten_pieces (g : Gathered) : g.pieces.flatten = g.bytes := by
  cases g <;> simp [pieces, bytes]

/-- No change of what is kept, and no empty chunk, loses a byte. -/
lemma bytes_ofChunks (cs : List Bytes) : (ofChunks cs).bytes = cs.flatten := by
  suffices ∀ g : Gathered, (cs.foldl add g).bytes = g.bytes ++ cs.flatten from this nothing
  induction cs with
  | nil => exact fun g => (List.append_nil _).symm
  | cons c cs ih =>
    intro g
    rw [List.foldl_cons, ih, bytes_add, List.append_assoc, List.flatten_cons]

lemma ofChunks_concat (cs : List Bytes) (b : Bytes) :
    ofChunks (cs ++ [b]) = (ofChunks cs).add b := by
  simp [ofChunks]

end Gathered

/-! ### Turns -/

/-- An entity that is collected beside its sender. -/
structure Collecting where
  channel : Channel
  /-- All that has gone into the channel. -/
  sent : List (Except EntityError Bytes)
  gathered : Gathered
  /-- What has come of it, once there is an end. -/
  result : Option (Except EntityError Bytes)

/-- **The plain fold** of an entity of `n` bytes: these chunks were sent, and maybe an error behind
them. -/
def plain (n : Nat) (cs : List Bytes) : Option EntityError → Except EntityError Bytes
  | some e => .error e
  | none =>
    if cs.flatten.length < n then .error (.truncated n cs.flatten.length) else .ok cs.flatten

namespace Collecting

open Draining (Turn)

def start (n k : Nat) : Collecting := ⟨create n k, [], .nothing, none⟩

def look (x : Collecting) : Collecting :=
  match x.result with
  | some _ => x
  | none =>
    let x' := { x with channel := x.channel.poll.2 }
    match x.channel.poll.1 with
    | .chunk b => { x' with gathered := x.gathered.add b }
    | .failed e => { x' with result := some (.error e) }
    | .ended => { x' with result := some (.ok x.gathered.bytes) }
    | .pending => x'

def on (x : Collecting) : Turn → Collecting
  | .sender a => { x with channel := x.channel.on a, sent := x.sent ++ x.channel.puts a }
  | .receiver => x.look

def run (x : Collecting) (turns : List Turn) : Collecting := turns.foldl on x

def looks (x : Collecting) (m : Nat) : Collecting := x.run (.replicate m .receiver)

/-- Who keeps the chunks apart knows what the collector knows. -/
def of (d : Draining) : Collecting := ⟨d.channel, d.sent, .ofChunks d.got, d.collected⟩

variable {n k : Nat} {d : Draining}

lemma of_look (h : d.Stands n k) : of d.look = (of d).look := by
  rcases he : d.ending with _ | e
  · have hresult : (of d).result = none := by simp [of, Draining.collected, he]
    rw [look, hresult, Draining.look]
    dsimp only [of]
    cases d.channel.poll.1 with
    | chunk b => simp [Draining.collected, he, Gathered.ofChunks_concat]
    | failed e => simp [Draining.collected, he]
    | ended => simp [Draining.collected, he, Gathered.bytes_ofChunks]
    | pending => simp [Draining.collected, he]
  · rw [h.look_of_ending he, look]
    simp [of, Draining.collected, he]

lemma of_run (h : d.Stands n k) (turns : List Turn) : of (d.run turns) = (of d).run turns := by
  induction turns generalizing d with
  | nil => rfl
  | cons turn turns ih =>
    cases turn with
    | sender a => exact ih (h.sender a)
    | receiver =>
      have hnext : of (d.look.run turns) = (of d.look).run turns := ih h.look
      rw [of_look h] at hnext
      exact hnext

end Collecting

/-! ### What was sent -/

namespace Channel

variable {c : Channel} {sent : List (Except EntityError Bytes)} {cs : List Bytes}
  {last : Option EntityError}

/-- The chunks `cs` went in, and behind them an error if there is one: the last word of a sender
who has left with it. -/
structure Said (c : Channel) (sent : List (Except EntityError Bytes)) (cs : List Bytes)
    (last : Option EntityError) : Prop where
  eq : sent = cs.map .ok ++ last.toList.map .error
  gone : last.isSome → c.sending = false

lemma puts_cases (c : Channel) (a : Act) :
    c.puts a = [] ∨ (∃ b, c.puts a = [.ok b]) ∨
      ∃ e, c.puts a = [.error e] ∧ (c.on a).sending = false := by
  by_cases h : c.Admits
  · cases a with
    | send b => exact .inr (.inl ⟨b, if_pos h⟩)
    | abort e =>
      exact .inr (.inr ⟨e, if_pos h, by simp only [Channel.on, abort_of_admits h, hangUp]⟩)
    | hangUp => exact .inl rfl
  · cases a with
    | send b => exact .inl (if_neg h)
    | abort e => exact .inl (if_neg h)
    | hangUp => exact .inl rfl

lemma Said.on (h : c.Said sent cs last) (a : Act) :
    ∃ cs last, (c.on a).Said (sent ++ c.puts a) cs last := by
  obtain ⟨heq, hgone⟩ := h
  cases last with
  | some e =>
    -- there is no one to do anything
    have hs := hgone rfl
    rw [on_of_gone hs, puts_of_deaf (.inl hs), List.append_nil]
    exact ⟨cs, some e, heq, hgone⟩
  | none =>
    rcases c.puts_cases a with hputs | ⟨b, hputs⟩ | ⟨e, hputs, hs⟩ <;> rw [hputs, heq]
    · exact ⟨cs, none, by simp, nofun⟩
    · exact ⟨cs ++ [b], none, by simp, nofun⟩
    · exact ⟨cs, some e, by simp, fun _ => hs⟩

lemma failure?_ok (cs : List Bytes) : failure? (cs.map .ok) = none := by
  simpa [Channel.failure?] using failure?_ok_append cs []

lemma Said.chunks (h : c.Said sent cs last) : chunks sent = cs := by
  rw [h.eq, chunks_ok_append]
  cases last <;> simp [Channel.chunks]

lemma Said.failure? (h : c.Said sent cs last) : failure? sent = last := by
  rw [h.eq, failure?_ok_append]
  cases last <;> rfl

lemma Said.eq_of_map {got : List Bytes} (h : c.Said sent cs last) (hsent : sent = got.map .ok) :
    cs = got ∧ last = none := by
  have hcs := h.chunks
  have hlast := h.failure?
  rw [hsent, chunks_ok] at hcs
  rw [hsent, failure?_ok] at hlast
  exact ⟨hcs.symm, hlast.symm⟩

lemma gone_of_end (hf : c.finished = false) (hlast : (failure? c.queue).isSome → c.sending = false)
    (hchunk : ∀ b, c.poll.1 ≠ .chunk b) (hpending : c.poll.1 ≠ .pending) : c.sending = false := by
  rcases hq : c.queue with _ | ⟨e | chunk, q⟩
  · rcases hs : c.sending with _ | _
    · rfl
    · exact absurd (by rw [poll_of_sending hf hq hs]) hpending
  · exact hlast (by rw [hq]; rfl)
  · exact absurd (poll_of_chunk hf hq).1 (hchunk chunk)

/-- The length stays, and a chunk that comes is counted off. -/
lemma poll_counts (c : Channel) :
    c.poll.2.length = c.length ∧
      c.poll.2.remaining =
        match c.poll.1 with
        | .chunk b => c.remaining - b.length
        | _ => c.remaining := by
  unfold poll
  split
  · exact ⟨rfl, rfl⟩
  · split
    · exact ⟨rfl, rfl⟩
    · exact ⟨rfl, rfl⟩
    · split
      · exact ⟨rfl, rfl⟩
      · split <;> exact ⟨rfl, rfl⟩

lemma collectFrom_congr {got got' : List Bytes} (h : got.reverse.flatten = got'.reverse.flatten)
    (c : Channel) : collectFrom got c = collectFrom got' c := by
  fun_induction collectFrom got c generalizing got' with
  | case1 got c chunk hp _ ih =>
    conv_rhs => unfold collectFrom
    split <;> rename_i hp' <;> rw [hp] at hp' <;> cases hp'
    exact ih (by simp [h])
  | case2 got c e hp =>
    unfold collectFrom
    split <;> rename_i hp' <;> rw [hp] at hp' <;> cases hp'
    rfl
  | case3 got c hp =>
    unfold collectFrom
    split <;> rename_i hp' <;> rw [hp] at hp' <;> cases hp'
    rw [h]
  | case4 got c hp =>
    unfold collectFrom
    split <;> rename_i hp' <;> rw [hp] at hp' <;> cases hp'

end Channel

namespace Draining

variable {n k : Nat} {d : Draining} {cs : List Bytes} {last : Option EntityError}

/-- The end that all that was sent comes to is the plain fold of it. -/
lemma collected_of_ends {e : Option EntityError} (he : d.ending = some e)
    (hends : Ends n d.sent d.got e) (hsaid : d.channel.Said d.sent cs last) :
    d.collected = some (plain n cs last) := by
  rw [collected, he]
  cases hends with
  | clean hsent hn =>
    obtain ⟨rfl, rfl⟩ := hsaid.eq_of_map hsent
    rw [plain, if_neg (Nat.not_lt_of_le hn)]
    rfl
  | short hsent hn =>
    obtain ⟨rfl, rfl⟩ := hsaid.eq_of_map hsent
    rw [plain, if_pos hn]
    rfl
  | @failed why later hsent =>
    have hlast := hsaid.failure?
    rw [hsent, Channel.failure?_ok_append] at hlast
    obtain rfl : some why = last := hlast
    rfl

/-- The sender has had a last word if there is one, and has left if there is an end. -/
structure Spoken (d : Draining) : Prop where
  said : ∃ cs last, d.channel.Said d.sent cs last
  gone : d.ending.isSome → d.channel.sending = false

lemma spoken_start (n k : Nat) : (start n k).Spoken := ⟨⟨[], none, rfl, nofun⟩, nofun⟩

namespace Spoken

lemma sender (h : d.Spoken) (a : Channel.Act) : (d.on (.sender a)).Spoken where
  said := by
    obtain ⟨cs, last, hsaid⟩ := h.said
    exact hsaid.on a
  gone hend := by
    have hs := h.gone hend
    exact (congrArg Channel.sending (Channel.on_of_gone hs a)).trans hs

lemma look (h : d.Spoken) (hstands : d.Stands n k) : d.look.Spoken := by
  obtain ⟨hsent, hsending, -⟩ := d.look_keeps
  obtain ⟨cs, last, hsaid⟩ := h.said
  refine ⟨⟨cs, last, hsent.trans hsaid.eq, fun hlast => hsending.trans (hsaid.gone hlast)⟩,
    fun hend => hsending.trans ?_⟩
  cases hstands with
  | ended he => exact h.gone (by rw [he]; rfl)
  | underway he hledger =>
    have hlast : (Channel.failure? d.channel.queue).isSome → d.channel.sending = false := by
      rw [← Channel.failure?_ok_append d.got, ← hledger.sent, hsaid.failure?]
      exact hsaid.gone
    refine Channel.gone_of_end hledger.finished hlast ?_ ?_
    · intro b hp
      simp [Draining.look, hp, he] at hend
    · intro hp
      simp [Draining.look, hp, he] at hend

lemma run (h : d.Spoken) (hstands : d.Stands n k) (turns : List Turn) : (d.run turns).Spoken := by
  induction turns generalizing d with
  | nil => exact h
  | cons turn turns ih =>
    cases turn with
    | sender a => exact ih (h.sender a) (hstands.sender a)
    | receiver => exact ih (h.look hstands) hstands.look

end Spoken

/-! ### The counts of the receiver -/

/-- What is missing of an entity of `n` bytes, by the chunks that have come. -/
structure Counted (n : Nat) (d : Draining) : Prop where
  length : d.channel.length = n
  remaining : d.channel.remaining = n - d.got.flatten.length

lemma counted_start (n k : Nat) : (start n k).Counted n := ⟨rfl, rfl⟩

lemma Counted.on (h : d.Counted n) (turn : Turn) : (d.on turn).Counted n := by
  cases turn with
  | sender a =>
    obtain ⟨-, hlength, hremaining, -⟩ := d.channel.on_keeps a
    exact ⟨hlength.trans h.length, hremaining.trans h.remaining⟩
  | receiver =>
    obtain ⟨hlength, hremaining⟩ := d.channel.poll_counts
    rw [h.length] at hlength
    rw [h.remaining] at hremaining
    simp only [Draining.on, Draining.look]
    cases hp : d.channel.poll.1 with rw [hp] at hremaining
    | chunk b => exact ⟨hlength, by simpa [Nat.sub_sub] using hremaining⟩
    | failed e => exact ⟨hlength, hremaining⟩
    | ended => exact ⟨hlength, hremaining⟩
    | pending => exact ⟨hlength, hremaining⟩

lemma Counted.run (h : d.Counted n) (turns : List Turn) : (d.run turns).Counted n := by
  induction turns generalizing d with
  | nil => exact h
  | cons turn turns ih => exact ih (h.on turn)

lemma got_run (d : Draining) (turns : List Turn) : d.got <+: (d.run turns).got := by
  induction turns generalizing d with
  | nil => exact List.prefix_refl _
  | cons turn turns ih =>
    refine List.IsPrefix.trans ?_ (ih _)
    cases turn with
    | sender a => exact List.prefix_refl _
    | receiver =>
      simp only [Draining.on, Draining.look]
      cases d.channel.poll.1 with
      | chunk b => exact List.prefix_append ..
      | _ => exact List.prefix_refl _

lemma remaining_run_le (h : d.Counted n) (turns : List Turn) :
    (d.run turns).channel.remaining ≤ d.channel.remaining := by
  obtain ⟨rest, hrest⟩ := d.got_run turns
  have hlen := congrArg (·.flatten.length) hrest
  simp only [List.flatten_append, List.length_append] at hlen
  rw [(h.run turns).remaining, h.remaining]
  omega

/-! ### Behind the end -/

lemma finished_run (hf : d.channel.finished = true) (turns : List Turn) :
    (d.run turns).channel.finished = true := by
  induction turns generalizing d with
  | nil => exact hf
  | cons turn turns ih =>
    refine ih ?_
    cases turn with
    | sender a => exact (d.channel.on_keeps a).2.2.2.trans hf
    | receiver => simpa [Draining.on, Draining.look, Channel.poll_of_finished hf] using hf

lemma finished_look
    (hend : d.channel.poll.1 = .ended ∨ ∃ e, d.channel.poll.1 = .failed e) :
    d.look.channel.finished = true := by
  have hpoll : d.channel.poll.2.finished = true := by
    rcases hf : d.channel.finished with _ | _
    · refine (Channel.closes_poll hf ?_ ?_).1
      · rcases hend with h | ⟨e, h⟩ <;> simp [h]
      · rcases hend with h | ⟨e, h⟩ <;> simp [h]
    · rw [Channel.poll_of_finished hf]
      exact hf
  rw [look]
  rcases hend with h | ⟨e, h⟩ <;> rw [h] <;> exact hpoll

/-- **Behind the end** there is nothing, whatever else is done. -/
lemma ended_forever (hend : d.channel.poll.1 = .ended ∨ ∃ e, d.channel.poll.1 = .failed e)
    (turns : List Turn) : ((d.on .receiver).run turns).channel.poll.1 = .ended := by
  have hf : (d.on .receiver).channel.finished = true := finished_look hend
  rw [Channel.poll_of_finished (finished_run hf turns)]

end Draining

/-! ### Collecting -/

namespace Channel

lemma isSome_collectFrom {c : Channel} (hs : c.sending = false) (got : List Bytes) :
    (collectFrom got c).isSome := by
  fun_induction collectFrom got c with
  | case1 got c chunk hp _ ih => exact ih (c.sending_poll.trans hs)
  | case2 got c e hp => rfl
  | case3 got c hp => rfl
  | case4 got c hp =>
    rw [sending_of_pending hp] at hs
    cases hs

end Channel

namespace Draining

variable {n k : Nat} {d : Draining} {cs : List Bytes} {last : Option EntityError}

lemma sending_looks (d : Draining) (m : Nat) :
    (d.looks m).channel.sending = d.channel.sending := by
  induction m generalizing d with
  | zero => rfl
  | succ m ih => rw [looks_succ, ih, d.look_keeps.2.1]

/-- To collect the rest at once comes to nothing as long as the sender is there, and else to the
plain fold. -/
lemma collectFrom_plain (h : d.Stands n k) (hspoken : d.Spoken)
    (hsaid : d.channel.Said d.sent cs last) (he : d.ending = none) :
    d.channel.collectFrom d.got.reverse =
      if d.channel.sending then none else some (plain n cs last) := by
  obtain ⟨m, hm⟩ := collectFrom_eq he
  have hsending := d.sending_looks m
  rcases hend : (d.looks m).ending with _ | e
  · -- there is no result, and so the sender is there
    have hnone : d.channel.collectFrom d.got.reverse = none := by
      rw [hm, collected, hend]
      rfl
    rcases hs : d.channel.sending with _ | _
    · have hsome := Channel.isSome_collectFrom hs d.got.reverse
      rw [hnone] at hsome
      cases hsome
    · exact hnone
  · have hgone := (hspoken.run h _).gone (by rw [show (d.run _).ending = _ from hend]; rfl)
    rw [if_neg (by simp [← hsending, looks, hgone]), hm]
    refine collected_of_ends hend ((h.run _).ends hend) ⟨?_, ?_⟩
    · exact (d.sent_looks m).trans hsaid.eq
    · exact fun hlast => hsending.trans (hsaid.gone hlast)

end Draining

namespace Collecting

open Draining (Turn)

lemma collectFrom_pieces (d : Draining) :
    (of d).channel.collectFrom (of d).gathered.pieces = d.channel.collectFrom d.got.reverse := by
  refine Channel.collectFrom_congr ?_ _
  have hpieces : (of d).gathered.pieces.reverse = (of d).gathered.pieces := by
    cases (of d).gathered <;> rfl
  rw [hpieces, Gathered.flatten_pieces, List.reverse_reverse]
  exact Gathered.bytes_ofChunks d.got

lemma eq_of_run (n k : Nat) (turns : List Turn) :
    (start n k).run turns = of ((Draining.start n k).run turns) :=
  (of_run (Draining.stands_start n k) turns).symm

/-- **To collect is to fold what was sent.** Whatever the length and the capacity, and however the
sender and the collector take their turns: a result is the plain fold of all that went into the
channel, and comes only when the sender has left; then who goes on looking has it, and so has who
collects the rest at once, which is all of the entity if nothing has been looked for yet. What is
missing is never more than the length, never grows, and is the length less what has come, as far as
that goes. And behind the end, clean or not, there is nothing for good. -/
theorem collect_eq_plain (n k : Nat) :
    (∀ turns : List Turn, let x := (start n k).run turns
      ∃ cs last, x.channel.Said x.sent cs last ∧
        (∀ r, x.result = some r → r = plain n cs last ∧ x.channel.sending = false) ∧
        (x.channel.sending = false → ∀ m, x.channel.queue.length < m →
          (x.looks m).result = some (plain n cs last)) ∧
        (x.result = none → x.channel.collectFrom x.gathered.pieces =
          if x.channel.sending then none else some (plain n cs last))) ∧
    ∀ turns : List Turn, let d := (Draining.start n k).run turns
      (d.channel.length = n ∧ d.channel.remaining ≤ d.channel.length) ∧
      (∀ more, (d.run more).channel.remaining ≤ d.channel.remaining) ∧
      (d.got.flatten.length ≤ n →
        d.channel.length - d.channel.remaining = d.got.flatten.length) ∧
      ((d.channel.poll.1 = .ended ∨ ∃ e, d.channel.poll.1 = .failed e) →
        ∀ more, ((d.on .receiver).run more).channel.poll.1 = .ended) := by
  constructor
  · intro turns
    have hstands := (Draining.stands_start n k).run turns
    have hspoken := (Draining.spoken_start n k).run (Draining.stands_start n k) turns
    rw [eq_of_run]
    generalize (Draining.start n k).run turns = d at hstands hspoken
    obtain ⟨cs, last, hsaid⟩ := hspoken.said
    refine ⟨cs, last, hsaid, ?_, ?_, ?_⟩
    · intro r hr
      obtain ⟨e, he, -⟩ := Option.map_eq_some_iff.1 hr
      have hplain := Draining.collected_of_ends he (hstands.ends he) hsaid
      exact ⟨Option.some.inj (hr.symm.trans hplain), hspoken.gone (by rw [he]; rfl)⟩
    · intro hs m hm
      obtain ⟨e, he, hends⟩ := hstands.drained hs hm
      have hlooks : (of d).looks m = of (d.looks m) := (of_run hstands _).symm
      rw [hlooks]
      refine Draining.collected_of_ends he (by rwa [d.sent_looks m]) ⟨?_, ?_⟩
      · exact (d.sent_looks m).trans hsaid.eq
      · exact fun hlast => (d.sending_looks m).trans (hsaid.gone hlast)
    · intro hr
      rw [collectFrom_pieces]
      exact Draining.collectFrom_plain hstands hspoken hsaid (Option.map_eq_none_iff.1 hr)
  · intro turns
    have hcounted := (Draining.counted_start n k).run turns
    refine ⟨⟨hcounted.length, Channel.remaining_le _⟩, Draining.remaining_run_le hcounted, ?_,
      Draining.ended_forever⟩
    intro hle
    rw [hcounted.length, hcounted.remaining]
    omega

/-- The bytes `a` and `b` are sent for an entity of three, in chunks of which one is empty; the last
has to wait for room. -/
def patchy : List Turn :=
  [.sender (.send [97]), .receiver, .sender (.send []), .sender (.send [98]), .receiver,
    .sender (.send [98]), .sender .hangUp]

theorem collect_eq_plain_patchy :
    let x := (start 3 1).run patchy
    x.channel.sending = false ∧ x.result = none ∧ x.sent = [[97], [], [98]].map .ok ∧
      (x.looks 2).result = some (.error (.truncated 3 2)) := by
  have hs : ((start 3 1).run patchy).channel.sending = false := rfl
  obtain ⟨cs, last, hsaid, -, hlooks, -⟩ := (collect_eq_plain 3 1).1 patchy
  refine ⟨hs, rfl, rfl, ?_⟩
  obtain rfl : [[97], [], [98]] = cs := hsaid.chunks
  obtain rfl : none = last := hsaid.failure?
  exact hlooks hs 2 (by decide)

end Collecting

end Http1
