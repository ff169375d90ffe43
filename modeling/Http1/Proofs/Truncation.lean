import Http1.Proofs.Language

/-!
An entity that is cut short.

The assembly counts the bytes that come, and the receiver of its stream those that are still to
come. Main statement: as long as nothing is refused and the receiver stays, the two counts agree.
Who drains the stream of an assembly that has gone gets all that was pushed and, if bytes are
missing, the error that the assembly foretold. If none are missing they part: the assembly, which
waits for the end, still foretells an error, and the receiver finds a clean end.
-/

namespace Http1

open Assembly (Pushed)
open Channel (create)

/-! ### The channel -/

namespace Channel

variable {n k m : Nat} {sent got : List Bytes} {c : Channel}

/-- The sender and the receiver of an entity of `n` bytes are there; the chunks that have gone into
their channel, and those that have come out. -/
structure Flows (n k : Nat) (sent got : List Bytes) (c : Channel) : Prop where
  ledger : (create n k).Ledger (sent.map .ok) got c
  sending : c.sending = true
  receiving : c.receiving = true

lemma flows_create (n k : Nat) : (create n k).Flows n k [] [] := ⟨ledger_start _, rfl, rfl⟩

namespace Flows

lemma offer (h : c.Flows n k sent got) (b : Bytes) :
    (∃ c', c.offer b = .sent c' ∧ c'.Flows n k (sent ++ [b]) got) ∨ c.offer b = .full := by
  obtain ⟨hledger, hs, hr⟩ := h
  have hthere : ¬ c.Deaf := not_deaf_iff.2 ⟨hs, hr⟩
  by_cases hroom : c.queue.length < c.capacity
  · refine .inl ⟨c.push (.ok b) hroom, offer_of_admits ⟨hthere, hroom⟩ b, ?_, hs, hr⟩
    exact { hledger with
      sent := by rw [List.map_append, hledger.sent, List.append_assoc]; rfl }
  · exact .inr (offer_of_full hthere hroom b)

lemma poll (h : c.Flows n k sent got) :
    (∃ b, c.poll.1 = .chunk b ∧ c.poll.2.Flows n k sent (got ++ [b])) ∨ c.poll = (.pending, c) := by
  obtain ⟨hledger, hs, hr⟩ := h
  have hf : c.finished = false := hledger.finished
  rcases hq : c.queue with _ | ⟨e | b, q⟩
  · exact .inr (poll_of_sending hf hq hs)
  · have hmem : Except.error e ∈ sent.map Except.ok := by rw [hledger.sent, hq]; simp
    simp at hmem
  · obtain ⟨hchunk, -, -, -, hsending, hreceiving, -⟩ := poll_of_chunk hf hq
    have hlook := hledger.look
    rw [hchunk] at hlook
    exact .inl ⟨b, hchunk, hlook, hsending.trans hs, hreceiving.trans hr⟩

/-- **If the sender leaves now**, who drains the channel gets all that has gone in, and an error
if this is too short. -/
lemma cut (h : c.Flows n k sent got) (hm : c.queue.length < m) :
    let d := (⟨c.hangUp, sent.map .ok, got, none⟩ : Draining).looks m
    d.got = sent ∧ d.ending = some
      (if sent.flatten.length < n then some (.truncated n sent.flatten.length) else none) := by
  intro d
  have hledger := h.ledger.on .hangUp
  rw [puts, List.append_nil] at hledger
  have hstands : (⟨c.hangUp, sent.map .ok, got, none⟩ : Draining).Stands n k :=
    .underway rfl hledger
  obtain ⟨e, he, hends⟩ := hstands.drained rfl hm
  have hgot_of : sent.map Except.ok = d.got.map Except.ok → d.got = sent := fun hsent => by
    simpa using (congrArg chunks hsent).symm
  cases hends with
  | clean hsent hn =>
    have hgot := hgot_of hsent
    rw [hgot] at hn
    exact ⟨hgot, he.trans (by rw [if_neg (by omega)])⟩
  | short hsent hlt =>
    have hgot := hgot_of hsent
    rw [hgot] at hlt he
    exact ⟨hgot, he.trans (by rw [if_pos hlt])⟩
  | @failed why later hsent =>
    have hall : sent.map Except.ok = d.got.map Except.ok ++ .error why :: later := hsent
    have hmem : Except.error why ∈ sent.map Except.ok := by rw [hall]; simp
    simp at hmem

end Flows

end Channel

/-! ### The assembly -/

namespace Assembly

variable {a a' : Assembly} {f : Frame} {q : Pushed} {n k : Nat} {h : List (Frame × Pushed)}

lemma Orderly.head_of_line (hc : Orderly k h a) (he : a.entity = none) (hd : a.done = false)
    {l : RequestLine} (hl : a.line = some l) :
    h = Layout.headAnswers l a.headers ∧ a.capacity = k := by
  cases hc with
  | fresh => cases hl
  | head =>
    obtain rfl := Option.some.inj hl
    exact ⟨rfl, rfl⟩
  | body _ _ _ _ hsome => simp [he] at hsome
  | ended _ hover => simp [hd] at hover

end Assembly

namespace Relay

open Assembly (Orderly)
open Layout (headAnswers streamAnswers)

variable {k : Nat} {x : Relay}

/-- How far the stream has come, if its receiver stays and nothing is refused. -/
inductive Flow (k : Nat) (x : Relay) : Prop
  | strayed {f : Frame} : (f, .refused) ∈ x.answered → Flow k x
  | head : Orderly k x.answered x.assembly → x.assembly.entity = none → x.held = none →
      x.got = [] → x.ending = none → Flow k x
  /-- The assembly has counted the chunk that waits. -/
  | body {r : Receiving} (l : RequestLine) (hs : List Header) (n : Nat) (sent : List Bytes) :
      x.answered = headAnswers l hs ++ streamAnswers k l hs n sent → x.assembly.entity = some r →
      r.received = (sent ++ x.held.toList).flatten.length → r.channel.Flows n k sent x.got →
      x.ending = none → Flow k x
  | ended : x.assembly.done = true → Flow k x

namespace Flow

lemma look (h : x.Flow k) : x.look.Flow k := by
  obtain ⟨g, got, ending, hlook⟩ := x.look_eq
  cases h with
  | strayed hf =>
    rw [hlook]
    exact .strayed hf
  | head hc he hx hgot hend =>
    rw [look_of_none (by rw [Assembly.channel?, he]; rfl)]
    exact .head hc he hx hgot hend
  | @body r l hs n sent hanswered he hcount hflows hend =>
    have hc : x.assembly.channel? = some r.channel := by rw [Assembly.channel?, he]; rfl
    rw [look_of_channel hc]
    rcases hflows.poll with ⟨b, hb, hnext⟩ | hpending
    · have hd : (x.receiver r.channel).look =
          ⟨r.channel.poll.2, [], x.got ++ [b], x.ending⟩ := by
        simp only [Draining.look, receiver, hb]
      rw [hd]
      have hentity : (x.assembly.onChannel fun _ => r.channel.poll.2).entity =
          some { r with channel := r.channel.poll.2 } := by rw [Assembly.onChannel, he]; rfl
      exact .body l hs n sent hanswered hentity hcount hnext hend
    · have hd : (x.receiver r.channel).look = x.receiver r.channel := by
        simp only [Draining.look, receiver, hpending]
      rw [hd]
      have hentity : (x.assembly.onChannel fun _ => r.channel).entity = some r := by
        rw [Assembly.onChannel, he]; rfl
      exact .body l hs n sent hanswered hentity hcount hflows hend
  | ended hd =>
    rw [hlook]
    exact .ended hd

lemma deliver {a : Assembly} {r : Receiving} {l : RequestLine} {hs : List Header} {n : Nat}
    {sent : List Bytes} {c : Bytes}
    (hanswered : x.answered = headAnswers l hs ++ streamAnswers k l hs n sent)
    (he : a.entity = some r) (hcount : r.received = (sent ++ [c]).flatten.length)
    (hflows : r.channel.Flows n k sent x.got) (hend : x.ending = none) :
    (x.settle (.entityChunk c) (a.deliver c).1 (a.deliver c).2).Flow k := by
  rcases hflows.offer c with ⟨c', ho, hflows'⟩ | ho
  · have hdeliver : a.deliver c =
        (.accepted, { a with entity := some { r with channel := c' } }) := by
      simp only [Assembly.deliver, he, ho]
    rw [hdeliver]
    rw [← List.append_nil (sent ++ [c])] at hcount
    refine .body l hs n (sent ++ [c]) ?_ rfl hcount hflows' hend
    rw [← Layout.streamAnswers_append, ← List.append_assoc, ← hanswered]
    rfl
  · have hdeliver : a.deliver c = (.blocked c, a) := by simp only [Assembly.deliver, he, ho]
    rw [hdeliver]
    exact .body l hs n sent hanswered he hcount hflows hend

variable {a' : Assembly} {f : Frame} {q : Pushed}

lemma next_head (hc : Orderly k x.answered x.assembly) (he : x.assembly.entity = none)
    (hgot : x.got = []) (hend : x.ending = none) (hdoes : x.assembly.Does f q a')
    (hq : q ≠ .refused) : (x.settle f q a').Flow k := by
  have hc' := (hc.does hdoes).resolve_left fun hrefused => hq hrefused.1
  cases hdoes with
  | line => exact .head hc' he rfl hgot hend
  | header => exact .head hc' he rfl hgot hend
  | bodiless => exact .ended rfl
  | @start l n hd _ hl =>
    obtain ⟨hhead, hk⟩ := hc.head_of_line he hd hl
    refine .body l x.assembly.headers n [] ?_ rfl rfl ?_ hend
    · subst hk
      change x.answered ++ _ = _
      rw [hhead]
      rfl
    · change Channel.Flows n k [] x.got (create n x.assembly.capacity)
      rw [hgot, hk]
      exact Channel.flows_create n k
  | late => exact absurd rfl hq
  | misplaced => exact absurd rfl hq
  | again => exact absurd rfl hq
  | headless => exact absurd rfl hq
  | nothing => exact absurd rfl hq
  | chunk _ hsome => simp [he] at hsome
  | ending _ hsome => simp [he] at hsome

lemma next_body {r : Receiving} {l : RequestLine} {hs : List Header} {n : Nat}
    {sent : List Bytes}
    (hanswered : x.answered = headAnswers l hs ++ streamAnswers k l hs n sent)
    (he : x.assembly.entity = some r) (hcount : r.received = sent.flatten.length)
    (hflows : r.channel.Flows n k sent x.got) (hend : x.ending = none)
    (hdoes : x.assembly.Does f q a') (hq : q ≠ .refused) : (x.settle f q a').Flow k := by
  cases hdoes with
  | @chunk r' c _ hr =>
    obtain rfl := Option.some.inj (he.symm.trans hr)
    exact deliver hanswered (Assembly.count_entity he c) (by simp [hcount]) hflows hend
  | ending => exact .ended rfl
  | late => exact absurd rfl hq
  | misplaced => exact absurd rfl hq
  | again => exact absurd rfl hq
  | headless => exact absurd rfl hq
  | nothing => exact absurd rfl hq
  | line _ hnone => simp [he] at hnone
  | header _ hnone => simp [he] at hnone
  | start _ hnone => simp [he] at hnone
  | bodiless _ hnone => simp [he] at hnone

lemma next (h : x.Flow k) (hx : x.held = none) (hdoes : x.assembly.Does f q a') :
    (x.settle f q a').Flow k := by
  by_cases hq : q = .refused
  · subst hq
    exact .strayed (f := f) (List.mem_append_right _ (List.mem_singleton.2 rfl))
  cases h with
  | strayed hf => exact .strayed (x.answered_prefix_settle.subset hf)
  | head hc he _ hgot hend => exact next_head hc he hgot hend hdoes hq
  | body l hs n sent hanswered he hcount hflows hend =>
    rw [hx, Option.toList_none, List.append_nil] at hcount
    exact next_body hanswered he hcount hflows hend hdoes hq
  | ended hd => exact absurd (hdoes.of_done hd).1 hq

lemma push (h : x.Flow k) : x.push.Flow k := by
  rcases hx : x.held with _ | c
  · rcases hup : x.upcoming with _ | ⟨f, fs⟩
    · rwa [push_over hx hup]
    · have hflow : Flow k { x with upcoming := fs } := by
        cases h with
        | strayed hf => exact .strayed hf
        | head hc he hheld hgot hend => exact .head hc he hheld hgot hend
        | body l hs n sent hanswered he hcount hflows hend =>
          exact .body l hs n sent hanswered he hcount hflows hend
        | ended hd => exact .ended hd
      rw [push_next hx hup]
      exact hflow.next hx (x.assembly.push_does f)
  · rw [push_held hx]
    cases h with
    | strayed hf => exact .strayed (x.answered_prefix_settle.subset hf)
    -- nothing waits before there is a stream
    | head _ _ hheld => simp [hx] at hheld
    | body l hs n sent hanswered he hcount hflows hend =>
      rw [hx] at hcount
      exact deliver hanswered he hcount hflows hend
    | ended hd =>
      obtain ⟨g, hg⟩ := x.assembly.deliver_eq c
      refine .ended ?_
      rw [assembly_settle, hg]
      exact hd

lemma run (h : x.Flow k) {es : List Event} (hes : ∀ e ∈ es, e ≠ .leave) : (x.run es).Flow k := by
  induction es generalizing x with
  | nil => exact h
  | cons e es ih =>
    obtain ⟨he, hes⟩ := List.forall_mem_cons.1 hes
    refine ih ?_ hes
    cases e with
    | frame => exact h.push
    | look => exact h.look
    | leave => exact absurd rfl he

end Flow

lemma flow_start (k : Nat) (fs : List Frame) : (start k fs).Flow k :=
  .head .fresh rfl rfl rfl rfl

/-- **What an assembly foretells.** Frames are pushed while the receiver of the stream looks
whenever it likes; none of them is refused, and the entity has not ended. The assembly then says
how many bytes of the declared length have been pushed. If it goes now, who looks as often as chunks
wait, and once more, has received the chunks that were pushed, and then the error foretold if these
are short of the declared length, and a clean end if they are not. -/
theorem truncation (k : Nat) (fs : List Frame) (es : List Event) (hes : ∀ e ∈ es, e ≠ .leave) :
    let x := (start k fs).run es
    x.held = none → (∀ f, (f, .refused) ∉ x.answered) → x.assembly.isStreaming →
      ∃ (l : RequestLine) (hs : List Header) (n : Nat) (cs : List Bytes) (c : Channel),
        x.answered.map Prod.fst =
          Message.headFrames l hs ++ .entityStart n :: cs.map .entityChunk ∧
        x.assembly.truncated? = some (.truncated n cs.flatten.length) ∧
        x.assembly.drop.channel? = some c ∧
        ∀ m, c.queue.length < m → let d := (x.receiver c).looks m
          d.got = cs ∧
            d.ending = some (if cs.flatten.length < n then x.assembly.truncated? else none) := by
  intro x hx hnone hstreaming
  obtain ⟨hsome, hd⟩ : x.assembly.entity.isSome ∧ x.assembly.done = false := by
    simpa [Assembly.isStreaming] using hstreaming
  have hflow : x.Flow k := (flow_start k fs).run hes
  cases hflow with
  | strayed hf => exact absurd hf (hnone _)
  | head _ he => simp [he] at hsome
  | ended hover => simp [hd] at hover
  | @body r l hs n cs hanswered he hcount hflows hend =>
    have htruncated : x.assembly.truncated? = some (.truncated n cs.flatten.length) := by
      have hlength : r.channel.length = n := hflows.ledger.length
      rw [hx, Option.toList_none, List.append_nil] at hcount
      simp [Assembly.truncated?, hd, he, hlength, hcount]
    have hchannel : x.assembly.drop.channel? = some r.channel.hangUp := by
      simp [Assembly.drop, Assembly.onChannel, Assembly.channel?, he]
    refine ⟨l, hs, n, cs, _, ?_, htruncated, hchannel, fun m hm => ?_⟩
    · rw [hanswered, List.map_append, Layout.map_fst_headAnswers, Layout.map_fst_streamAnswers]
    · have hcut := hflows.cut hm
      have hreceiver : x.receiver r.channel.hangUp = ⟨r.channel.hangUp, [], x.got, none⟩ := by
        rw [receiver, hend]
      rw [hreceiver, htruncated]
      rw [Draining.looks_withSent ⟨_, [], x.got, none⟩] at hcut
      exact hcut

def pair (n : Nat) : List Frame :=
  [.requestLine Layout.anyLine, .entityStart n, .entityChunk [97, 98]]

lemma taken_pair (n : Nat) (f : Frame) :
    (f, .refused) ∉ ((start 1 (pair n)).run [.frame, .frame, .frame]).answered := by
  intro hf
  rcases hf with _ | ⟨_, _ | ⟨_, _ | ⟨_, hf⟩⟩⟩
  cases hf

theorem truncation_ofThree :
    let x := (start 1 (pair 3)).run [.frame, .frame, .frame]
    (x.held = none ∧ (∀ f, (f, .refused) ∉ x.answered) ∧ x.assembly.isStreaming) ∧
      ∃ (l : RequestLine) (hs : List Header) (n : Nat) (cs : List Bytes) (c : Channel),
        x.answered.map Prod.fst =
          Message.headFrames l hs ++ .entityStart n :: cs.map .entityChunk ∧
        x.assembly.truncated? = some (.truncated n cs.flatten.length) ∧
        x.assembly.drop.channel? = some c ∧
        ∀ m, c.queue.length < m → let d := (x.receiver c).looks m
          d.got = cs ∧
            d.ending = some (if cs.flatten.length < n then x.assembly.truncated? else none) :=
  ⟨⟨rfl, taken_pair 3, rfl⟩,
    truncation 1 (pair 3) [.frame, .frame, .frame] (by decide) rfl (taken_pair 3) rfl⟩

/-- With both bytes of an entity of two there is nothing missing, but an error is foretold. -/
theorem truncation_ofTwo :
    let x := (start 1 (pair 2)).run [.frame, .frame, .frame]
    x.held = none ∧ x.upcoming = [] ∧ (∀ f, (f, .refused) ∉ x.answered) ∧ x.assembly.isStreaming ∧
      x.assembly.truncated? = some (.truncated 2 2) ∧
      ∃ c, x.assembly.drop.channel? = some c ∧ ((x.receiver c).looks 2).got = [[97, 98]] ∧
        ((x.receiver c).looks 2).ending = some none :=
  ⟨rfl, rfl, taken_pair 2, rfl, rfl, _, rfl, rfl, rfl⟩

end Relay

end Http1
