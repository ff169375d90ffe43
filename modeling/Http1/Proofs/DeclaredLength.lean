import Mathlib.Data.Nat.Digits.Defs
import Http1.Proofs.RoundTrip

/-!
The declared length of an entity.

A length is written in plain digits and read as a number of 64 signed bits, so it is read back if it
is below `2 ^ 63`, and is passed over otherwise. Of the lengths that are read the first one counts.
Main statement: the bytes behind a head are framed by the length that is read in it. A length that
is passed over declares no entity: the bytes behind the head are then read as the next request.
-/

namespace Http1

/-! ### Numbers -/

lemma readInt64?_decimal (n : Nat) :
    readInt64? (decimal n) = if n < pastInt64 then some (n : Int) else none := by
  have hread := readDigits?_decimal n
  rcases h : decimal n with _ | ⟨c, t⟩
  · exact absurd h (decimal_ne_nil n)
  · have hc : c.isDigit = true := isDigit_of_mem_decimal (n := n) (by simp [h])
    rw [h] at hread
    -- a digit is no sign
    unfold readInt64?
    split
    · rename_i heq
      rw [(List.cons.inj heq).1] at hc
      exact absurd hc (by decide)
    · rename_i heq
      rw [(List.cons.inj heq).1] at hc
      exact absurd hc (by decide)
    · rw [hread, Option.bind_some]

lemma readLength?_decimal (n : Nat) :
    readLength? (decimal n) = if n < pastInt64 then some n else none := by
  rw [readLength?, readInt64?_decimal]
  split <;> simp

lemma ascii_decimal (n : Nat) : Ascii (decimal n) := by
  intro c hc
  have h := isDigit_of_mem_decimal hc
  simp only [Char.isDigit, Bool.and_eq_true, decide_eq_true_eq] at h
  have hle : c.toNat ≤ 57 := h.2
  omega

namespace Header

/-- A length of 64 bits is written in twenty digits at most. -/
lemma contentLength_fits {l : Limits} (hname : 14 ≤ l.headerName) (hvalue : 20 ≤ l.headerValue)
    {n : Nat} (hn : n < 10 ^ 20) : (contentLength n).Fits l := by
  have hlen : (decimal n).length ≤ 20 := Nat.toDigits_length 10 n 20 (by omega) hn
  exact {
    name_ascii := (by decide : Ascii contentLengthName.text)
    name_colon := (by decide : ':' ∉ contentLengthName.text)
    name_le := hname
    name_lt := Framing.lt_pastInt64_of_le (by decide : contentLengthName.text.length ≤ 24)
    value_ascii := ascii_decimal n
    value_lineEnd := Framing.not_lineEnd_inside fun h =>
      absurd (isDigit_of_mem_decimal h) (by decide)
    value_le := Nat.le_trans hlen hvalue
    value_lt := Framing.lt_pastInt64_of_le (Nat.le_trans hlen (by decide)) }

lemma contentLength?_append (hs hs' : List Header) :
    contentLength? (hs ++ hs') = (contentLength? hs).or (contentLength? hs') := by
  simp [contentLength?, List.findSome?_append]

lemma contentLength?_cons_contentLength (n : Nat) (hs : List Header) :
    contentLength? (contentLength n :: hs) =
      if n < pastInt64 then some n else contentLength? hs := by
  have his : (contentLength n).is contentLengthName.text = true := sameFold_refl _
  have hvalue : readLength? (contentLength n).value.text = if n < pastInt64 then some n else none :=
    readLength?_decimal n
  simp only [contentLength?, List.filter_cons, his, if_true, List.findSome?_cons, hvalue]
  by_cases h : n < pastInt64 <;> simp [h]

end Header

/-! ### Bytes behind those that have been read -/

namespace Frame

lemma glue_append {frame : Frame} {fs gs : List Frame} (h : ∀ c, gs.head? ≠ some (.entityChunk c)) :
    glue frame (fs ++ gs) = glue frame fs ++ gs := by
  cases frame with
  | entityChunk b =>
    rcases fs with _ | ⟨_ | _ | _ | c | _, fs⟩ <;> try rfl
    rcases gs with _ | ⟨_ | _ | _ | c | _, gs⟩ <;> try rfl
    exact absurd rfl (h c)
  | _ => rfl

end Frame

namespace Framing

variable {l : Lexicon} {p : Phase} {b : Bytes} {fs : List Frame} {f : Framing}

/-- What comes behind bytes that have been read is read by the framing that waits for it. -/
lemma reading_append_of_reading (hp : p.Sound l) (h : reading l p b = (fs, .ok f)) {c : Bytes}
    (hc : ∀ d, (reading l f.phase (f.buffer ++ c)).1.head? ≠ some (.entityChunk d)) :
    reading l p (b ++ c) =
      (fs ++ (reading l f.phase (f.buffer ++ c)).1, (reading l f.phase (f.buffer ++ c)).2) := by
  rcases hb : build l p b with e | g
  · simp [reading, hb] at h
  · induction hw : g.weight using Nat.strongRecOn generalizing p b fs g with
    | _ w ih =>
      have hread := reading_build hp hb c
      rcases hg : g.frame with _ | frame
      · rw [reading_of_build hb, drain_of_none hg] at h
        obtain ⟨rfl, hgf⟩ : [] = fs ∧ g = f := by simpa [Run.merge] using h
        subst hgf
        rw [hread, hg]
        simp [nextPhase, hg]
      · have hlater := reading_build hp hb []
        rw [List.append_nil, h, hg, List.append_nil] at hlater
        obtain ⟨g', hnext⟩ : ∃ g', build l g.nextPhase g.buffer = .ok g' := by
          rcases hn : build l g.nextPhase g.buffer with e | g'
          · simp [reading, hn, Run.glue] at hlater
          · exact ⟨g', rfl⟩
        have hlt : g'.weight < w := by
          refine hw ▸ weight_next_lt hg ?_
          rw [next_of_build hb, List.append_nil, hnext]
        rcases hrest : reading l g.nextPhase g.buffer with ⟨gs, r⟩
        rw [hrest] at hlater
        obtain ⟨rfl, rfl⟩ : fs = Frame.glue frame gs ∧ .ok f = r := by
          simpa [Run.glue] using hlater
        rw [hread, hg, Option.toList_some, List.foldr_cons, List.foldr_nil,
          ih _ hlt (sound_nextPhase hp hb) hrest g' hnext rfl, Run.glue, Frame.glue_append hc]

/-! ### Bytes behind a head -/

/-- The bytes `c` behind a head are framed as an entity of `n` bytes, and what is behind it as the
next request. -/
structure Parts (l : Lexicon) (n : Nat) (head : List Frame) (c : Bytes) (run : Run) : Prop where
  bare : n = 0 → run =
    (head ++ .entityEnd :: (reading l .requestLine c).1, (reading l .requestLine c).2)
  whole : 0 < n → n ≤ c.length → run =
    (head ++ .entityStart n :: .entityChunk (c.take n) :: .entityEnd ::
      (reading l .requestLine (c.drop n)).1, (reading l .requestLine (c.drop n)).2)
  part : c.length < n → ∃ m hm, n = c.length + m ∧ run =
    (head ++ .entityStart n :: if c = [] then [] else [.entityChunk c],
      .ok ⟨l, .entity m hm, [], none⟩)

lemma reading_head (l : Lexicon) (hs : List Header) {e : Bytes} (he : e = crlf ∨ e = [10])
    (c : Bytes) :
    reading l (.headerOrEnd hs) (e ++ c) =
      (reading l ((Phase.headerOrEnd hs).next (Phase.endOfHead hs)) c).glue
        (Phase.endOfHead hs) := by
  rcases he with rfl | rfl <;> exact reading_takes (p := .headerOrEnd hs) rfl

lemma reading_entityEnd (l : Lexicon) (c : Bytes) :
    reading l .entityEnd c = (reading l .requestLine c).glue .entityEnd :=
  reading_takes (p := .entityEnd) rfl

/-- **A head and what is behind it**: the length that is read in it parts the bytes. -/
lemma parts_of_reading {head : List Frame} {hs : List Header}
    (h : reading l .requestLine b = (head, .ok ⟨l, .headerOrEnd hs, [], none⟩)) {e : Bytes}
    (he : e = crlf ∨ e = [10]) (c : Bytes) :
    Parts l ((Header.contentLength? hs).getD 0) head c
      (reading l .requestLine (b ++ (e ++ c))) := by
  have happend : ∀ r : Run, reading l (.headerOrEnd hs) (e ++ c) = r →
      (∀ d, r.1.head? ≠ some (.entityChunk d)) →
      reading l .requestLine (b ++ (e ++ c)) = (head ++ r.1, r.2) := by
    rintro r rfl hc
    exact reading_append_of_reading (p := .requestLine) trivial h hc
  have hread := reading_head l hs he c
  rcases Phase.endOfHead_eq hs with ⟨hend, hlen⟩ | ⟨n, hn, hend, hlen⟩ <;> rw [hend] at hread
  · rw [hlen]
    exact ⟨fun _ => happend _ hread (by simp [Run.glue, Frame.glue]), by omega, by omega⟩
  · rw [hlen, Option.getD_some]
    have hnext : (Phase.headerOrEnd hs).next (.entityStart n) = .entity n hn :=
      Phase.outstanding_pos hn
    rw [hnext] at hread
    refine ⟨by omega, fun _ hle => ?_, fun hlt => ?_⟩
    · have hne : c ≠ [] := List.length_pos_iff.1 (by omega)
      rw [reading_entity hne, Nat.sub_eq_zero_of_le hle, Phase.outstanding_zero,
        reading_entityEnd] at hread
      exact happend _ hread (by simp [Run.glue, Frame.glue])
    · by_cases hc : c = []
      · subst hc
        rw [reading_entity_nil] at hread
        exact ⟨n, hn, by simp, happend _ hread (by simp [Run.glue, Frame.glue])⟩
      · have hpos : 0 < n - c.length := by omega
        rw [reading_entity hc, Phase.outstanding_pos hpos, List.drop_of_length_le (by omega),
          List.take_of_length_le (by omega), reading_entity_nil] at hread
        refine ⟨n - c.length, hpos, by omega, ?_⟩
        rw [if_neg hc]
        exact happend _ hread (by simp [Run.glue, Frame.glue])

/-- **A length that is written is the one that parts the bytes**, if it is below `2 ^ 63` and no
other one is read before it. Once the headers have come, in whatever pieces, that many bytes behind
the empty line, be it a bare line feed, are the entity, announced with this length, and the next
request begins behind them; with length zero there is no entity. From `2 ^ 63` on, the header
declares nothing: with no other length in the head, all that is behind it is read as the next
request. -/
theorem parts_of_contentLength (n : Nat) (pre post : List Header) :
    Header.contentLength? (pre ++ .contentLength n :: post) =
      (Header.contentLength? pre).or
        (if n < pastInt64 then some n else Header.contentLength? post) ∧
    ∀ l b head s e c,
      reading l .requestLine b =
        (head, .ok ⟨l, .headerOrEnd (pre ++ .contentLength n :: post), [], none⟩) →
      (e = crlf ∨ e = [10]) → total s = b ++ (e ++ c) → Header.contentLength? pre = none →
      (n < pastInt64 → Parts l n head c ((init l).play s).merge) ∧
      (pastInt64 ≤ n → Header.contentLength? post = none →
        Parts l 0 head c ((init l).play s).merge) := by
  have hlength : Header.contentLength? (pre ++ .contentLength n :: post) =
      (Header.contentLength? pre).or
        (if n < pastInt64 then some n else Header.contentLength? post) := by
    rw [Header.contentLength?_append, Header.contentLength?_cons_contentLength]
  refine ⟨hlength, fun l b head s e c hread he hs hpre => ?_⟩
  have hparts := parts_of_reading hread he c
  rw [hlength, hpre, Option.none_or, ← hs, ← merge_play] at hparts
  refine ⟨fun hn => ?_, fun hn hpost => ?_⟩
  · rw [if_pos hn] at hparts
    exact hparts
  · rw [if_neg (by omega), hpost] at hparts
    exact hparts

lemma putWritten_fits : putWritten.Fits .default := by
  refine ⟨by decide, by decide, by decide, lt_pastInt64_of_le (by decide), rfl, by decide,
    by decide, lt_pastInt64_of_le (by decide), by decide, fun h hmem => ?_⟩
  rw [List.mem_singleton.1 hmem]
  exact Header.contentLength_fits (by decide) (by decide) (by decide +kernel)

theorem parts_of_contentLength_putTwice :
    let rest := reading .default .requestLine putWritten.wire
    reading .default .requestLine putWritten.headBytes =
        ([.requestLine putWritten.line, .header (.contentLength 2)],
          .ok ⟨.default, .headerOrEnd ([] ++ .contentLength 2 :: []), [], none⟩) ∧
      total [⟨.atOnce, putWritten.wire ++ putWritten.wire⟩] =
        putWritten.headBytes ++ (crlf ++ ([97, 98] ++ putWritten.wire)) ∧
      Header.contentLength? [] = none ∧ 2 < pastInt64 ∧
      ((init .default).play [⟨.atOnce, putWritten.wire ++ putWritten.wire⟩]).merge =
        ([.requestLine putWritten.line, .header (.contentLength 2), .entityStart 2,
          .entityChunk [97, 98], .entityEnd] ++ rest.1, rest.2) := by
  intro rest
  have hend : reading .default (.headerOrEnd putWritten.headers) [] =
      ([], .ok ⟨.default, .headerOrEnd putWritten.headers, [], none⟩) :=
    reading_pending (r := []) rfl
  have hread := reading_headBytes putWritten_fits []
  rw [List.append_nil, hend] at hread
  have htotal : total [⟨.atOnce, putWritten.wire ++ putWritten.wire⟩] =
      putWritten.headBytes ++ (crlf ++ ([97, 98] ++ putWritten.wire)) := by decide
  have hpre : Header.contentLength? [] = none := rfl
  have hlt : 2 < pastInt64 := lt_pastInt64_of_le (by decide)
  have hparts := ((parts_of_contentLength 2 [] []).2 _ _ _ _ _ _ hread (.inl rfl) htotal hpre).1 hlt
  exact ⟨hread, htotal, hpre, hlt, hparts.whole (by decide) (by decide)⟩

lemma contentLength?_pastInt64 : Header.contentLength? [.contentLength pastInt64] = none :=
  (Header.contentLength?_cons_contentLength pastInt64 []).trans (if_neg (Nat.lt_irrefl _))

/-- `PUT * HTTP/1.1` with the length `2 ^ 63`, and nothing behind its empty line. -/
def vastWritten : Written :=
  { putWritten with
    headers := [.contentLength pastInt64]
    body := []
    headers_ne := List.cons_ne_nil _ _
    length_body := (congrArg (·.getD 0) contentLength?_pastInt64).symm }

lemma vastPut_fits : ∀ w ∈ [vastWritten, putWritten], w.Fits .default := by
  refine List.forall_mem_cons.2 ⟨{ putWritten_fits with headers := fun h hmem => ?_ },
    List.forall_mem_singleton.2 putWritten_fits⟩
  rw [List.mem_singleton.1 hmem]
  exact Header.contentLength_fits (by decide) (by decide) (by decide +kernel)

/-- An entity of `2 ^ 63` bytes is announced, and its first bytes are read as the next request. -/
theorem play_vastPut :
    pastInt64 < 2 ^ 64 ∧ Header.contentLength? [.contentLength pastInt64] = none ∧
      putWritten.wire.length < pastInt64 ∧
      ((init .default).play [⟨.atOnce, vastWritten.wire ++ putWritten.wire⟩]).merge =
        ([.requestLine ⟨.standard .put, .asterisk, .http11⟩, .header (.contentLength pastInt64),
          .entityEnd, .requestLine ⟨.standard .put, .asterisk, .http11⟩,
          .header (.contentLength 2), .entityStart 2, .entityChunk [97, 98], .entityEnd],
          .ok (init .default)) := by
  have hvast : vastWritten.message.frames = [.requestLine ⟨.standard .put, .asterisk, .http11⟩,
      .header (.contentLength pastInt64), .entityEnd] := by
    have hzero : vastWritten.message.length = 0 := congrArg (·.getD 0) contentLength?_pastInt64
    rw [Message.frames, Message.entityFrames, hzero]
    rfl
  have hput : putWritten.message.frames = [.requestLine ⟨.standard .put, .asterisk, .http11⟩,
      .header (.contentLength 2), .entityStart 2, .entityChunk [97, 98], .entityEnd] := rfl
  have htotal : total [⟨.atOnce, vastWritten.wire ++ putWritten.wire⟩] =
      [vastWritten, putWritten].flatMap Written.wire := by simp [total]
  refine ⟨by decide +kernel, contentLength?_pastInt64, by decide +kernel, ?_⟩
  rw [merge_play, htotal, reading_wires vastPut_fits]
  simp [hvast, hput]

end Framing

end Http1
