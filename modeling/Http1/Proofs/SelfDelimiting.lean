import Http1.Proofs.DeclaredLength
import Http1.Proofs.Serializing

/-!
Responses on a connection that is kept alive.

A client tells the responses apart by what they say of themselves: the status line ends at a line
end, the headers at the empty line, and the body has the length that the headers declare. The status
phrases and media types of this library have no line end in them, and the length of a body that is
at hand is written and read as the same number, whatever the body contains. Main statement: what is
written through one buffer, one response after the other, is read back as these responses, and
nothing is left over.
-/

namespace Http1

/-! ### Reading responses -/

/-- A response as a client takes it off the connection. -/
structure Reply where
  /-- The status line, without the line end. -/
  line : Bytes
  headers : List Header
  body : Bytes
  deriving DecidableEq

namespace Reply

/-- The bytes up to the first line end, and those behind it. -/
def line? (b : Bytes) : Option (Bytes × Bytes) :=
  (offset? crlf b).map fun i => (b.take i, b.drop (i + 2))

def headers? (l : Limits) (b : Bytes) : Option (List Header × Bytes) :=
  match Line.empty b with
  | .ok (.done _ r) => some ([], r)
  | .ok (.pending _) => none
  | .error _ =>
    match h : Line.header l b with
    | .ok (.done x r) =>
      have := Line.header_shortens l _ _ _ h
      (headers? l r).map fun p => (x :: p.1, p.2)
    | .ok (.pending _) => none
    | .error _ => none
termination_by b.length

def body? (hs : List Header) (b : Bytes) : Option (Bytes × Bytes) :=
  match Header.contentLength? hs with
  | some n => if n ≤ b.length then some (b.take n, b.drop n) else none
  | none => none

/-- One response, and the bytes behind it. -/
def read? (l : Limits) (b : Bytes) : Option (Reply × Bytes) :=
  match line? b with
  | none => none
  | some (line, b) =>
    match headers? l b with
    | none => none
    | some (hs, b) => (body? hs b).map fun p => (⟨line, hs, p.1⟩, p.2)

variable {l : Limits} {b r : Bytes}

lemma line?_shortens {t : Bytes} (h : line? b = some (t, r)) : r.length < b.length := by
  obtain ⟨i, hi, hcut⟩ := Option.map_eq_some_iff.1 h
  have hle : i + 2 ≤ 0 + b.length := offsetFrom?_le hi
  rw [← (Prod.mk.inj hcut).2, List.length_drop]
  omega

lemma headers?_length_le {hs : List Header} (h : headers? l b = some (hs, r)) :
    r.length ≤ b.length := by
  fun_induction headers? l b generalizing hs with
  | case1 b _ r' he =>
    obtain ⟨-, rfl⟩ := Prod.mk.inj (Option.some.inj h)
    exact Nat.le_of_lt (Line.empty_shortens _ _ _ he)
  | case3 b _ _ x r' hx _ ih =>
    obtain ⟨p, hp, heq⟩ := Option.map_eq_some_iff.1 h
    obtain ⟨-, rfl⟩ := Prod.mk.inj heq
    exact Nat.le_trans (ih hp) (Nat.le_of_lt (Line.header_shortens l _ _ _ hx))
  | _ => cases h

lemma body?_length_le {hs : List Header} {c : Bytes} (h : body? hs b = some (c, r)) :
    r.length ≤ b.length := by
  unfold body? at h
  split at h
  · split at h
    · rw [← (Prod.mk.inj (Option.some.inj h)).2, List.length_drop]
      omega
    · cases h
  · cases h

lemma read?_shortens {m : Reply} (h : read? l b = some (m, r)) : r.length < b.length := by
  unfold read? at h
  split at h
  · cases h
  · rename_i line c hline
    split at h
    · cases h
    · rename_i hs d hheaders
      obtain ⟨p, hp, heq⟩ := Option.map_eq_some_iff.1 h
      obtain ⟨-, rfl⟩ := Prod.mk.inj heq
      calc p.2.length
        _ ≤ d.length := body?_length_le hp
        _ ≤ c.length := headers?_length_le hheaders
        _ < b.length := line?_shortens hline

def all? (l : Limits) (b : Bytes) : Option (List Reply) :=
  if b = [] then some []
  else
    match h : read? l b with
    | some (m, r) =>
      have := read?_shortens h
      (all? l r).map (m :: ·)
    | none => none
termination_by b.length

lemma all?_cons {m : Reply} (h : read? l b = some (m, r)) :
    all? l b = (all? l r).map (m :: ·) := by
  have hne : b ≠ [] := by
    rintro rfl
    exact absurd (read?_shortens h) (by simp)
  rw [all?, if_neg hne]
  split
  · rename_i m' r' h'
    obtain ⟨rfl, rfl⟩ := Prod.mk.inj (Option.some.inj (h'.symm.trans h))
    rfl
  · rename_i h'
    cases h'.symm.trans h

/-! ### Each part in front of what follows it -/

lemma line?_append {t : Bytes} (h : Unbroken t) (r : Bytes) :
    line? (t ++ crlf ++ r) = some (t, r) := by
  have hfirst : offset? crlf (t ++ crlf ++ r) = some t.length :=
    offset?_append_eq_some_iff.2 ⟨t, r, rfl, rfl, clears_crlf_iff.2 h⟩
  have hrest : (t ++ crlf ++ r).drop (t.length + 2) = r :=
    List.drop_left' (by simp [crlf])
  rw [line?, hfirst, Option.map_some, hrest, List.append_assoc, List.take_left]

lemma headers?_cons {x : Header} {e : ParseError} (he : Line.empty b = .error e)
    (hx : Line.header l b = .ok (.done x r)) :
    headers? l b = (headers? l r).map fun p => (x :: p.1, p.2) := by
  rw [headers?, he]
  dsimp only
  split
  · rename_i h
    obtain ⟨rfl, rfl⟩ := Scan.done.inj (Except.ok.inj (h.symm.trans hx))
    rfl
  · rename_i h
    cases h.symm.trans hx
  · rename_i h
    cases h.symm.trans hx

lemma headers?_append {hs : List Header} (h : ∀ x ∈ hs, x.Fits l) (r : Bytes) :
    headers? l (hs.flatMap Response.headerLine ++ (crlf ++ r)) = some (hs, r) := by
  induction hs with
  | nil =>
    have hempty : Line.empty ([].flatMap Response.headerLine ++ (crlf ++ r)) =
        .ok (.done () r) := rfl
    rw [headers?, hempty]
  | cons x hs ih =>
    obtain ⟨hx, hhs⟩ := List.forall_mem_cons.1 h
    rw [List.flatMap_cons, List.append_assoc,
      headers?_cons (Line.empty_headerLine hx _) (Line.header_headerLine hx _), ih hhs,
      Option.map_some]

lemma body?_append {hs : List Header} {b : Bytes} (h : Header.contentLength? hs = some b.length)
    (r : Bytes) : body? hs (b ++ r) = some (b, r) := by
  rw [body?, h]
  simp

end Reply

/-! ### Responses that say where they end -/

lemma Entity.eq_atHand {e : Entity} (h : e.isStreaming = false)
    (sent : List (Except EntityError Bytes)) :
    e.channel? = none ∧ e.length = e.atHand.length ∧ e.bytes sent = e.atHand ∧
      e.outcome sent = .ok () := by
  cases e with
  | streaming c => cases h
  | _ => exact ⟨rfl, rfl, rfl, rfl⟩

namespace Response

def statusText (v : Version) (s : Status) : Bytes :=
  v.token ++ [32] ++ utf8 (decimal s.value) ++ [32] ++ utf8 s.name.text

/-- What a client is to make of a response whose body is at hand. -/
def reply (r : Response) (v : Version) : Reply where
  line := statusText v r.status
  headers := r.headers
  body := r.entity.atHand

/-- A response that says where it ends, in fields within the limits. -/
structure Delimited (l : Limits) (r : Response) : Prop where
  name_ascii : Ascii r.status.name.text
  name_lineEnd : ¬ ['\r', '\n'] <:+: r.status.name.text
  headers : ∀ h ∈ r.headers, h.Fits l
  atHand : r.entity.isStreaming = false
  length : Header.contentLength? r.headers = some r.entity.atHand.length

lemma unbroken_statusText {v : Version} {s : Status} (hascii : Ascii s.name.text)
    (hend : ¬ ['\r', '\n'] <:+: s.name.text) : Unbroken (statusText v s) := by
  have hcode : ¬ ['\r', '\n'] <:+: decimal s.value := Framing.not_lineEnd_inside fun h =>
    absurd (isDigit_of_mem_decimal h) (by decide)
  have hsplit : statusText v s =
      v.token ++ 32 :: (utf8 (decimal s.value) ++ 32 :: utf8 s.name.text) := by
    simp [statusText]
  rw [hsplit, unbroken_append_cons (by decide) (by decide),
    unbroken_append_cons (by decide) (by decide)]
  exact ⟨unbroken_token v, unbroken_utf8 (ascii_decimal s.value) hcode, unbroken_utf8 hascii hend⟩

lemma wire_of_atHand {r : Response} (h : r.entity.isStreaming = false) (v : Version)
    (sent : List (Except EntityError Bytes)) :
    r.wire v sent = encodeHead v r.status r.headers ++ r.entity.atHand := by
  obtain ⟨-, -, hbytes, -⟩ := Entity.eq_atHand h sent
  rw [wire, hbytes]

/-- **One response** is read in front of whatever follows it. -/
lemma Delimited.read? {l : Limits} {r : Response} (h : r.Delimited l) (v : Version)
    (sent : List (Except EntityError Bytes)) (rest : Bytes) :
    Reply.read? l (r.wire v sent ++ rest) = some (r.reply v, rest) := by
  have hsplit : r.wire v sent ++ rest = statusText v r.status ++ crlf ++
      (r.headers.flatMap headerLine ++ (crlf ++ (r.entity.atHand ++ rest))) := by
    rw [wire_of_atHand h.atHand]
    simp [encodeHead, statusLine, statusText]
  rw [hsplit, Reply.read?,
    Reply.line?_append (unbroken_statusText h.name_ascii h.name_lineEnd)]
  simp only [Reply.headers?_append h.headers, Reply.body?_append h.length]
  rfl

end Response

namespace Reply

variable {l : Limits}

/-- Responses behind one another are read one after the other, and nothing is left over. -/
lemma all?_wires {ms : List Transfer.Delivered} (h : ∀ m ∈ ms, m.response.Delimited l) :
    all? l (ms.flatMap Transfer.Delivered.wire) =
      some (ms.map fun m => m.response.reply m.version) := by
  induction ms with
  | nil => rw [List.flatMap_nil, all?, if_pos rfl, List.map_nil]
  | cons m ms ih =>
    obtain ⟨hm, hms⟩ := List.forall_mem_cons.1 h
    have hread : read? l (m.wire ++ ms.flatMap Transfer.Delivered.wire) =
        some (m.response.reply m.version, ms.flatMap Transfer.Delivered.wire) :=
      hm.read? m.version m.sent _
    rw [List.flatMap_cons, List.map_cons, all?_cons hread, ih hms, Option.map_some]

end Reply

/-! ### The responses of this library -/

def Status.named : List Status :=
  [.ok, .created, .noContent, .badRequest, .notFound, .methodNotAllowed, .requestTimeout,
    .lengthRequired, .contentTooLarge, .uriTooLong, .requestHeaderFieldsTooLarge,
    .internalServerError, .notImplemented, .serviceUnavailable, .httpVersionNotSupported]

def mediaTypes : List Text := [textPlain, octetStream]

/-- A response without a body, or with one that is at hand and shorter than `2 ^ 63` bytes. -/
inductive Response.Made : Response → Prop
  | bodiless {s : Status} : s ∈ Status.named → Made (.bodiless s)
  | ok {mediaType : Text} {e : Entity} : mediaType ∈ mediaTypes → e.isStreaming = false →
      e.length < pastInt64 → Made (.ok mediaType e)

variable {l : Limits}

lemma Status.named_phrase {s : Status} (h : s ∈ named) :
    Ascii s.name.text ∧ ¬ ['\r', '\n'] <:+: s.name.text := by
  have hall : ∀ s ∈ named, Ascii s.name.text ∧ ¬ ['\r', '\n'] <:+: s.name.text := by
    decide +kernel
  exact hall s h

lemma Header.contentType_fits (hname : 14 ≤ l.headerName) (hvalue : 24 ≤ l.headerValue)
    {mediaType : Text} (h : mediaType ∈ mediaTypes) {x : Header}
    (hx : contentType mediaType = .ok x) : x.Fits l := by
  have hall : ∀ t ∈ mediaTypes, Ascii (trim t) ∧ ¬ ['\r', '\n'] <:+: trim t ∧
      (trim t).length ≤ 24 := by decide +kernel
  obtain ⟨hn, hv⟩ := make_eq_ok_iff.1 hx
  obtain ⟨hascii, hend, hlen⟩ := hall mediaType h
  rw [hv] at hascii hend hlen
  rw [contentTypeName.trim_eq] at hn
  exact {
    name_ascii := hn ▸ (by decide : Ascii contentTypeName.text)
    name_colon := hn ▸ (by decide : ':' ∉ contentTypeName.text)
    name_le := hn ▸ Nat.le_trans (by decide : contentTypeName.text.length ≤ 14) hname
    name_lt := hn ▸ Framing.lt_pastInt64_of_le (by decide : contentTypeName.text.length ≤ 24)
    value_ascii := hascii
    value_lineEnd := hend
    value_le := Nat.le_trans hlen hvalue
    value_lt := Framing.lt_pastInt64_of_le hlen }

/-- **They say where they end.** -/
lemma Response.Made.delimited (hname : 14 ≤ l.headerName) (hvalue : 24 ≤ l.headerValue)
    {r : Response} (h : r.Made) : r.Delimited l := by
  have hlength : ∀ {n : Nat}, n < pastInt64 → (Header.contentLength n).Fits l := fun hn =>
    Header.contentLength_fits hname (Nat.le_trans (by decide) hvalue)
      (Nat.lt_trans hn (by decide +kernel))
  cases h with
  | @bodiless s hs =>
    obtain ⟨hascii, hend⟩ := Status.named_phrase hs
    have hzero : 0 < pastInt64 := by decide +kernel
    refine ⟨hascii, hend, fun x hx => ?_, rfl, ?_⟩
    · rw [List.mem_singleton.1 hx]
      exact hlength hzero
    · exact (Header.contentLength?_cons_contentLength 0 []).trans (if_pos hzero)
  | @ok mediaType e ht he hn =>
    obtain ⟨hascii, hend⟩ := Status.named_phrase (s := .ok) (List.mem_cons_self ..)
    refine ⟨hascii, hend, fun x hx => ?_, he, ?_⟩
    · rcases List.mem_cons.1 hx with rfl | hx
      · exact hlength hn
      · rcases hc : Header.contentType mediaType with _ | y <;> rw [hc] at hx
        · cases hx
        · rw [List.mem_singleton.1 hx]
          exact Header.contentType_fits hname hvalue ht hc
    · obtain ⟨-, hsame, -⟩ := Entity.eq_atHand he []
      exact (Header.contentLength?_cons_contentLength e.length _).trans
        ((if_pos hn).trans (congrArg some hsame))

/-! ### Writing them -/

namespace Writer

variable {sink : Sink} {v : Version} {r : Response}

lemma isSome_run_none (w : Writer) : (w.run none).2.isSome := by
  generalize hb : (none : Option Channel) = body
  fun_induction run w body with
  | case1 w body w' body' hs _ ih =>
    refine ih ?_
    rcases body_of_step (.inl hs) with hbody | ⟨c, hc, -⟩
    · rw [hbody, hb]
    · cases hb.trans hc
  | case2 w body w' body' hs _ ih =>
    refine ih ?_
    rcases body_of_step (.inr hs) with hbody | ⟨c, hc, -⟩
    · rw [hbody, hb]
    · cases hb.trans hc
  | case3 w body hs =>
    have hcomes := w.step_comes body
    rw [hs] at hcomes
    cases hcomes with
    | onward _ _ hs => simp at hs
    | pending _ hc => cases hb.trans hc
  | case4 => rfl

lemma behaviour_run (w : Writer) (body : Option Channel) :
    (w.run body).1.sink.behaviour = w.sink.behaviour := by
  fun_induction run w body with
  | case1 w body w' body' hs _ ih => exact ih.trans (behaviour_step (congrArg Step.next? hs))
  | case2 w body w' body' hs _ ih => exact ih.trans (behaviour_step (congrArg Step.next? hs))
  | case3 => rfl
  | case4 w body w' result hs => exact behaviour_step (congrArg Step.next? hs)

lemma write_atHand (h : sink.behaviour.Faultless) (hr : r.entity.isStreaming = false) :
    ∃ w, write sink [] v r = (w, some (.ok ())) ∧ w.sink.behaviour = sink.behaviour := by
  have hsome : (write sink [] v r).2.isSome := by
    rw [write, (Entity.eq_atHand hr []).1]
    exact isSome_run_none _
  have hbehaviour : (write sink [] v r).1.sink.behaviour = sink.behaviour := behaviour_run ..
  obtain ⟨n, hn⟩ := Transfer.write_eq sink [] v r
  have hturns : ∀ turn ∈ List.replicate n (Transfer.Turn.writer sink.behaviour), turn.Faultless :=
    fun turn hturn => (List.eq_of_mem_replicate hturn) ▸ h
  have hstands := Transfer.stands_run sink v r (.replicate n (.writer sink.behaviour))
  have hnever := Transfer.not_broken_run (t := .start sink [] v r) hturns (by simp [Transfer.start])
  rw [hn] at hsome hbehaviour ⊢
  generalize (Transfer.start sink [] v r).run _ = t at hsome hbehaviour hstands hnever
  obtain ⟨result, hresult⟩ : ∃ result, t.result = some result := Option.isSome_iff_exists.1 hsome
  refine ⟨t.writer, ?_, hbehaviour⟩
  rcases hstands.ended hresult with ⟨why, rfl⟩ | ⟨houtcome, -⟩
  · exact absurd hresult (hnever why)
  · rw [hresult, houtcome, (Entity.eq_atHand hr t.sent).2.2.2]

/-- Writes responses one after the other through one buffer, as long as they get out. -/
def writeAll (sink : Sink) (buffer : Bytes) : List (Version × Response) → Option (Sink × Bytes)
  | [] => some (sink, buffer)
  | (v, r) :: rs =>
    match write sink buffer v r with
    | (w, some (.ok ())) => writeAll w.sink w.buffer rs
    | (_, some (.error _)) => none
    | (_, none) => none

lemma follow_of_writeAll {buffer buffer' : Bytes} {sink' : Sink} {rs : List (Version × Response)}
    (h : writeAll sink buffer rs = some (sink', buffer')) :
    ∃ ms, Transfer.Follow sink buffer ms sink' buffer' ∧
      ms.map (fun m => (m.version, m.response)) = rs := by
  fun_induction writeAll sink buffer rs with
  | case1 sink buffer =>
    obtain ⟨rfl, rfl⟩ := Prod.mk.inj (Option.some.inj h)
    exact ⟨[], .nil, rfl⟩
  | case2 sink buffer v r rs w hw ih =>
    obtain ⟨ms, hms, rfl⟩ := ih h
    obtain ⟨n, hn⟩ := Transfer.write_eq sink buffer v r
    obtain ⟨rfl, hresult⟩ := Prod.mk.inj (hw.symm.trans hn)
    exact ⟨_ :: ms, .cons rfl hresult.symm hms, rfl⟩
  | _ => cases h

lemma writeAll_isSome {rs : List (Version × Response)} (h : sink.behaviour.Faultless)
    (hrs : ∀ p ∈ rs, p.2.entity.isStreaming = false) : (writeAll sink [] rs).isSome := by
  induction rs generalizing sink with
  | nil => rfl
  | cons p rs ih =>
    obtain ⟨v, r⟩ := p
    obtain ⟨hr, hrs⟩ := List.forall_mem_cons.1 hrs
    obtain ⟨w, hw, hbehaviour⟩ := write_atHand (v := v) h hr
    obtain ⟨n, hn⟩ := Transfer.write_eq sink [] v r
    obtain ⟨hwriter, hresult⟩ := Prod.mk.inj (hw.symm.trans hn)
    have hbuffer := (Transfer.exact_run sink v r _).ok hresult.symm
    simp only [writeAll, hw]
    rw [hwriter, hbuffer.2.2, ← hwriter]
    exact ih (hbehaviour ▸ h) hrs

end Writer

lemma Transfer.Follow.all? (hname : 14 ≤ l.headerName) (hvalue : 24 ≤ l.headerValue)
    {sink sink' : Sink} {buffer : Bytes} {ms : List Transfer.Delivered}
    (h : Follow sink [] ms sink' buffer) (hms : ∀ m ∈ ms, m.response.Made) :
    buffer = [] ∧ ∃ w, sink'.output = sink.output ++ w ∧
      Reply.all? l w = some (ms.map fun m => m.response.reply m.version) := by
  obtain ⟨hout, hbuffer⟩ := h.output rfl
  exact ⟨hbuffer, _, hout, Reply.all?_wires fun m hm => (hms m hm).delimited hname hvalue⟩

/-- **Responses on a connection that is kept alive delimit themselves.** Responses of this library
that have been written one after the other through one buffer, however the sink took the bytes, are
read back from what was written: their status lines, headers and bodies, in order, with nothing left
over. And a sink that does not fail takes them all. -/
theorem Reply.all?_follow {l : Limits} (hname : 14 ≤ l.headerName) (hvalue : 24 ≤ l.headerValue) :
    (∀ (sink sink' : Sink) (buffer : Bytes) (ms : List Transfer.Delivered),
      Transfer.Follow sink [] ms sink' buffer → (∀ m ∈ ms, m.response.Made) →
        buffer = [] ∧ ∃ w, sink'.output = sink.output ++ w ∧
          Reply.all? l w = some (ms.map fun m => m.response.reply m.version)) ∧
    ∀ (sink : Sink) (rs : List (Version × Response)),
      sink.behaviour.Faultless → (∀ p ∈ rs, p.2.Made) →
        ∃ sink' w, Writer.writeAll sink [] rs = some (sink', []) ∧
          sink'.output = sink.output ++ w ∧
          Reply.all? l w = some (rs.map fun p => p.2.reply p.1) := by
  refine ⟨fun _ _ _ _ h hms => h.all? hname hvalue hms, fun sink rs hf hrs => ?_⟩
  obtain ⟨⟨sink', buffer⟩, hwrite⟩ := Option.isSome_iff_exists.1
    (Writer.writeAll_isSome hf fun p hp => ((hrs p hp).delimited hname hvalue).atHand)
  obtain ⟨ms, hms, rfl⟩ := Writer.follow_of_writeAll hwrite
  obtain ⟨rfl, w, hout, hall⟩ := hms.all? hname hvalue fun m hm =>
    hrs (m.version, m.response) (List.mem_map_of_mem hm)
  exact ⟨sink', w, hwrite, hout, by rw [hall, List.map_map]; rfl⟩

/-- A body that looks like the end of a head, and a response behind it, to a sink that takes one
byte at a time and puts each of them off once. -/
theorem Reply.all?_emptyLines :
    14 ≤ Limits.default.headerName ∧ 24 ≤ Limits.default.headerValue ∧
      ∃ sink' w, Writer.writeAll (.ofBehaviour ⟨some 1, none, none, none, none, true⟩) []
          [(.http11, .ok textPlain (.strict [13, 10, 13, 10])), (.http10, .bodiless .notFound)] =
            some (sink', []) ∧
        sink'.output = w ∧ Reply.all? .default w = some
          [⟨Response.statusText .http11 .ok,
              [.contentLength 4, ⟨Header.contentTypeName, ⟨textPlain, by decide, by decide⟩⟩],
              [13, 10, 13, 10]⟩,
            ⟨Response.statusText .http10 .notFound, [.contentLength 0], []⟩] := by
  refine ⟨by decide, by decide, ?_⟩
  have hmade : ∀ p ∈ [(Version.http11, Response.ok textPlain (.strict [13, 10, 13, 10])),
      (Version.http10, Response.bodiless .notFound)], p.2.Made := by
    intro p hp
    rcases List.mem_cons.1 hp with rfl | hp
    · exact .ok (List.mem_cons_self ..) rfl (by decide +kernel)
    · rw [List.mem_singleton.1 hp]
      exact .bodiless (by decide)
  exact (Reply.all?_follow (l := .default) (by decide) (by decide)).2
    (.ofBehaviour ⟨some 1, none, none, none, none, true⟩) _
    ⟨by simp [Sink.ofBehaviour], rfl, rfl, rfl⟩ hmade

end Http1
