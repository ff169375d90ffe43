import Http1.Proofs.Grammar
import Http1.Proofs.Delimited
import Http1.Response.Head

/-!
Requests that are written and read back.

A request is written as its fields with their separators, its headers in the form of a response
head, and its body. The conditions are on the fields alone: ASCII, none with the separator behind
it, all within the limits. Main statement: requests written one behind the other are read as their
messages, wherever the bytes are cut, and nothing is left over.

Text is written in UTF-8 and read one character per byte, which agrees on ASCII. A header never
looks like the empty line since a name does not begin with a blank.
-/

namespace Http1

/-! ### ASCII -/

def Ascii (t : Text) : Prop := ∀ c ∈ t, c.toNat < 128

instance (t : Text) : Decidable (Ascii t) := List.decidableBAll (fun c : Char => c.toNat < 128) t

lemma utf8EncodeChar_ascii {c : Char} (h : c.toNat < 128) :
    (String.utf8EncodeChar c).map Char.ofUInt8 = [c] := by
  have hsize : c.utf8Size = 1 := by
    rw [Char.utf8Size_eq_one_iff, UInt32.le_iff_toNat_le]
    exact Nat.le_of_lt_succ h
  rw [String.utf8EncodeChar_eq_singleton hsize, List.map_singleton, List.singleton_inj]
  refine Char.toNat_inj.1 ?_
  rw [toNat_ofUInt8]
  exact Nat.mod_eq_of_lt (Nat.lt_trans h (by decide))

lemma latin1_utf8 {t : Text} (h : Ascii t) : latin1 (utf8 t) = t := by
  induction t with
  | nil => rfl
  | cons c t ih =>
    obtain ⟨hc, ht⟩ := List.forall_mem_cons.1 h
    have hcons : utf8 (c :: t) = String.utf8EncodeChar c ++ utf8 t := rfl
    rw [hcons, latin1, List.map_append, utf8EncodeChar_ascii hc]
    exact congrArg (c :: ·) (ih ht)

lemma length_utf8 {t : Text} (h : Ascii t) : (utf8 t).length = t.length := by
  rw [← length_latin1, latin1_utf8 h]

lemma size_le_of_lt {n k : Nat} (hn : n < pastInt64) (hk : k ≤ 2) : n + k ≤ maxSize := by
  have hbound : pastInt64 + 2 ≤ maxSize := by decide
  omega

lemma field_utf8 {t : Text} {k : Nat} {x : UInt8} (h : Ascii t) (hx : Char.ofUInt8 x ∉ t)
    (hk : t.length ≤ k) (hmax : t.length < pastInt64) : Field [x] k (utf8 t) where
  clears := clears_singleton_iff.2 fun hmem => hx (by
    rw [← latin1_utf8 h]
    exact List.mem_map_of_mem hmem)
  length_le := by rwa [length_utf8 h]
  size_le := by
    rw [length_utf8 h]
    exact size_le_of_lt hmax (by simp)

lemma unbroken_utf8 {t : Text} (h : Ascii t) (hx : ¬ ['\r', '\n'] <:+: t) : Unbroken (utf8 t) :=
  fun hin => hx (by
    rw [← latin1_utf8 h]
    exact hin.map Char.ofUInt8)

lemma field_crlf_utf8 {t : Text} {k : Nat} (h : Ascii t) (hx : ¬ ['\r', '\n'] <:+: t)
    (hk : t.length ≤ k) (hmax : t.length < pastInt64) : Field crlf k (utf8 t) where
  clears := clears_crlf_iff.2 (unbroken_utf8 h hx)
  length_le := by rwa [length_utf8 h]
  size_le := by
    rw [length_utf8 h]
    exact size_le_of_lt hmax (by simp [crlf])

/-! ### A request in writing -/

def Method.ofTrimmed (t : Trimmed) : Method :=
  match Verb.ofName? t.text with
  | some v => .standard v
  | none => .custom t

lemma Method.ofToken?_text (t : Trimmed) : ofToken? t.text = some (ofTrimmed t) := by
  unfold ofToken? ofTrimmed
  rw [t.trim_eq]
  cases Verb.ofName? t.text with
  | some v => rfl
  | none => simp [custom?]

/-- A request, by the token of its method and the spelling of its target, with a body of the length
that its headers declare. -/
structure Written where
  method : Trimmed
  spelling : Bytes
  target : Target
  version : Version
  headers : List Header
  body : Bytes
  headers_ne : headers ≠ []
  length_body : body.length = (Header.contentLength? headers).getD 0

namespace Written

def line (w : Written) : RequestLine := ⟨.ofTrimmed w.method, w.target, w.version⟩

def message (w : Written) : Message where
  line := w.line
  headers := w.headers
  chunks := if w.body = [] then [] else [w.body]
  headers_ne := w.headers_ne
  chunks_ne := by
    split
    · exact List.not_mem_nil
    · rename_i h
      simpa using Ne.symm h
  length_chunks := by
    rw [← w.length_body]
    split <;> simp_all

def wire (w : Written) : Bytes :=
  Line.requestBytes (utf8 w.method.text) w.spelling w.version ++
    (w.headers.flatMap Response.headerLine ++ crlf) ++ w.body

def headBytes (w : Written) : Bytes :=
  Line.requestBytes (utf8 w.method.text) w.spelling w.version ++
    w.headers.flatMap Response.headerLine

end Written

/-- A header that is written within the limits, in characters that keep its fields apart. -/
structure Header.Fits (l : Limits) (h : Header) : Prop where
  name_ascii : Ascii h.name.text
  name_colon : ':' ∉ h.name.text
  name_le : h.name.text.length ≤ l.headerName
  name_lt : h.name.text.length < pastInt64
  value_ascii : Ascii h.value.text
  value_lineEnd : ¬ ['\r', '\n'] <:+: h.value.text
  value_le : h.value.text.length ≤ l.headerValue
  value_lt : h.value.text.length < pastInt64

structure Written.Fits (l : Lexicon) (w : Written) : Prop where
  method_ascii : Ascii w.method.text
  method_space : ' ' ∉ w.method.text
  method_le : w.method.text.length ≤ l.method
  method_lt : w.method.text.length < pastInt64
  spells : l.target? w.spelling = some w.target
  target_space : 32 ∉ w.spelling
  target_le : w.spelling.length ≤ l.target
  target_lt : w.spelling.length < pastInt64
  version_le : w.version.token.length ≤ l.version
  headers : ∀ h ∈ w.headers, h.Fits l

/-! ### One field after the other -/

namespace Line

variable {l : Lexicon}

lemma request_requestBytes {w : Written} (h : w.Fits l) (r : Bytes) :
    request l (requestBytes (utf8 w.method.text) w.spelling w.version ++ r) =
      .ok (.done w.line r) := by
  have hmethod : Field space l.method (utf8 w.method.text) :=
    field_utf8 h.method_ascii h.method_space h.method_le h.method_lt
  have htarget : Field space l.target w.spelling := by
    exact ⟨clears_singleton_iff.2 h.target_space, h.target_le,
      size_le_of_lt h.target_lt (by simp [space])⟩
  have hversion : Field crlf l.version w.version.token :=
    ⟨clears_crlf_iff.2 (unbroken_token w.version), h.version_le, by cases w.version <;> decide⟩
  refine request_eq_done_iff.2 ⟨_, _, rfl, ⟨hmethod, ?_⟩, ⟨htarget, h.spells⟩, hversion⟩
  rw [latin1_utf8 h.method_ascii, Method.ofToken?_text]
  rfl

lemma header_headerLine {l : Limits} {h : Header} (hf : h.Fits l) (r : Bytes) :
    header l (Response.headerLine h ++ r) = .ok (.done h r) := by
  have hbytes : Response.headerLine h = headerBytes (utf8 h.name.text) (utf8 h.value.text) := by
    simp [Response.headerLine, headerBytes, colon]
  rw [hbytes]
  refine header_eq_done_iff.2 ⟨_, _, rfl, ⟨?_, ?_⟩, ?_, ?_⟩
  · exact field_utf8 hf.name_ascii hf.name_colon hf.name_le hf.name_lt
  · rw [latin1_utf8 hf.name_ascii, h.name.trim_eq]
  · exact field_crlf_utf8 hf.value_ascii hf.value_lineEnd hf.value_le hf.value_lt
  · rw [latin1_utf8 hf.value_ascii, h.value.trim_eq]

lemma empty_headerLine {l : Limits} {h : Header} (hf : h.Fits l) (r : Bytes) :
    empty (Response.headerLine h ++ r) = .error .expectingEmptyLine := by
  obtain ⟨c, t, hname, hblank⟩ := h.name.exists_cons
  have hread := latin1_utf8 hf.name_ascii
  rw [hname] at hread
  rcases hbytes : utf8 (c :: t) with _ | ⟨x, bs⟩ <;> rw [hbytes] at hread
  · simp [latin1] at hread
  · obtain rfl : Char.ofUInt8 x = c := (List.cons.inj hread).1
    have hline : Response.headerLine h ++ r =
        x :: (bs ++ [58] ++ utf8 h.value.text ++ crlf ++ r) := by
      simp [Response.headerLine, hname, hbytes]
    rw [hline]
    unfold empty
    split
    · rename_i heq
      rw [(List.cons.inj heq).1] at hblank
      exact absurd hblank (by decide)
    · rename_i heq
      rw [(List.cons.inj heq).1] at hblank
      exact absurd hblank (by decide)
    · simp_all
    · rfl

end Line

namespace Framing

open Phase

variable {l : Lexicon}

lemma takes_requestLine {w : Written} (h : w.Fits l) (r : Bytes) :
    requestLine.Takes l (Line.requestBytes (utf8 w.method.text) w.spelling w.version ++ r)
      (.requestLine w.line) r :=
  Scanner.map_eq_done_iff.2 ⟨w.line, Line.request_requestBytes h r, rfl⟩

lemma map_header_headerLine {h : Header} (hf : h.Fits l) (r : Bytes) :
    (Line.header l).map Frame.header (Response.headerLine h ++ r) = .ok (.done (.header h) r) :=
  Scanner.map_eq_done_iff.2 ⟨h, Line.header_headerLine hf r, rfl⟩

lemma takes_header {h : Header} (hf : h.Fits l) (r : Bytes) :
    header.Takes l (Response.headerLine h ++ r) (.header h) r :=
  map_header_headerLine hf r

lemma takes_nextHeader {h : Header} (hf : h.Fits l) (hs : List Header) (r : Bytes) :
    (headerOrEnd hs).Takes l (Response.headerLine h ++ r) (.header h) r := by
  have hscan : (headerOrEnd hs).scan l (Response.headerLine h ++ r) =
      .ok (.done (.header h) r) := by
    simp only [scan, Line.empty_headerLine hf r]
    exact map_header_headerLine hf r
  exact hscan

/-- Headers are read in their order, whatever came before them and whatever follows. -/
lemma reading_headers {hs : List Header} (h : ∀ x ∈ hs, x.Fits l) (got : List Header) (r : Bytes) :
    reading l (headerOrEnd got) (hs.flatMap Response.headerLine ++ r) =
      (hs.map .header ++ (reading l (headerOrEnd (got ++ hs)) r).1,
        (reading l (headerOrEnd (got ++ hs)) r).2) := by
  induction hs generalizing got with
  | nil => rw [List.append_nil]; rfl
  | cons x hs ih =>
    obtain ⟨hx, hhs⟩ := List.forall_mem_cons.1 h
    rw [List.flatMap_cons, List.append_assoc, reading_takes (takes_nextHeader hx got _), Phase.next,
      ih hhs, List.append_assoc]
    rfl

lemma reading_body (w : Written) (r : Bytes) :
    reading l (headerOrEnd w.headers) (crlf ++ (w.body ++ r)) =
      (w.message.entityFrames ++ .entityEnd :: (reading l requestLine r).1,
        (reading l requestLine r).2) := by
  have hend : (headerOrEnd w.headers).Takes l (crlf ++ (w.body ++ r)) (endOfHead w.headers)
    (w.body ++ r) := rfl
  have hlength : w.message.length = w.body.length := w.length_body.symm
  rw [reading_takes hend, Message.entityFrames, hlength]
  rcases endOfHead_eq w.headers with ⟨h, hlen⟩ | ⟨n, hn, h, hlen⟩ <;> rw [h]
  · have hbody : w.body = [] :=
      List.eq_nil_of_length_eq_zero (w.length_body.trans hlen)
    rw [hbody]
    rfl
  · obtain rfl : w.body.length = n := by rw [w.length_body, hlen, Option.getD_some]
    have hne : w.body ≠ [] := List.length_pos_iff.1 hn
    have hchunk : (entity w.body.length hn).Takes l (w.body ++ r) (.entityChunk w.body) r :=
      ⟨w.body, rfl, hne, Nat.le_refl _, rfl⟩
    have hdone : entityEnd.Takes l r .entityEnd r := rfl
    have hnext : (entity w.body.length hn).next (.entityChunk w.body) = entityEnd := by
      rw [Phase.next, Nat.sub_self, outstanding_zero]
    have hstart : (headerOrEnd w.headers).next (.entityStart w.body.length) =
      entity w.body.length hn := outstanding_pos hn
    have hchunks : w.message.chunks = [w.body] := if_neg hne
    rw [hstart, reading_takes hchunk, hnext, reading_takes hdone, if_pos hn, hchunks]
    rfl

lemma reading_headBytes {w : Written} (h : w.Fits l) (r : Bytes) :
    reading l requestLine (w.headBytes ++ r) =
      (Message.headFrames w.line w.headers ++ (reading l (headerOrEnd w.headers) r).1,
        (reading l (headerOrEnd w.headers) r).2) := by
  obtain ⟨x, hs, hheaders⟩ := List.exists_cons_of_ne_nil w.headers_ne
  have hfits := h.headers
  rw [hheaders] at hfits
  obtain ⟨hx, hhs⟩ := List.forall_mem_cons.1 hfits
  have hbytes : w.headBytes ++ r = Line.requestBytes (utf8 w.method.text) w.spelling w.version ++
      (Response.headerLine x ++ (hs.flatMap Response.headerLine ++ r)) := by
    simp [Written.headBytes, hheaders]
  have hgot : [x] ++ hs = w.headers := hheaders.symm
  rw [hbytes, reading_takes (takes_requestLine h _), Phase.next, reading_takes (takes_header hx _),
    Phase.next, reading_headers hhs, hgot]
  simp [Run.glue, Frame.glue, Message.headFrames, hheaders]

/-- **One request**: it is read as its message, in front of what the bytes behind it are read
as. -/
lemma reading_wire {w : Written} (h : w.Fits l) (r : Bytes) :
    reading l requestLine (w.wire ++ r) =
      (w.message.frames ++ (reading l requestLine r).1, (reading l requestLine r).2) := by
  have hwire : w.wire ++ r = w.headBytes ++ (crlf ++ (w.body ++ r)) := by
    simp [Written.wire, Written.headBytes]
  have hline : w.message.line = w.line := rfl
  have hheaders : w.message.headers = w.headers := rfl
  rw [hwire, reading_headBytes h, reading_body]
  simp [Message.frames, hline, hheaders]

lemma reading_wires {ws : List Written} (h : ∀ w ∈ ws, w.Fits l) :
    reading l requestLine (ws.flatMap Written.wire) =
      (ws.flatMap fun w => w.message.frames, .ok (init l)) := by
  induction ws with
  | nil =>
    rw [List.flatMap_nil, reading_of_build (build_init l), drain_of_none rfl]
    rfl
  | cons w ws ih =>
    obtain ⟨hw, hws⟩ := List.forall_mem_cons.1 h
    rw [List.flatMap_cons, reading_wire hw, ih hws, List.flatMap_cons]

/-- **Requests that are written read back**: in whatever pieces their bytes come, the frames are
those of their messages in order, up to the cuts inside a body, and the framing waits for the next
request with nothing in hand. -/
theorem play_wires {ws : List Written} {s : List Piece} (h : ∀ w ∈ ws, w.Fits l)
    (hs : total s = ws.flatMap Written.wire) :
    ((init l).play s).merge = (ws.flatMap fun w => w.message.frames, .ok (init l)) := by
  rw [merge_play, hs]
  exact reading_wires h

def putWritten : Written where
  method := ⟨"PUT".toList, by decide, by decide⟩
  spelling := [42]
  target := .asterisk
  version := .http11
  headers := [.contentLength 2]
  body := [97, 98]
  headers_ne := List.cons_ne_nil _ _
  length_body := rfl

def askWritten : Written where
  method := ⟨"ask".toList, by decide, by decide⟩
  spelling := [42]
  target := .asterisk
  version := .http10
  headers := [⟨⟨"a\r\nb".toList, by decide, by decide⟩, ⟨"c:\rd".toList, by decide, by decide⟩⟩]
  body := []
  headers_ne := List.cons_ne_nil _ _
  length_body := rfl

lemma lt_pastInt64_of_le {n : Nat} (h : n ≤ 24) : n < pastInt64 :=
  have hbound : 24 < pastInt64 := by decide +kernel
  Nat.lt_of_le_of_lt h hbound

lemma not_lineEnd_inside {t : Text} (h : '\n' ∉ t) : ¬ ['\r', '\n'] <:+: t :=
  fun hin => h (hin.subset (by decide))

def snug : Lexicon := (Limits.mk 14 4 3 1 8).lexicon

lemma header_fits {h : Header} (hmem : h ∈ putWritten.headers ++ askWritten.headers) :
    h.Fits snug := by
  rcases hmem with _ | ⟨_, _ | ⟨_, hmem⟩⟩
  iterate 2
    exact ⟨by decide, by decide, by decide, lt_pastInt64_of_le (by decide), by decide,
      not_lineEnd_inside (by decide), by decide, lt_pastInt64_of_le (by decide)⟩
  exact absurd hmem List.not_mem_nil

lemma putAsk_fits : ∀ w ∈ [putWritten, askWritten], w.Fits snug := by
  rintro w (_ | ⟨_, _ | ⟨_, hw⟩⟩)
  · exact ⟨by decide, by decide, by decide, lt_pastInt64_of_le (by decide), rfl, by decide,
      by decide, lt_pastInt64_of_le (by decide), by decide,
      fun h hmem => header_fits (List.mem_append_left _ hmem)⟩
  · exact ⟨by decide, by decide, by decide, lt_pastInt64_of_le (by decide), rfl, by decide,
      by decide, lt_pastInt64_of_le (by decide), by decide,
      fun h hmem => header_fits (List.mem_append_right _ hmem)⟩
  · exact absurd hw List.not_mem_nil

theorem play_wires_putAsk :
    (∀ w ∈ [putWritten, askWritten], w.Fits snug) ∧
      total [⟨.waiting, putWritten.wire.dropLast⟩, ⟨.atOnce, 98 :: askWritten.wire⟩] =
        [putWritten, askWritten].flatMap Written.wire ∧
      ((init snug).play
        [⟨.waiting, putWritten.wire.dropLast⟩, ⟨.atOnce, 98 :: askWritten.wire⟩]).merge =
        ([putWritten, askWritten].flatMap fun w => w.message.frames, .ok (init snug)) := by
  have htotal : total [⟨.waiting, putWritten.wire.dropLast⟩, ⟨.atOnce, 98 :: askWritten.wire⟩] =
      [putWritten, askWritten].flatMap Written.wire := by decide
  exact ⟨putAsk_fits, htotal, play_wires putAsk_fits htotal⟩

end Framing

end Http1
