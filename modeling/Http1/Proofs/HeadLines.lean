import Http1.Proofs.Occurrences
import Http1.Proofs.SelfDelimiting

/-!
The lines of a response head.

A status and a header are trimmed, but they hold line ends inside if they were given any: nothing
looks for them, and nothing is escaped. Main statement: a head has a line end for its status, for
each header, and for its own end, and one more for each in a field; and it has one empty line, and
one more for each in a field. So it is fields without line ends that stand in lines of their own,
with the empty line at the end and nowhere else.
-/

namespace Http1

/-! ### Trimmed fields between line ends -/

lemma Trimmed.exists_concat (s : Trimmed) : ∃ t c, s.text = t ++ [c] ∧ isBlank c = false := by
  obtain ⟨text, hne, htrim⟩ := s
  -- read backwards, the end of the text is the start of a trimmed one
  have hreverse : text.reverse = trimStart (trimStart text).reverse := by
    rw [← List.reverse_inj, List.reverse_reverse]
    exact htrim.symm
  rcases hr : text.reverse with _ | ⟨c, r⟩
  · exact absurd (List.reverse_eq_nil_iff.1 hr) hne
  · refine ⟨r.reverse, c, by rw [← List.reverse_cons, ← hr, List.reverse_reverse], ?_⟩
    have hhead := List.head?_dropWhile_not isBlank (trimStart text).reverse
    rw [← trimStart, ← hreverse, hr] at hhead
    exact hhead

/-- The first byte and the last are none of a line end. -/
structure Sealed (t : Bytes) : Prop where
  head : ∃ x ∈ t.head?, x ∉ crlf
  last : ∃ x ∈ t.getLast?, x ∉ crlf

lemma Sealed.append {a b : Bytes} (ha : Sealed a) (hb : Sealed b) (m : Bytes) :
    Sealed (a ++ m ++ b) where
  head := by
    obtain ⟨x, hx, hnot⟩ := ha.head
    refine ⟨x, ?_, hnot⟩
    rw [List.append_assoc, List.head?_append, Option.mem_def.1 hx]
    rfl
  last := by
    obtain ⟨x, hx, hnot⟩ := hb.last
    refine ⟨x, ?_, hnot⟩
    rw [List.getLast?_append, Option.mem_def.1 hx]
    rfl

lemma notMem_crlf_of_mem_utf8EncodeChar {c : Char} (hc : isBlank c = false) {x : UInt8}
    (hx : x ∈ String.utf8EncodeChar c) : x ∉ crlf := by
  intro hmem
  have hlow : x.toNat = 13 ∨ x.toNat = 10 := by
    simp only [crlf, List.mem_cons, List.not_mem_nil, or_false] at hmem
    rcases hmem with rfl | rfl
    · exact .inl rfl
    · exact .inr rfl
  by_cases hascii : c.toNat < 128
  · rw [utf8EncodeChar_of_lt hascii, List.mem_singleton] at hx
    rw [hx, toNat_ofNat_of_lt hascii] at hlow
    rcases hlow with h | h <;> simp [isBlank, h] at hc
  · have hbeyond := le_of_mem_utf8EncodeChar (Nat.le_of_not_lt hascii) hx
    omega

lemma sealed_utf8 (s : Trimmed) : Sealed (utf8 s.text) where
  head := by
    obtain ⟨c, t, ht, hc⟩ := s.exists_cons
    obtain ⟨x, xs, hx⟩ := List.exists_cons_of_ne_nil (String.utf8EncodeChar_ne_nil (c := c))
    refine ⟨x, ?_, notMem_crlf_of_mem_utf8EncodeChar hc (by rw [hx]; exact List.mem_cons_self)⟩
    rw [ht, utf8_cons, hx]
    rfl
  last := by
    obtain ⟨t, c, ht, hc⟩ := s.exists_concat
    have hne := String.utf8EncodeChar_ne_nil (c := c)
    refine ⟨_, ?_, notMem_crlf_of_mem_utf8EncodeChar hc (List.getLast_mem hne)⟩
    rw [ht, utf8_append, utf8_cons, utf8_nil, List.append_nil, List.getLast?_append,
      List.getLast?_eq_some_getLast hne]
    rfl

/-! ### Lines -/

lemma sum_occurrences_eq_zero_iff {α : Type} [DecidableEq α] {p : List α} (hp : p ≠ [])
    {ts : List (List α)} : (ts.map (occurrences p)).sum = 0 ↔ ∀ t ∈ ts, ¬ p <:+: t := by
  induction ts with
  | nil => simp
  | cons t ts ih =>
    rw [List.map_cons, List.sum_cons, Nat.add_eq_zero_iff, occurrences_eq_zero_iff hp, ih,
      List.forall_mem_cons]

section

variable {p t a b : Bytes}

/-- Nothing made of line ends lies across the end of a sealed line. -/
lemma Sealed.occurrences_append (h : Sealed a) (hp : p ⊆ crlf) (b : Bytes) :
    occurrences p (a ++ b) = occurrences p a + occurrences p b := by
  obtain ⟨y, hy, hnot⟩ := h.last
  exact occurrences_append_of_last fun x hx hmem => hnot (Option.mem_unique hx hy ▸ hp hmem)

lemma Sealed.occurrences_prepend (h : Sealed b) (hp : p ⊆ crlf) (a r : Bytes) :
    occurrences p (a ++ (b ++ r)) = occurrences p a + occurrences p (b ++ r) := by
  obtain ⟨y, hy, hnot⟩ := h.head
  have hhead : y ∈ (b ++ r).head? := by
    rw [List.head?_append, Option.mem_def.1 hy]
    rfl
  exact occurrences_append_of_head fun x hx hmem => hnot (Option.mem_unique hx hhead ▸ hp hmem)

/-- In sealed lines, occurrences are within the lines, or else those of the line ends. -/
lemma occurrences_lines (hp : p ⊆ crlf) {ts : List Bytes} (h : ∀ u ∈ t :: ts, Sealed u) :
    occurrences p ((t :: ts).flatMap (· ++ crlf) ++ crlf) =
      ((t :: ts).map (occurrences p)).sum + ts.length * occurrences p crlf +
        occurrences p (crlf ++ crlf) := by
  induction ts generalizing t with
  | nil =>
    obtain ⟨ht, -⟩ := List.forall_mem_cons.1 h
    simpa using ht.occurrences_append hp (crlf ++ crlf)
  | cons u ts ih =>
    obtain ⟨ht, hts⟩ := List.forall_mem_cons.1 h
    have hu := hts u List.mem_cons_self
    have hsplit : (t :: u :: ts).flatMap (· ++ crlf) ++ crlf =
        (t ++ crlf) ++ (u ++ (crlf ++ (ts.flatMap (· ++ crlf) ++ crlf))) := by simp
    have hrest : u ++ (crlf ++ (ts.flatMap (· ++ crlf) ++ crlf)) =
        (u :: ts).flatMap (· ++ crlf) ++ crlf := by simp
    rw [hsplit, hu.occurrences_prepend hp, ht.occurrences_append hp, hrest, ih hts]
    simp only [List.map_cons, List.sum_cons, List.length_cons, Nat.succ_mul]
    omega

end

namespace Response

def headerText (h : Header) : Bytes := utf8 h.name.text ++ [58] ++ utf8 h.value.text

def headLines (v : Version) (s : Status) (hs : List Header) : List Bytes :=
  statusText v s :: hs.map headerText

def fields (s : Status) (hs : List Header) : List Text :=
  s.name.text :: hs.flatMap fun h => [h.name.text, h.value.text]

variable {v : Version} {s : Status} {hs : List Header} {p : Bytes} {q : Text}

lemma encodeHead_eq (v : Version) (s : Status) (hs : List Header) :
    encodeHead v s hs = (headLines v s hs).flatMap (· ++ crlf) ++ crlf := by
  rw [headLines, List.flatMap_cons, List.flatMap_map]
  rfl

lemma sealed_headLines {t : Bytes} (ht : t ∈ headLines v s hs) : Sealed t := by
  rcases List.mem_cons.1 ht with rfl | ht
  · have hversion : Sealed v.token := by
      cases v <;> exact ⟨⟨_, rfl, by decide⟩, ⟨_, rfl, by decide⟩⟩
    have hsplit : statusText v s =
        v.token ++ ([32] ++ utf8 (decimal s.value) ++ [32]) ++ utf8 s.name.text := by
      simp [statusText]
    rw [hsplit]
    exact hversion.append (sealed_utf8 s.name) _
  · obtain ⟨h, -, rfl⟩ := List.mem_map.1 ht
    exact (sealed_utf8 h.name).append (sealed_utf8 h.value) _

lemma return_notMem_decimal (n : Nat) : 13 ∉ utf8 (decimal n) := by
  intro h
  obtain ⟨c, hc, hbyte⟩ := List.mem_flatMap.1 h
  have hascii := ascii_decimal n c hc
  rw [utf8EncodeChar_of_lt hascii, List.mem_singleton] at hbyte
  have hnat := congrArg UInt8.toNat hbyte
  rw [toNat_ofNat_of_lt hascii] at hnat
  obtain rfl : '\r' = c := Char.toNat_inj.1 hnat
  exact absurd (isDigit_of_mem_decimal hc) (by decide)

lemma occurrences_statusText (hp : p ⊆ crlf) (hreturn : 13 ∈ p) (v : Version) (s : Status) :
    occurrences p (statusText v s) = occurrences p (utf8 s.name.text) := by
  have hversion : 13 ∉ v.token := by cases v <;> decide
  have hnone : 13 ∉ v.token ++ [32] ++ utf8 (decimal s.value) ++ [32] := by
    simp [hversion, return_notMem_decimal]
  have hlast : ∀ x ∈ (v.token ++ [32] ++ utf8 (decimal s.value) ++ [32]).getLast?, x ∉ p := by
    rw [List.getLast?_concat]
    rintro x ⟨⟩ hmem
    exact absurd (hp hmem) (by decide)
  rw [statusText, occurrences_append_of_last hlast, occurrences_of_notMem hreturn hnone,
    Nat.zero_add]

lemma occurrences_headerText (hp : p ⊆ crlf) (hreturn : 13 ∈ p) (h : Header) :
    occurrences p (headerText h) =
      occurrences p (utf8 h.name.text) + occurrences p (utf8 h.value.text) := by
  have hcolon : occurrences p [58] = 0 := occurrences_of_notMem hreturn (by decide)
  rw [headerText, List.append_assoc, (sealed_utf8 h.name).occurrences_append hp,
    occurrences_append_of_last, hcolon, Nat.zero_add]
  rintro x ⟨⟩ hmem
  exact absurd (hp hmem) (by decide)

lemma sum_headLines (hq : Ascii q) (hp : utf8 q ⊆ crlf) (hreturn : 13 ∈ utf8 q) (v : Version)
    (s : Status) (hs : List Header) :
    ((headLines v s hs).map (occurrences (utf8 q))).sum =
      ((fields s hs).map (occurrences q)).sum := by
  have hne : q ≠ [] := by
    rintro rfl
    cases hreturn
  have hheaders : ((hs.map headerText).map (occurrences (utf8 q))).sum =
      ((hs.flatMap fun h => [h.name.text, h.value.text]).map (occurrences q)).sum := by
    induction hs with
    | nil => rfl
    | cons h hs ih =>
      rw [List.map_cons, List.map_cons, List.sum_cons, ih, occurrences_headerText hp hreturn,
        occurrences_utf8 hq hne, occurrences_utf8 hq hne, List.flatMap_cons, List.map_append,
        List.sum_append]
      simp
  rw [headLines, fields, List.map_cons, List.map_cons, List.sum_cons, List.sum_cons, hheaders,
    occurrences_statusText hp hreturn, occurrences_utf8 hq hne]

/-- **What a head is made of**: for a pattern of line ends, those in its fields and those behind
them. -/
lemma occurrences_encodeHead (hq : Ascii q) (hp : utf8 q ⊆ crlf) (hreturn : 13 ∈ utf8 q)
    (v : Version) (s : Status) (hs : List Header) :
    occurrences (utf8 q) (encodeHead v s hs) =
      ((fields s hs).map (occurrences q)).sum + hs.length * occurrences (utf8 q) crlf +
        occurrences (utf8 q) (crlf ++ crlf) := by
  rw [encodeHead_eq, headLines, occurrences_lines hp fun u hu => sealed_headLines hu,
    ← headLines, sum_headLines hq hp hreturn, List.length_map]

lemma lineEnds_encodeHead (v : Version) (s : Status) (hs : List Header) :
    occurrences crlf (encodeHead v s hs) =
      2 + hs.length + ((fields s hs).map (occurrences ['\r', '\n'])).sum := by
  have h := occurrences_encodeHead (q := ['\r', '\n']) (by decide) (by decide) (by decide) v s hs
  have hone : occurrences crlf crlf = 1 := by decide
  have htwo : occurrences crlf (crlf ++ crlf) = 2 := by decide
  change occurrences crlf _ = _ + _ * occurrences crlf crlf + occurrences crlf _ at h
  rw [h, hone, htwo]
  omega

lemma emptyLines_encodeHead (v : Version) (s : Status) (hs : List Header) :
    occurrences (crlf ++ crlf) (encodeHead v s hs) =
      1 + ((fields s hs).map (occurrences ['\r', '\n', '\r', '\n'])).sum := by
  have h := occurrences_encodeHead (q := ['\r', '\n', '\r', '\n']) (by decide) (by decide)
    (by decide) v s hs
  have hzero : occurrences (crlf ++ crlf) crlf = 0 := by decide
  have hone : occurrences (crlf ++ crlf) (crlf ++ crlf) = 1 := by decide
  change occurrences (crlf ++ crlf) _ =
    _ + _ * occurrences (crlf ++ crlf) crlf + occurrences (crlf ++ crlf) _ at h
  rw [h, hzero, hone]
  omega

lemma encodeHead_ends (v : Version) (s : Status) (hs : List Header) :
    ∃ b, encodeHead v s hs = b ++ (crlf ++ crlf) := by
  obtain ⟨ts, u, htu⟩ := List.eq_nil_or_concat (headLines v s hs) |>.resolve_left (by
    rw [headLines]
    exact List.cons_ne_nil _ _)
  exact ⟨ts.flatMap (· ++ crlf) ++ u, by rw [encodeHead_eq, htu]; simp⟩

/-- **The lines of a head**, whatever the version, the status and the headers. There is a line end
for the status, for each header and for the end of the head, and one more for each in a name or a
value; there is one empty line, and one more for each in a name or a value. If there are none in
them, the head is the lines of the status and of the headers, none of them empty or broken, and an
empty line at its end, which is its only one. -/
theorem head_lines (v : Version) (s : Status) (hs : List Header) :
    occurrences crlf (encodeHead v s hs) =
        2 + hs.length + ((fields s hs).map (occurrences ['\r', '\n'])).sum ∧
    occurrences (crlf ++ crlf) (encodeHead v s hs) =
        1 + ((fields s hs).map (occurrences ['\r', '\n', '\r', '\n'])).sum ∧
    ((∀ t ∈ fields s hs, ¬ ['\r', '\n'] <:+: t) →
      (headLines v s hs).length = 1 + hs.length ∧
      (∀ u ∈ headLines v s hs, u ≠ [] ∧ Unbroken u) ∧
      encodeHead v s hs = (headLines v s hs).flatMap (· ++ crlf) ++ crlf ∧
      occurrences crlf (encodeHead v s hs) = 2 + hs.length ∧
      places (crlf ++ crlf) (encodeHead v s hs) = [(encodeHead v s hs).length - 4]) := by
  have hends := lineEnds_encodeHead v s hs
  have hempty := emptyLines_encodeHead v s hs
  refine ⟨hends, hempty, fun hnone => ?_⟩
  have hnoEnds : ((fields s hs).map (occurrences ['\r', '\n'])).sum = 0 :=
    (sum_occurrences_eq_zero_iff (by simp)).2 hnone
  have hnoEmpty : ((fields s hs).map (occurrences ['\r', '\n', '\r', '\n'])).sum = 0 :=
    (sum_occurrences_eq_zero_iff (by simp)).2 fun t ht hin =>
      hnone t ht ((List.prefix_append ['\r', '\n'] ['\r', '\n']).isInfix.trans hin)
  refine ⟨by rw [headLines, List.length_cons, List.length_map, Nat.add_comm], fun u hu => ⟨?_, ?_⟩,
    encodeHead_eq v s hs, by rw [hends, hnoEnds, Nat.add_zero], ?_⟩
  · rintro rfl
    obtain ⟨x, hx, -⟩ := (sealed_headLines hu).head
    cases hx
  · have hsum := sum_headLines (q := ['\r', '\n']) (by decide) (by decide) (by decide) v s hs
    rw [hnoEnds] at hsum
    exact (sum_occurrences_eq_zero_iff (by decide)).1 hsum u hu
  · rw [hnoEmpty] at hempty
    refine places_eq_singleton hempty (mem_places.2 ?_)
    obtain ⟨b, hb⟩ := encodeHead_ends v s hs
    have hlength : (b ++ (crlf ++ crlf)).length - 4 = b.length := by simp [crlf]
    rw [hb, hlength, List.drop_left]
    exact ⟨by simp [crlf], List.prefix_refl _⟩

def plain : Header := ⟨⟨['X'], by decide, by decide⟩, ⟨['a'], by decide, by decide⟩⟩

theorem head_lines_plain :
    (∀ t ∈ fields .ok [plain], ¬ ['\r', '\n'] <:+: t) ∧
      places (crlf ++ crlf) (encodeHead .http11 .ok [plain]) =
        [(encodeHead .http11 .ok [plain]).length - 4] := by
  have hnone : ∀ t ∈ fields .ok [plain], ¬ ['\r', '\n'] <:+: t := by decide
  exact ⟨hnone, ((head_lines .http11 .ok [plain]).2.2 hnone).2.2.2.2⟩

def cookied : Header :=
  ⟨⟨['X'], by decide, by decide⟩, ⟨"a\r\nSet-Cookie:b".toList, by decide, by decide⟩⟩

/-- One header makes two lines. -/
theorem head_lines_cookied :
    Header.make ['X'] "a\r\nSet-Cookie:b".toList = .ok cookied ∧
      encodeHead .http11 .ok [cookied] =
        utf8 "HTTP/1.1 200 OK\r\nX:a\r\nSet-Cookie:b\r\n\r\n".toList ∧
      occurrences crlf (encodeHead .http11 .ok [cookied]) = 3 + [cookied].length := by
  have hends : ((fields .ok [cookied]).map (occurrences ['\r', '\n'])).sum = 1 := by decide
  refine ⟨rfl, by decide, ?_⟩
  rw [lineEnds_encodeHead, hends]
  rfl

end Response

end Http1
