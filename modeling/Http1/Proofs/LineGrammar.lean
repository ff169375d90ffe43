import Http1.Proofs.Fields

/-!
The lines of a head, decided.

A request line has three fields, and the first of them that is not complete and valid settles what
becomes of the line: it is refused as too long, it is refused for what it says, or it is waited
for. A header has two, which are looked at together: that they are too long is told at once, that
one of them is blank only when both are there. Main statements: each line is read exactly off the
bytes of its grammar, every other outcome has its one reason, and bytes that come later change
none but waiting.
-/

namespace Http1

/-! ### Slots -/

/-- What is asked of a field: its separator, its bound, what may stand in it, and the fault of what
may not. -/
structure Slot where
  sep : Bytes
  bound : Nat
  Valid : Bytes → Prop
  fault : ParseError

namespace Slot

/-- **The first field that is not complete and valid** is `f`, in front of the bytes `c`. -/
inductive Decides : List Slot → Bytes → Slot → Bytes → Prop
  | here {f : Slot} {fs : List Slot} {b : Bytes} :
      (∀ t r, Complete f.sep f.bound b t r → ¬ f.Valid t) → Decides (f :: fs) b f b
  | later {f g : Slot} {fs : List Slot} {b t r c : Bytes} :
      Complete f.sep f.bound b t r → f.Valid t → Decides fs r g c → Decides (f :: fs) b g c

variable {α β : Type} {f : Slot} {fs : List Slot} {b c t r : Bytes}

/-- What a field that decides makes of its line. -/
inductive Verdict (f : Slot) (c : Bytes) : Except ParseError (Scan α) → Prop
  | overruns : Overruns f.sep f.bound c → Verdict f c (.error .illegalFormat)
  | invalid {t r : Bytes} : Complete f.sep f.bound c t r → ¬ f.Valid t →
      Verdict f c (.error f.fault)
  | underway {r : Bytes} : Lacks f.sep f.bound c → c.length < f.bound + f.sep.length →
      Verdict f c (.ok (.pending r))

structure Reads (f : Slot) (p : Scanner ParseError α) : Prop where
  valid : ∀ {b t r}, b.length < maxSize → Complete f.sep f.bound b t r → f.Valid t →
    ∃ a, p b = .ok (.done a r)
  other : ∀ {b}, b.length < maxSize → (∀ t r, Complete f.sep f.bound b t r → ¬ f.Valid t) →
    Verdict f b (p b)

structure ReadsAll (fs : List Slot) (p : Scanner ParseError α) : Prop where
  valid : ∀ {b}, b.length < maxSize → (¬ ∃ f c, Decides fs b f c) → ∃ a r, p b = .ok (.done a r)
  other : ∀ {b f c}, b.length < maxSize → Decides fs b f c → Verdict f c (p b)

lemma reads_token {g : Bytes → Except ParseError α} (hvalid : ∀ t, f.Valid t → ∃ a, g t = .ok a)
    (hfault : ∀ t, ¬ f.Valid t → g t = .error f.fault) :
    f.Reads ((token f.sep f.bound true).tryMap g) where
  valid := by
    intro b t r hb hc ht
    obtain ⟨a, ha⟩ := hvalid t ht
    refine ⟨a, ?_⟩
    simp only [Scanner.tryMap, token_of_complete hc (Nat.le_of_lt hb), Scan.tryMap, ha, Except.map]
  other := by
    intro b hb h
    rcases complete_or_lacks f.sep f.bound b with ⟨t, r, hc⟩ | hlacks
    · have ht := h t r hc
      simp only [Scanner.tryMap, token_of_complete hc (Nat.le_of_lt hb), Scan.tryMap, hfault t ht,
        Except.map]
      exact .invalid hc ht
    · rw [Scanner.tryMap, token_of_lacks hlacks hb]
      by_cases hlen : f.bound + f.sep.length ≤ b.length
      · rw [if_pos hlen]
        exact .overruns ⟨hlacks, hlen⟩
      · rw [if_neg hlen]
        exact .underway hlacks (by omega)

variable {p : Scanner ParseError α}

lemma Verdict.map {s : Except ParseError (Scan α)} (h : Verdict f c s) (g : α → β) :
    Verdict f c (s.map (·.map g)) := by
  cases h with
  | overruns h => exact .overruns h
  | invalid hc ht => exact .invalid hc ht
  | underway hlacks hlen => exact .underway hlacks hlen

lemma Verdict.andThen {q : α → Scanner ParseError β} (h : Verdict f c (p b)) :
    Verdict f c (p.andThen q b) := by
  rw [Scanner.andThen]
  generalize p b = s at h
  cases h with
  | overruns h => exact .overruns h
  | invalid hc ht => exact .invalid hc ht
  | underway hlacks hlen => exact .underway hlacks hlen

lemma Verdict.whole (h : Verdict f c (p b)) : Verdict f c (p.whole b) := by
  rw [Scanner.whole]
  generalize p b = s at h
  cases h with
  | overruns h => exact .overruns h
  | invalid hc ht => exact .invalid hc ht
  | underway hlacks hlen => exact .underway hlacks hlen

lemma Reads.all (h : f.Reads p) : ReadsAll [f] p where
  valid := by
    intro b hb hnone
    refine Classical.byContradiction fun hcontra => hnone ⟨f, b, .here fun t r hc ht => ?_⟩
    apply hcontra
    obtain ⟨a, ha⟩ := h.valid hb hc ht
    exact ⟨a, r, ha⟩
  other := by
    intro b g c hb hd
    cases hd with
    | here hnot => exact h.other hb hnot
    | later _ _ hd => cases hd

lemma ReadsAll.map (h : ReadsAll fs p) (g : α → β) : ReadsAll fs (p.map g) where
  valid := by
    intro b hb hnone
    obtain ⟨a, r, ha⟩ := h.valid hb hnone
    exact ⟨g a, r, Scanner.map_eq_done_iff.2 ⟨a, ha, rfl⟩⟩
  other hb hd := (h.other hb hd).map g

lemma Reads.andThen (h : f.Reads p) {q : α → Scanner ParseError β}
    (hq : ∀ a, ReadsAll fs (q a)) : ReadsAll (f :: fs) (p.andThen q) where
  valid := by
    intro b hb hnone
    refine Classical.byContradiction fun hcontra => hnone ⟨f, b, .here fun t r hc ht => ?_⟩
    apply hcontra
    obtain ⟨a, ha⟩ := h.valid hb hc ht
    have hr := Nat.lt_of_le_of_lt hc.rest_le hb
    obtain ⟨y, r', hy⟩ := (hq a).valid hr fun ⟨g, c, hd⟩ => hnone ⟨g, c, .later hc ht hd⟩
    exact ⟨y, r', Scanner.andThen_eq_done_iff.2 ⟨a, r, ha, hy⟩⟩
  other := by
    intro b g c hb hd
    cases hd with
    | here hnot => exact (h.other hb hnot).andThen
    | @later _ _ _ _ t r _ hc ht hd =>
      obtain ⟨a, ha⟩ := h.valid hb hc ht
      have hr := Nat.lt_of_le_of_lt hc.rest_le hb
      rw [Scanner.andThen, ha]
      exact (hq a).other hr hd

lemma ReadsAll.whole (h : ReadsAll fs p) : ReadsAll fs p.whole where
  valid := by
    intro b hb hnone
    obtain ⟨a, r, ha⟩ := h.valid hb hnone
    exact ⟨a, r, Scanner.whole_eq_done_iff.2 ha⟩
  other hb hd := (h.other hb hd).whole

/-- The reasons of a verdict, where the fault of the field is not that it is too long. -/
lemma Verdict.reasons {s : Except ParseError (Scan α)} (h : Verdict f c s)
    (hf : f.fault ≠ .illegalFormat) :
    (s = .error .illegalFormat ↔ Overruns f.sep f.bound c) ∧
      (s = .error f.fault ↔ ∃ t r, Complete f.sep f.bound c t r ∧ ¬ f.Valid t) ∧
      ((∃ r, s = .ok (.pending r)) ↔ ¬ Overruns f.sep f.bound c ∧
        ¬ ∃ t r, Complete f.sep f.bound c t r ∧ ¬ f.Valid t) := by
  cases h with
  | overruns h =>
    have hnot := h.1.not_exists (P := fun t _ => ¬ f.Valid t)
    exact ⟨iff_of_true rfl h, iff_of_false (fun h' => hf (Except.error.inj h').symm) hnot,
      iff_of_false (fun ⟨_, h'⟩ => nomatch h') fun h' => h'.1 h⟩
  | @invalid t r hc ht =>
    have hinvalid : ∃ t r, Complete f.sep f.bound c t r ∧ ¬ f.Valid t := ⟨t, r, hc, ht⟩
    exact ⟨iff_of_false (fun h' => hf (Except.error.inj h')) hc.not_overruns,
      iff_of_true rfl hinvalid, iff_of_false (fun ⟨_, h'⟩ => nomatch h') fun h' => h'.2 hinvalid⟩
  | @underway r hlacks hlen =>
    have hnot := hlacks.not_exists (P := fun t _ => ¬ f.Valid t)
    have hover : ¬ Overruns f.sep f.bound c := by
      rw [hlacks.overruns_iff]
      omega
    exact ⟨iff_of_false nofun hover, iff_of_false nofun hnot, iff_of_true ⟨r, rfl⟩ ⟨hover, hnot⟩⟩

lemma Decides.mem (h : Decides fs b f c) : f ∈ fs := by
  induction h with
  | here _ => exact List.mem_cons_self
  | later _ _ _ ih => exact List.mem_cons_of_mem _ ih

end Slot

/-- The method that a token names: the standard one if the trimmed token is exactly its name, and
else the custom one of that text. -/
def Method.IsOf : Method → Text → Prop
  | .standard verb, t => trim t = verb.name
  | .custom token, t => trim t = token.text ∧ ∀ verb : Verb, trim t ≠ verb.name

lemma Method.ofToken?_eq_some_iff {t : Text} {x : Method} : ofToken? t = some x ↔ x.IsOf t := by
  rw [ofToken?]
  rcases hv : Verb.ofName? (trim t) with _ | verb
  · have hnone : ∀ verb : Verb, trim t ≠ verb.name := by
      intro verb h
      rw [Verb.ofName?_eq_some_iff.2 h.symm] at hv
      cases hv
    cases x with
    | standard verb => simp [custom?, IsOf, hnone]
    | custom token => simp [custom?, IsOf, hnone, Trimmed.ofText?_eq_some_iff]
  · have hname := Verb.name_of_ofName? hv
    cases x with
    | standard verb' =>
      simp only [Option.some.injEq, Method.standard.injEq, IsOf]
      constructor
      · rintro rfl
        exact hname.symm
      · intro h
        rw [Verb.ofName?_eq_some_iff.2 h.symm] at hv
        exact (Option.some.inj hv).symm
    | custom token =>
      simp only [Option.some.injEq, reduceCtorEq, IsOf, false_iff]
      exact fun h => h.2 verb hname.symm

lemma Verb.name_ne_nil (verb : Verb) : verb.name ≠ [] := by cases verb <;> decide

lemma Method.ofToken?_eq_none_iff {t : Text} : ofToken? t = none ↔ trim t = [] := by
  rw [ofToken?]
  rcases hv : Verb.ofName? (trim t) with _ | verb
  · simp [custom?, Trimmed.ofText?_eq_none_iff]
  · rw [← Verb.name_of_ofName? hv]
    exact iff_of_false nofun verb.name_ne_nil

namespace Header

variable {n v : Text}

lemma make_eq_emptyName_iff : make n v = .error .emptyName ↔ trim n = [] := by
  rw [← Trimmed.ofText?_eq_none_iff]
  unfold make
  cases Trimmed.ofText? n <;> cases Trimmed.ofText? v <;> simp

lemma make_eq_emptyValue_iff : make n v = .error .emptyValue ↔ trim n ≠ [] ∧ trim v = [] := by
  rw [Ne, ← Trimmed.ofText?_eq_none_iff, ← Trimmed.ofText?_eq_none_iff]
  unfold make
  cases Trimmed.ofText? n <;> cases Trimmed.ofText? v <;> simp

end Header

namespace Line

variable {s r : Bytes}

/-! ### Request lines -/

def methodSlot (l : Limits) : Slot :=
  ⟨space, l.method, fun t => trim (latin1 t) ≠ [], .illegalMethod⟩

def targetSlot (l : Lexicon) : Slot :=
  ⟨space, l.target, fun t => (l.target? t).isSome, .illegalTarget⟩

def versionSlot (l : Limits) : Slot :=
  ⟨crlf, l.version, fun t => ∃ v : Version, t = v.token, .illegalVersion⟩

def requestSlots (l : Lexicon) : List Slot := [methodSlot l, targetSlot l, versionSlot l]

lemma reads_method (l : Limits) : (methodSlot l).Reads (method l) := by
  refine Slot.reads_token (fun t ht => ?_) fun t ht => ?_
  · rcases hx : Method.ofToken? (latin1 t) with _ | x
    · exact absurd (Method.ofToken?_eq_none_iff.1 hx) ht
    · exact ⟨x, rfl⟩
  · rw [Method.ofToken?_eq_none_iff.2 (Classical.not_not.1 ht)]
    rfl

lemma reads_target (l : Lexicon) : (targetSlot l).Reads (target l) := by
  refine Slot.reads_token (fun t ht => ?_) fun t ht => ?_
  · obtain ⟨u, hu⟩ := Option.isSome_iff_exists.1 ht
    exact ⟨u, by rw [hu]⟩
  · have hnone : l.target? t = none := by simpa [targetSlot] using ht
    rw [hnone]
    rfl

lemma reads_version (l : Limits) : (versionSlot l).Reads (version l) := by
  refine Slot.reads_token (fun t ht => ?_) fun t ht => ?_
  · obtain ⟨v, hv⟩ := ht
    exact ⟨v, by rw [Version.ofToken?_eq_some_iff.2 hv]⟩
  · rcases hv : Version.ofToken? t with _ | v
    · rfl
    · exact absurd ⟨v, Version.ofToken?_eq_some_iff.1 hv⟩ ht

lemma request_readsAll (l : Lexicon) : Slot.ReadsAll (requestSlots l) (request l) :=
  ((reads_method l).andThen fun _ =>
    (reads_target l).andThen fun _ => (reads_version l).all.map _).whole

/-- The fields of a request line have faults of their own. -/
lemma fault_ne_of_mem {l : Lexicon} {f : Slot} (h : f ∈ requestSlots l) :
    f.fault ≠ .illegalFormat := by
  simp only [requestSlots, List.mem_cons, List.not_mem_nil, or_false] at h
  rcases h with rfl | rfl | rfl <;> exact nofun

lemma request_spelled {l : Lexicon} (hs : s.length < maxSize) {line : RequestLine} :
    request l s = .ok (.done line r) ↔
      ∃ m u v, s = m ++ space ++ (u ++ space ++ (v ++ crlf ++ r)) ∧
        (32 ∉ m ∧ m.length ≤ l.method) ∧ (32 ∉ u ∧ u.length ≤ l.target) ∧
        (Unbroken v ∧ v.length ≤ l.version) ∧ trim (latin1 m) ≠ [] ∧
        line.method.IsOf (latin1 m) ∧ l.target? u = some line.target ∧
        v = line.version.token := by
  rw [request_eq_done_iff]
  constructor
  · rintro ⟨m, u, rfl, ⟨hm, hx⟩, ⟨hu, hy⟩, hv⟩
    refine ⟨m, u, line.version.token, by simp [requestBytes],
      ⟨clears_singleton_iff.1 hm.clears, hm.length_le⟩,
      ⟨clears_singleton_iff.1 hu.clears, hu.length_le⟩, ⟨unbroken_token _, hv.length_le⟩,
      fun hblank => ?_, Method.ofToken?_eq_some_iff.1 hx, hy, rfl⟩
    rw [Method.ofToken?_eq_none_iff.2 hblank] at hx
    cases hx
  · rintro ⟨m, u, v, rfl, ⟨hm, hml⟩, ⟨hu, hul⟩, ⟨hv, hvl⟩, -, hx, hy, rfl⟩
    -- no field is longer than the input
    simp only [List.length_append] at hs
    exact ⟨m, u, by simp [requestBytes],
      ⟨⟨clears_singleton_iff.2 hm, hml, by omega⟩, Method.ofToken?_eq_some_iff.2 hx⟩,
      ⟨⟨clears_singleton_iff.2 hu, hul, by omega⟩, hy⟩, clears_crlf_iff.2 hv, hvl, by omega⟩

/-- **A request line is decided by its grammar.** It is read just when it is spelled so: three
fields without their separators in them, within their bounds, a method that is not blank, a valid
target and a known version. Else the first field that is not complete and valid decides: its
separator cannot come any more, or what it says is at fault, or it is waited for and nothing is
taken. More bytes change no outcome but the last. -/
theorem request_decides (l : Lexicon) {s : Bytes} (hs : s.length < pastInt64) :
    (∀ line r, request l s = .ok (.done line r) ↔
      ∃ m u v, s = m ++ space ++ (u ++ space ++ (v ++ crlf ++ r)) ∧
        (32 ∉ m ∧ m.length ≤ l.method) ∧ (32 ∉ u ∧ u.length ≤ l.target) ∧
        (Unbroken v ∧ v.length ≤ l.version) ∧ trim (latin1 m) ≠ [] ∧
        line.method.IsOf (latin1 m) ∧ l.target? u = some line.target ∧
        v = line.version.token) ∧
    ((∃ line r, request l s = .ok (.done line r)) ↔
      ¬ ∃ f c, Slot.Decides (requestSlots l) s f c) ∧
    (∀ f c, Slot.Decides (requestSlots l) s f c →
      (request l s = .error .illegalFormat ↔ Overruns f.sep f.bound c) ∧
      (request l s = .error f.fault ↔ ∃ t r, Complete f.sep f.bound c t r ∧ ¬ f.Valid t) ∧
      (request l s = .ok (.pending s) ↔ ¬ Overruns f.sep f.bound c ∧
        ¬ ∃ t r, Complete f.sep f.bound c t r ∧ ¬ f.Valid t)) ∧
    (∀ c line r, request l s = .ok (.done line r) →
      request l (s ++ c) = .ok (.done line (r ++ c))) ∧
    ∀ c e, request l s = .error e → request l (s ++ c) = .error e := by
  have hmax : s.length < maxSize := Nat.lt_trans hs (by decide)
  have hreads := request_readsAll l
  refine ⟨fun line r => request_spelled hmax, ⟨?_, fun h => hreads.valid hmax h⟩, ?_,
    fun c line r h => (request_stable l).done c h, fun c e h => (request_stable l).error c h⟩
  · rintro ⟨line, r, hdone⟩ ⟨f, c, hd⟩
    have hverdict := hreads.other hmax hd
    rw [hdone] at hverdict
    cases hverdict
  · intro f c hd
    obtain ⟨hformat, hfault, hpending⟩ :=
      (hreads.other hmax hd).reasons (fault_ne_of_mem hd.mem)
    refine ⟨hformat, hfault, ?_⟩
    rw [← hpending]
    exact ⟨fun h => ⟨s, h⟩, fun ⟨r, h⟩ => by rw [h, request_rewinds l s r h]⟩

theorem request_decides_noTarget :
    [71, 32, 0, 32, 72].length < pastInt64 ∧
      Slot.Decides (requestSlots .default) [71, 32, 0, 32, 72]
        (targetSlot .default) [0, 32, 72] ∧
      request .default [71, 32, 0, 32, 72] = .error .illegalTarget := by
  have hmethod : Complete space 16 [71, 32, 0, 32, 72] [71] [0, 32, 72] :=
    ⟨rfl, clears_singleton_iff.2 (by decide), by decide⟩
  have htarget : Complete space 8192 [0, 32, 72] [0] [72] :=
    ⟨rfl, clears_singleton_iff.2 (by decide), by decide⟩
  have hbad : ¬ (targetSlot .default).Valid [0] := by
    show ¬ (Target.ofBytes? [0]).isSome
    decide
  have hdecides : Slot.Decides (requestSlots .default) [71, 32, 0, 32, 72]
      (targetSlot .default) [0, 32, 72] := by
    refine .later hmethod (by decide : trim (latin1 [71]) ≠ []) (.here fun t r h => ?_)
    rw [(htarget.unique h).1]
    exact hbad
  refine ⟨by decide, hdecides, ?_⟩
  exact ((request_decides .default (by decide)).2.2.1 _ _ hdecides).2.1.2
    ⟨[0], [72], htarget, hbad⟩

/-! ### Headers -/

def HeaderFields (l : Limits) (s n v r : Bytes) : Prop :=
  ∃ c, Complete colon l.headerName s n c ∧ Complete crlf l.headerValue c v r

/-- The name is too long for a colon to come, or the value behind it for a line end. -/
def HeaderOverruns (l : Limits) (s : Bytes) : Prop :=
  Overruns colon l.headerName s ∨
    ∃ n c, Complete colon l.headerName s n c ∧ Overruns crlf l.headerValue c

/-- What becomes of a header: the fields are looked at together, and what they say only when both
are there. -/
inductive HeaderVerdict (l : Limits) (s : Bytes) : Except ParseError (Scan Header) → Prop
  | overruns : HeaderOverruns l s → HeaderVerdict l s (.error .illegalFormat)
  | underway : ¬ HeaderOverruns l s → (∀ n v r, ¬ HeaderFields l s n v r) →
      HeaderVerdict l s (.ok (.pending s))
  | made {n v r : Bytes} {h : Header} : HeaderFields l s n v r →
      Header.make (latin1 n) (latin1 v) = .ok h → HeaderVerdict l s (.ok (.done h r))
  | refused {n v r : Bytes} {e : HeaderError} : HeaderFields l s n v r →
      Header.make (latin1 n) (latin1 v) = .error e →
      HeaderVerdict l s (.error (.illegalHeader e))

variable {l : Limits} {n v n' v' r' : Bytes}

lemma HeaderFields.unique (h : HeaderFields l s n v r) (h' : HeaderFields l s n' v' r') :
    n' = n ∧ v' = v ∧ r' = r := by
  obtain ⟨c, hn, hv⟩ := h
  obtain ⟨c', hn', hv'⟩ := h'
  obtain ⟨rfl, rfl⟩ := hn.unique hn'
  exact ⟨rfl, hv.unique hv'⟩

lemma HeaderFields.not_overruns (h : HeaderFields l s n v r) : ¬ HeaderOverruns l s := by
  obtain ⟨c, hn, hv⟩ := h
  rintro (hover | ⟨n', c', hn', hover⟩)
  · exact hn.not_overruns hover
  · obtain ⟨rfl, rfl⟩ := hn.unique hn'
    exact hv.not_overruns hover

lemma header_of_lacks (h : Lacks colon l.headerName s) (hs : s.length < maxSize) :
    header l s =
      if l.headerName + colon.length ≤ s.length then .error .illegalFormat
      else .ok (.pending s) := by
  have hname := token_of_lacks h hs
  by_cases hlen : l.headerName + colon.length ≤ s.length
  · rw [if_pos hlen] at hname ⊢
    simp only [header, Scanner.whole, Scanner.andThen, hname, Except.map]
  · rw [if_neg hlen] at hname ⊢
    simp only [header, Scanner.whole, Scanner.andThen, hname, Scan.andThen, Except.map,
      Scan.orRewind]

lemma header_of_name {c : Bytes} (hn : Complete colon l.headerName s n c)
    (h : Lacks crlf l.headerValue c) (hs : s.length < maxSize) :
    header l s =
      if l.headerValue + crlf.length ≤ c.length then .error .illegalFormat
      else .ok (.pending s) := by
  have hname := token_of_complete hn (Nat.le_of_lt hs)
  have hvalue := token_of_lacks h (Nat.lt_of_le_of_lt hn.rest_le hs)
  simp only [header, Scanner.whole, Scanner.andThen, hname, Scan.andThen, Scanner.tryMap]
  by_cases hlen : l.headerValue + crlf.length ≤ c.length
  · rw [if_pos hlen] at hvalue ⊢
    simp only [hvalue, Except.map]
  · rw [if_neg hlen] at hvalue ⊢
    simp only [hvalue, Scan.tryMap, Except.map, Scan.orRewind]

lemma header_of_fields (h : HeaderFields l s n v r) (hs : s.length < maxSize) :
    header l s =
      match Header.make (latin1 n) (latin1 v) with
      | .ok h => .ok (.done h r)
      | .error e => .error (.illegalHeader e) := by
  obtain ⟨c, hn, hv⟩ := h
  have hname := token_of_complete hn (Nat.le_of_lt hs)
  have hvalue := token_of_complete hv (Nat.le_trans hn.rest_le (Nat.le_of_lt hs))
  simp only [header, Scanner.whole, Scanner.andThen, hname, Scan.andThen, Scanner.tryMap, hvalue,
    Scan.tryMap]
  cases Header.make (latin1 n) (latin1 v) <;> rfl

/-- **Every header** comes to one of these. -/
lemma header_verdict (hs : s.length < maxSize) : HeaderVerdict l s (header l s) := by
  rcases complete_or_lacks colon l.headerName s with ⟨n, c, hn⟩ | hlacks
  · rcases complete_or_lacks crlf l.headerValue c with ⟨v, r, hv⟩ | hlacks
    · have hfields : HeaderFields l s n v r := ⟨c, hn, hv⟩
      rw [header_of_fields hfields hs]
      rcases hm : Header.make (latin1 n) (latin1 v) with e | h
      · exact .refused hfields hm
      · exact .made hfields hm
    · rw [header_of_name hn hlacks hs]
      split <;> rename_i hlen
      · exact .overruns (.inr ⟨n, c, hn, hlacks, hlen⟩)
      · refine .underway ?_ ?_
        · rintro (hover | ⟨n', c', hn', hover⟩)
          · exact hn.not_overruns hover
          · obtain ⟨rfl, rfl⟩ := hn.unique hn'
            exact hlen hover.2
        · rintro n' v r ⟨c', hn', hv⟩
          obtain ⟨rfl, rfl⟩ := hn.unique hn'
          exact hv.not_lacks hlacks
  · rw [header_of_lacks hlacks hs]
    split <;> rename_i hlen
    · exact .overruns (.inl ⟨hlacks, hlen⟩)
    · refine .underway ?_ ?_
      · rintro (hover | ⟨n', c', hn', -⟩)
        · exact hlen hover.2
        · exact hn'.not_lacks hlacks
      · rintro n v r ⟨c, hn, -⟩
        exact hn.not_lacks hlacks

lemma header_spelled (hs : s.length < maxSize) {h : Header} :
    header l s = .ok (.done h r) ↔
      ∃ n v, s = n ++ colon ++ (v ++ crlf ++ r) ∧
        (58 ∉ n ∧ n.length ≤ l.headerName) ∧ (Unbroken v ∧ v.length ≤ l.headerValue) ∧
        (trim (latin1 n) ≠ [] ∧ trim (latin1 v) ≠ []) ∧
        h.name.text = trim (latin1 n) ∧ h.value.text = trim (latin1 v) := by
  rw [header_eq_done_iff]
  constructor
  · rintro ⟨n, v, rfl, ⟨hn, hname⟩, hv, hvalue⟩
    exact ⟨n, v, by simp [headerBytes], ⟨clears_singleton_iff.1 hn.clears, hn.length_le⟩,
      ⟨clears_crlf_iff.1 hv.clears, hv.length_le⟩,
      ⟨hname ▸ h.name.ne_nil, hvalue ▸ h.value.ne_nil⟩, hname.symm, hvalue.symm⟩
  · rintro ⟨n, v, rfl, ⟨hn, hnl⟩, ⟨hv, hvl⟩, -, hname, hvalue⟩
    simp only [List.length_append] at hs
    exact ⟨n, v, by simp [headerBytes],
      ⟨⟨clears_singleton_iff.2 hn, hnl, by omega⟩, hname.symm⟩,
      ⟨clears_crlf_iff.2 hv, hvl, by omega⟩, hvalue.symm⟩

variable {x : Except ParseError (Scan Header)}

lemma HeaderVerdict.illegalFormat_iff (h : HeaderVerdict l s x) :
    x = .error .illegalFormat ↔ HeaderOverruns l s := by
  cases h with
  | overruns hover => exact iff_of_true rfl hover
  | underway hover _ => exact iff_of_false nofun hover
  | made hfields _ => exact iff_of_false nofun hfields.not_overruns
  | refused hfields _ => exact iff_of_false nofun hfields.not_overruns

lemma HeaderVerdict.pending_iff (h : HeaderVerdict l s x) :
    x = .ok (.pending s) ↔ ¬ HeaderOverruns l s ∧ ∀ n v r, ¬ HeaderFields l s n v r := by
  cases h with
  | overruns hover => exact iff_of_false nofun fun h => h.1 hover
  | underway hover hfields => exact iff_of_true rfl ⟨hover, hfields⟩
  | made hfields _ => exact iff_of_false nofun fun h => h.2 _ _ _ hfields
  | refused hfields _ => exact iff_of_false nofun fun h => h.2 _ _ _ hfields

/-- A header is refused for what its fields say, if both are there. -/
lemma HeaderVerdict.refused_iff (h : HeaderVerdict l s x) {e : HeaderError} :
    x = .error (.illegalHeader e) ↔
      ∃ n v r, HeaderFields l s n v r ∧ Header.make (latin1 n) (latin1 v) = .error e := by
  cases h with
  | overruns hover =>
    exact iff_of_false nofun fun ⟨_, _, _, hfields, _⟩ => hfields.not_overruns hover
  | underway _ hnone => exact iff_of_false nofun fun ⟨_, _, _, hfields, _⟩ => hnone _ _ _ hfields
  | made hfields hm =>
    refine iff_of_false nofun ?_
    rintro ⟨n', v', r', hfields', he⟩
    obtain ⟨rfl, rfl, rfl⟩ := hfields.unique hfields'
    rw [hm] at he
    cases he
  | @refused n v r e' hfields hm =>
    constructor
    · intro h
      cases h
      exact ⟨n, v, r, hfields, hm⟩
    · rintro ⟨n', v', r', hfields', he⟩
      obtain ⟨rfl, rfl, rfl⟩ := hfields.unique hfields'
      rw [hm] at he
      cases he
      rfl

/-- **A header is decided by its grammar.** It is read just when it is spelled so: a name without
a colon, a value without a line end, both within their bounds and neither of them blank; the header
is the two of them trimmed. It is too long if a separator cannot come any more. If both fields are
there, a blank name is at fault before a blank value. Else it is waited for, and nothing is taken.
More bytes change no outcome but the last. -/
theorem header_decides (l : Limits) {s : Bytes} (hs : s.length < pastInt64) :
    (∀ h r, header l s = .ok (.done h r) ↔
      ∃ n v, s = n ++ colon ++ (v ++ crlf ++ r) ∧
        (58 ∉ n ∧ n.length ≤ l.headerName) ∧ (Unbroken v ∧ v.length ≤ l.headerValue) ∧
        (trim (latin1 n) ≠ [] ∧ trim (latin1 v) ≠ []) ∧
        h.name.text = trim (latin1 n) ∧ h.value.text = trim (latin1 v)) ∧
    (header l s = .error .illegalFormat ↔ HeaderOverruns l s) ∧
    (header l s = .error (.illegalHeader .emptyName) ↔
      ∃ n v r, HeaderFields l s n v r ∧ trim (latin1 n) = []) ∧
    (header l s = .error (.illegalHeader .emptyValue) ↔
      ∃ n v r, HeaderFields l s n v r ∧ trim (latin1 n) ≠ [] ∧ trim (latin1 v) = []) ∧
    (header l s = .ok (.pending s) ↔
      ¬ HeaderOverruns l s ∧ ∀ n v r, ¬ HeaderFields l s n v r) ∧
    (∀ c h r, header l s = .ok (.done h r) → header l (s ++ c) = .ok (.done h (r ++ c))) ∧
    ∀ c e, header l s = .error e → header l (s ++ c) = .error e := by
  have hmax : s.length < maxSize := Nat.lt_trans hs (by decide)
  have hverdict := header_verdict (l := l) hmax
  refine ⟨fun h r => header_spelled hmax, hverdict.illegalFormat_iff, ?_, ?_,
    hverdict.pending_iff, fun c h r hd => (header_stable l).done c hd,
    fun c e he => (header_stable l).error c he⟩
  · simp only [hverdict.refused_iff, Header.make_eq_emptyName_iff]
  · simp only [hverdict.refused_iff, Header.make_eq_emptyValue_iff]

theorem header_decides_blank :
    [160, 58, 13, 10].length < pastInt64 ∧
      header Limits.default [160, 58, 13, 10] = .error (.illegalHeader .emptyName) := by
  refine ⟨by decide, ((header_decides Limits.default (by decide)).2.2.1).2 ?_⟩
  exact ⟨[160], [], [], ⟨[13, 10], ⟨rfl, clears_singleton_iff.2 (by decide), by decide⟩,
    ⟨rfl, clears_crlf_iff.2 (by simp [Unbroken, crlf]), by decide⟩⟩, by decide⟩

end Line

end Http1
