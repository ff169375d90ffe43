import Http1.Proofs.Lines
import Http1.Proofs.Standing

/-!
What a framing keeps back.

A framing without a frame waits for more bytes, and keeps those it has. A field that has not
ended is shorter than its bound and its separator, so the bounds of the fields of a line bound
what is kept for the line. And a line that has ended owes its end to the last bytes that came: had
it ended before them, it would have been taken before. Main statement: both, for every framing
that any bytes lead to.
-/

namespace Http1

namespace Scanner

variable {ε α β : Type} {p : Scanner ε α} {n m n' m' : Nat}

/-! ### Bounds -/

/-- A scanner is **bounded** by what it waits on at most, and by what a value costs at most. -/
structure Bounded (p : Scanner ε α) (wait cost : Nat) : Prop where
  pending : ∀ {b r}, p b = .ok (.pending r) → b.length ≤ wait
  done : ∀ {b a r}, p b = .ok (.done a r) → b.length ≤ cost + r.length

lemma Bounded.mono (hp : p.Bounded n m) (hn : n ≤ n') (hm : m ≤ m') : p.Bounded n' m' :=
  ⟨fun h => Nat.le_trans (hp.pending h) hn,
    fun h => Nat.le_trans (hp.done h) (Nat.add_le_add_right hm _)⟩

lemma Bounded.tryMap (hp : p.Bounded n m) (f : α → Except ε β) : (p.tryMap f).Bounded n m := by
  constructor
  · intro b r h
    rcases hb : p b with e | ⟨a, r'⟩ | r' <;>
      simp only [Scanner.tryMap, hb, Scan.tryMap, reduceCtorEq] at h
    · rcases hf : f a with e | y <;> simp [hf, Except.map] at h
    · exact hp.pending hb
  · intro b y r h
    obtain ⟨a, ha, -⟩ := tryMap_eq_done_iff.1 h
    exact hp.done ha

lemma Bounded.map (hp : p.Bounded n m) (f : α → β) : (p.map f).Bounded n m := by
  rw [map_eq_tryMap]
  exact hp.tryMap _

/-- The second scanner waits with what the first one took. -/
lemma Bounded.andThen (hp : p.Bounded n m) {f : α → Scanner ε β}
    (hf : ∀ a, (f a).Bounded n' m') : (p.andThen f).Bounded (max n (m + n')) (m + m') := by
  constructor
  · intro b r h
    rcases hb : p b with e | ⟨a, r'⟩ | r' <;>
      simp only [Scanner.andThen, hb, Scan.andThen, reduceCtorEq] at h
    · have hfirst := hp.done hb
      have hsecond := (hf a).pending h
      omega
    · have hfirst := hp.pending hb
      omega
  · intro b y r h
    obtain ⟨a, r', ha, hy⟩ := andThen_eq_done_iff.1 h
    have hfirst := hp.done ha
    have hsecond := (hf a).done hy
    omega

lemma Bounded.whole (hp : p.Bounded n m) : p.whole.Bounded n m := by
  constructor
  · intro b r h
    rcases hb : p b with e | ⟨a, r'⟩ | r' <;>
      simp only [Scanner.whole, hb, Except.map, Scan.orRewind, Except.ok.injEq, reduceCtorEq] at h
    exact hp.pending hb
  · intro b a r h
    exact hp.done (whole_eq_done_iff.1 h)

/-! ### Exactness -/

/-- A scanner is **exact** when the bytes of a value decide about it, whatever stands behind. -/
structure Exact (p : Scanner ε α) : Prop where
  done : ∀ {b a r}, p b = .ok (.done a r) → ∃ t, b = t ++ r ∧ ∀ c, p (t ++ c) = .ok (.done a c)

lemma Exact.tryMap (hp : p.Exact) (f : α → Except ε β) : (p.tryMap f).Exact := by
  refine ⟨fun {b y r} h => ?_⟩
  obtain ⟨a, ha, hy⟩ := tryMap_eq_done_iff.1 h
  obtain ⟨t, rfl, ht⟩ := hp.done ha
  exact ⟨t, rfl, fun c => tryMap_eq_done_iff.2 ⟨a, ht c, hy⟩⟩

lemma Exact.map (hp : p.Exact) (f : α → β) : (p.map f).Exact := by
  rw [map_eq_tryMap]
  exact hp.tryMap _

lemma Exact.andThen (hp : p.Exact) {f : α → Scanner ε β} (hf : ∀ a, (f a).Exact) :
    (p.andThen f).Exact := by
  refine ⟨fun {b y r} h => ?_⟩
  obtain ⟨a, r', ha, hy⟩ := andThen_eq_done_iff.1 h
  obtain ⟨t, rfl, ht⟩ := hp.done ha
  obtain ⟨u, rfl, hu⟩ := (hf a).done hy
  refine ⟨t ++ u, by rw [List.append_assoc], fun c => ?_⟩
  rw [List.append_assoc]
  exact andThen_eq_done_iff.2 ⟨a, u ++ c, ht _, hu c⟩

lemma Exact.whole (hp : p.Exact) : p.whole.Exact := by
  refine ⟨fun {b a r} h => ?_⟩
  obtain ⟨t, rfl, ht⟩ := hp.done (whole_eq_done_iff.1 h)
  exact ⟨t, rfl, fun c => whole_eq_done_iff.2 (ht c)⟩

/-- What a value leaves of an input that was pending is of the bytes that have come since. -/
lemma Exact.suffix_of_pending (hp : p.Exact) {b c r r' : Bytes} {a : α}
    (hb : p b = .ok (.pending r')) (h : p (b ++ c) = .ok (.done a r)) : r <:+ c := by
  obtain ⟨t, heq, ht⟩ := hp.done h
  rcases List.append_eq_append_iff.1 heq with ⟨u, rfl, rfl⟩ | ⟨u, rfl, rfl⟩
  · exact List.suffix_append ..
  · -- the value had come already
    rw [ht] at hb
    cases hb

lemma Exact.suffix (hp : p.Exact) {b r : Bytes} {a : α} (h : p b = .ok (.done a r)) :
    r <:+ b := by
  obtain ⟨t, rfl, -⟩ := hp.done h
  exact List.suffix_append ..

end Scanner

lemma token_bounded {sep : Bytes} (hs : sep ≠ []) (k : Nat) :
    (token sep k true).Bounded (k + (sep.length - 1)) (k + sep.length) := by
  have hpos : 0 < sep.length := List.length_pos_iff.2 hs
  constructor
  · intro b r h
    unfold token at h
    split at h
    · cases h
    · split at h
      · cases h
      · rename_i hw
        rw [window] at hw
        omega
  · intro b t r h
    obtain ⟨rfl, hfield⟩ := token_eq_done_iff.1 h
    have hle := hfield.length_le
    simp only [List.length_append]
    omega

lemma token_exact (sep : Bytes) (k : Nat) : (token sep k true).Exact := by
  refine ⟨fun {b t r} h => ?_⟩
  obtain ⟨rfl, hfield⟩ := token_eq_done_iff.1 h
  exact ⟨t ++ sep, rfl, fun c => token_eq_done_iff.2 ⟨rfl, hfield⟩⟩

namespace Line

variable (l : Limits)

lemma request_bounded (l : Lexicon) :
    (request l).Bounded (l.method + l.target + l.version + 3)
      (l.method + l.target + l.version + 4) := by
  have hversion := (token_bounded crlf_ne_nil l.version).tryMap (β := Version)
  have htarget := (token_bounded space_ne_nil l.target).tryMap (β := Target)
  have hmethod := (token_bounded space_ne_nil l.method).tryMap (β := Method)
  refine ((hmethod _).andThen fun m =>
    (htarget _).andThen fun t => (hversion _).map fun v => RequestLine.mk m t v).whole.mono ?_ ?_
  · simp only [space, crlf, List.length_cons, List.length_nil]
    omega
  · simp only [space, crlf, List.length_cons, List.length_nil]
    omega

lemma header_bounded :
    (header l).Bounded (l.headerName + l.headerValue + 2) (l.headerName + l.headerValue + 3) := by
  have hname := token_bounded colon_ne_nil l.headerName
  have hvalue := token_bounded crlf_ne_nil l.headerValue
  refine (hname.andThen fun _ => hvalue.tryMap _).whole.mono ?_ ?_
  · simp only [colon, crlf, List.length_cons, List.length_nil]
    omega
  · simp only [colon, crlf, List.length_cons, List.length_nil]
    omega

lemma request_exact (l : Lexicon) : (request l).Exact :=
  (((token_exact _ _).tryMap _).andThen fun _ =>
    ((token_exact _ _).tryMap _).andThen fun _ => ((token_exact _ _).tryMap _).map _).whole

lemma header_exact : (header l).Exact :=
  ((token_exact _ _).andThen fun _ => (token_exact _ _).tryMap _).whole

lemma empty_exact : empty.Exact := by
  refine ⟨fun {b a r} h => ?_⟩
  rcases Phase.empty_eq_done_iff.1 h with rfl | rfl
  · exact ⟨crlf, rfl, fun c => Phase.empty_eq_done_iff.2 (.inl rfl)⟩
  · exact ⟨[10], rfl, fun c => Phase.empty_eq_done_iff.2 (.inr rfl)⟩

end Line

/-! ### Phases -/

namespace Phase

variable {l : Lexicon} {p : Phase} {b c r r' : Bytes} {frame : Frame}

def retains (l : Lexicon) : Phase → Nat
  | requestLine => l.method + l.target + l.version + 3
  | header => l.headerName + l.headerValue + 2
  | headerOrEnd _ => l.headerName + l.headerValue + 2
  | entity .. => 0
  | entityEnd => 0

lemma length_le_retains (h : p.scan l b = .ok (.pending r)) : b.length ≤ p.retains l := by
  cases p with
  | requestLine => exact ((Line.request_bounded l).map _).pending h
  | header => exact ((Line.header_bounded l).map _).pending h
  | headerOrEnd hs =>
    simp only [scan] at h
    rcases he : Line.empty b with e | ⟨u, r'⟩ | r' <;>
      simp only [he, Scan.map, Except.ok.injEq, reduceCtorEq] at h
    · exact ((Line.header_bounded l).map _).pending h
    · have hnil : b = [] := by
        unfold Line.empty at he
        split at he <;> simp_all
      simp [hnil]
  | entity n hn =>
    simp only [scan] at h
    split at h
    · rename_i hb
      simp [hb]
    · simp at h
  | entityEnd => simp [scan] at h

lemma suffix_of_done (h : p.scan l b = .ok (.done frame r)) : r <:+ b := by
  cases p with
  | requestLine => exact ((Line.request_exact l).map _).suffix h
  | header => exact ((Line.header_exact l).map _).suffix h
  | headerOrEnd hs =>
    simp only [scan] at h
    rcases he : Line.empty b with e | ⟨u, r'⟩ | r' <;>
      simp only [he, Scan.map, Except.ok.injEq, Scan.done.injEq, reduceCtorEq] at h
    · exact ((Line.header_exact l).map _).suffix h
    · exact h.2 ▸ Line.empty_exact.suffix he
  | entity n hn =>
    simp only [scan] at h
    split at h
    · simp at h
    · simp only [Except.ok.injEq, Scan.done.injEq] at h
      exact h.2 ▸ List.drop_suffix n b
  | entityEnd =>
    simp only [scan, Except.ok.injEq, Scan.done.injEq] at h
    exact h.2 ▸ List.suffix_refl _

lemma suffix_of_pending (hb : p.scan l b = .ok (.pending r'))
    (h : p.scan l (b ++ c) = .ok (.done frame r)) : r <:+ c := by
  cases p with
  | requestLine => exact ((Line.request_exact l).map _).suffix_of_pending hb h
  | header => exact ((Line.header_exact l).map _).suffix_of_pending hb h
  | headerOrEnd hs =>
    simp only [scan] at hb
    rcases he : Line.empty b with e | ⟨u, s⟩ | s <;>
      simp only [he, Scan.map, Except.ok.injEq, reduceCtorEq] at hb
    · -- a header, unless the line feed of an empty line has come
      simp only [scan] at h
      rcases hec : Line.empty (b ++ c) with e' | ⟨u', s'⟩ | s' <;>
        simp only [hec, Scan.map, Except.ok.injEq, Scan.done.injEq, reduceCtorEq] at h
      · exact ((Line.header_exact l).map _).suffix_of_pending hb h
      · have h13 : b = [13] := by
          refine Decidable.by_contra fun hne => ?_
          rw [Line.empty_error_append he hne] at hec
          cases hec
        subst h13
        rcases empty_eq_done_iff.1 hec with heq | heq
        · simp only [crlf, List.cons_append, List.nil_append, List.cons.injEq, true_and] at heq
          exact h.2 ▸ heq ▸ List.suffix_cons ..
        · simp at heq
    · have hnil : b = [] := by
        unfold Line.empty at he
        split at he <;> simp_all
      subst hnil
      exact suffix_of_done h
  | entity n hn =>
    have hnil : b = [] := by
      simp only [scan] at hb
      split at hb
      · assumption
      · simp at hb
    subst hnil
    exact suffix_of_done h
  | entityEnd => simp [scan] at hb

end Phase

/-! ### Framings -/

namespace Framing

variable {l : Lexicon} {f f' : Framing} {c : Bytes}

/-- The framings that any bytes lead to, whenever they come. -/
inductive Reached (l : Lexicon) : Framing → Prop
  | init : Reached l (init l)
  | next {f f' : Framing} (c : Bytes) : Reached l f → f.next c = .ok f' → Reached l f'

/-- The framings that are given bytes only while they have no frame, with the last bytes given. -/
inductive Fed (l : Lexicon) : Bytes → Framing → Prop
  | init : Fed l [] (init l)
  | given {f f' : Framing} {last : Bytes} (c : Bytes) :
      Fed l last f → f.frame = none → f.next c = .ok f' → Fed l c f'
  | drained {f f' : Framing} {last : Bytes} :
      Fed l last f → f.frame.isSome → f.next [] = .ok f' → Fed l last f'

lemma Fed.reached (h : Fed l c f) : Reached l f := by
  induction h with
  | init => exact .init
  | given c _ _ hn ih => exact .next c ih hn
  | drained _ _ hn ih => exact .next [] ih hn

lemma Reached.lexicon_eq (h : Reached l f) : f.lexicon = l := by
  induction h with
  | init => rfl
  | next c _ hn ih => rw [← ih, lexicon_of_build hn]

lemma Reached.scan_buffer (h : Reached l f) (hf : f.frame = none) :
    f.phase.scan l f.buffer = .ok (.pending f.buffer) := by
  cases h with
  | init => exact (FrameReader.held_of_frame_none (build_init l) rfl).1
  | next c hr hn =>
    obtain ⟨hs, rfl⟩ := FrameReader.held_of_frame_none hn hf
    rwa [hr.lexicon_eq] at hs

lemma Reached.emits (h : Reached l f) {frame : Frame} (hf : f.frame = some frame) :
    f.phase.Emits frame := by
  cases h with
  | init => cases hf
  | next c hr hn =>
    obtain ⟨⟨frame', r⟩ | r, hs, rfl⟩ := scan_of_build hn
    · obtain rfl : frame' = frame := Option.some.inj hf
      exact Phase.emits_of_scan hs
    · cases hf

lemma Fed.suffix (h : Fed l c f) (hf : f.frame.isSome) : f.buffer <:+ c := by
  induction h with
  | init => exact List.suffix_refl _
  | @given f f' last c hfed hnone hn ih =>
    have hpending := hfed.reached.scan_buffer hnone
    obtain ⟨⟨frame, r⟩ | r, hs, rfl⟩ := scan_of_build hn
    · rw [nextPhase, hnone, hfed.reached.lexicon_eq] at hs
      exact Phase.suffix_of_pending hpending hs
    · simp [Scan.value?] at hf
  | @drained f f' last hfed hsome hn ih =>
    obtain ⟨⟨frame, r⟩ | r, hs, rfl⟩ := scan_of_build hn
    · rw [List.append_nil] at hs
      exact (Phase.suffix_of_done hs).trans (ih hsome)
    · simp [Scan.value?] at hf

/-- **Bounded retention**: a framing without a frame keeps no more than its phase may wait on, for
any lexicon and any bytes in any chunks. And where it is given bytes only while it has no frame,
what it has left behind one is the end of the last bytes. -/
theorem retention (l : Lexicon) :
    (∀ f, Reached l f → f.frame = none → f.buffer.length ≤ f.phase.retains l) ∧
    ∀ c f, Fed l c f → f.frame.isSome → f.buffer <:+ c := by
  exact ⟨fun f h hf => Phase.length_le_retains (h.scan_buffer hf), fun c f h hf => h.suffix hf⟩

/-- The bytes `GET * HTTP/1.1` with half a line end. -/
def cutLine : Bytes := [71, 69, 84, 32, 42, 32, 72, 84, 84, 80, 47, 49, 46, 49, 13]

theorem retention_cutLine :
    ∃ f g : Framing,
      (Reached (.uniform 9) f ∧ f.frame = none ∧ f.buffer.length ≤ 30) ∧
      Fed (.uniform 9) [10, 72] g ∧ g.frame.isSome ∧ g.buffer <:+ [10, 72] := by
  have hwaits : (init (.uniform 9)).next cutLine =
      .ok ⟨.uniform 9, .requestLine, cutLine, none⟩ := rfl
  have hline : Framing.next ⟨.uniform 9, .requestLine, cutLine, none⟩ [10, 72] =
      .ok ⟨.uniform 9, .requestLine, [72],
        some (.requestLine ⟨.standard .get, .asterisk, .http11⟩)⟩ := rfl
  have hf := Fed.init.given cutLine rfl hwaits
  have hg := hf.given [10, 72] rfl hline
  obtain ⟨hheld, hleft⟩ := retention (.uniform 9)
  exact ⟨_, _, ⟨hf.reached, rfl, hheld _ hf.reached rfl⟩, hg, rfl, hleft _ _ hg rfl⟩

end Framing

end Http1
