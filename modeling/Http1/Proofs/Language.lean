import Http1.Proofs.Relay

/-!
The language of an assembly.

The frames of one request are a request line, headers, and then the end, or the start of an entity,
chunks, and the end. Main statement: as long as the frames that have been pushed begin such a row,
and no longer, none of them is refused; the request is then released with the start of the entity,
or with the end if there is none. A refused frame may leave its mark, but whatever the order of
frames, no second request comes of it, and nothing is taken behind an end.
-/

namespace Http1

open Assembly (Pushed)

/-- One request in frames, whatever its headers declare. -/
structure Layout where
  line : RequestLine
  headers : List Header
  /-- The entity, if there is one: its declared length, and its chunks. -/
  entity : Option (Nat × List Bytes)

namespace Layout

/-! ### Frames in order -/

def bodyFrames : Option (Nat × List Bytes) → List Frame
  | none => [.entityEnd]
  | some (n, cs) => .entityStart n :: cs.map .entityChunk ++ [.entityEnd]

def frames (m : Layout) : List Frame :=
  Message.headFrames m.line m.headers ++ bodyFrames m.entity

def inEntity : List Frame → Bool
  | [] => true
  | .entityChunk _ :: fs => inEntity fs
  | .entityEnd :: fs => fs.isEmpty
  | _ => false

def inHead : List Frame → Bool
  | [] => true
  | .header _ :: fs => inHead fs
  | .entityStart _ :: fs => inEntity fs
  | .entityEnd :: fs => fs.isEmpty
  | _ => false

def begins : List Frame → Bool
  | [] => true
  | .requestLine _ :: fs => inHead fs
  | _ => false

variable {fs : List Frame} {f : Frame}

lemma inEntity_iff :
    inEntity fs ↔ ∃ cs : List Bytes, fs <+: cs.map .entityChunk ++ [.entityEnd] := by
  induction fs with
  | nil => exact ⟨fun _ => ⟨[], List.nil_prefix⟩, fun _ => rfl⟩
  | cons f fs ih =>
    constructor
    · intro h
      cases f with
      | entityChunk c =>
        obtain ⟨cs, hcs⟩ := ih.1 h
        exact ⟨c :: cs, (List.prefix_cons_inj _).2 hcs⟩
      | entityEnd =>
        obtain rfl : fs = [] := List.isEmpty_iff.1 h
        exact ⟨[], List.prefix_refl _⟩
      | _ => cases h
    · rintro ⟨_ | ⟨c, cs⟩, hcs⟩
      · obtain ⟨rfl, hrest⟩ := List.cons_prefix_cons.1 hcs
        rw [List.prefix_nil.1 hrest]
        rfl
      · obtain ⟨rfl, hrest⟩ := List.cons_prefix_cons.1 hcs
        exact ih.2 ⟨cs, hrest⟩

lemma inHead_iff : inHead fs ↔ ∃ (hs : List Header) (e : Option (Nat × List Bytes)),
    fs <+: hs.map .header ++ bodyFrames e := by
  induction fs with
  | nil => exact ⟨fun _ => ⟨[], none, List.nil_prefix⟩, fun _ => rfl⟩
  | cons f fs ih =>
    constructor
    · intro h
      cases f with
      | header x =>
        obtain ⟨hs, e, hfs⟩ := ih.1 h
        exact ⟨x :: hs, e, (List.prefix_cons_inj _).2 hfs⟩
      | entityStart n =>
        obtain ⟨cs, hcs⟩ := inEntity_iff.1 h
        exact ⟨[], some (n, cs), (List.prefix_cons_inj _).2 hcs⟩
      | entityEnd =>
        obtain rfl : fs = [] := List.isEmpty_iff.1 h
        exact ⟨[], none, List.prefix_refl _⟩
      | _ => cases h
    · rintro ⟨_ | ⟨x, hs⟩, e, hfs⟩
      · rcases e with _ | ⟨n, cs⟩
        · obtain ⟨rfl, hrest⟩ := List.cons_prefix_cons.1 hfs
          rw [List.prefix_nil.1 hrest]
          rfl
        · obtain ⟨rfl, hrest⟩ := List.cons_prefix_cons.1 hfs
          exact inEntity_iff.2 ⟨cs, hrest⟩
      · obtain ⟨rfl, hrest⟩ := List.cons_prefix_cons.1 hfs
        exact ih.2 ⟨hs, e, hrest⟩

def anyLine : RequestLine := ⟨.standard .get, .asterisk, .http11⟩

lemma begins_iff : begins fs ↔ ∃ m : Layout, fs <+: m.frames := by
  constructor
  · intro h
    cases fs with
    | nil => exact ⟨⟨anyLine, [], none⟩, List.nil_prefix⟩
    | cons f fs =>
      cases f with
      | requestLine l =>
        obtain ⟨hs, e, hfs⟩ := inHead_iff.1 h
        exact ⟨⟨l, hs, e⟩, (List.prefix_cons_inj _).2 hfs⟩
      | _ => cases h
  · rintro ⟨m, hm⟩
    cases fs with
    | nil => rfl
    | cons f fs =>
      obtain ⟨rfl, hrest⟩ := List.cons_prefix_cons.1 hm
      exact inHead_iff.2 ⟨m.headers, m.entity, hrest⟩

lemma inEntity_chunks (cs : List Bytes) (fs : List Frame) :
    inEntity (cs.map .entityChunk ++ fs) = inEntity fs := by
  induction cs with
  | nil => rfl
  | cons c cs ih => exact ih

lemma inHead_headers (hs : List Header) (fs : List Frame) :
    inHead (hs.map .header ++ fs) = inHead fs := by
  induction hs with
  | nil => rfl
  | cons h hs ih => exact ih

lemma begins_head (l : RequestLine) (hs : List Header) (fs : List Frame) :
    begins (Message.headFrames l hs ++ fs) = inHead fs := inHead_headers hs fs

lemma begins_body (l : RequestLine) (hs : List Header) (n : Nat) (cs : List Bytes)
    (fs : List Frame) :
    begins (Message.headFrames l hs ++ (.entityStart n :: cs.map .entityChunk ++ fs)) =
      inEntity fs := by
  rw [begins_head]
  exact inEntity_chunks cs fs

lemma begins_frames (m : Layout) (f : Frame) : begins (m.frames ++ [f]) = false := by
  obtain ⟨line, hs, _ | ⟨n, cs⟩⟩ := m
  · rw [frames, List.append_assoc, begins_head]
    rfl
  · rw [frames, bodyFrames, List.append_assoc, List.append_assoc, begins_body]
    rfl

lemma begins_of_append {fs gs : List Frame} (h : begins (fs ++ gs)) : begins fs := by
  obtain ⟨m, hm⟩ := begins_iff.1 h
  exact begins_iff.2 ⟨m, (List.prefix_append ..).trans hm⟩

/-! ### What becomes of them -/

def headAnswers (l : RequestLine) (hs : List Header) : List (Frame × Pushed) :=
  (.requestLine l, .accepted) :: hs.map fun h => (.header h, .accepted)

def streamAnswers (k : Nat) (l : RequestLine) (hs : List Header) (n : Nat) (cs : List Bytes) :
    List (Frame × Pushed) :=
  (.entityStart n, .released ⟨l, hs, .streaming (.create n k)⟩) ::
    cs.map fun c => (.entityChunk c, .accepted)

/-- What becomes of the frames of a request: it is released with the start of its entity, or with
the end if there is none. -/
def answers (k : Nat) (m : Layout) : List (Frame × Pushed) :=
  headAnswers m.line m.headers ++
    match m.entity with
    | none => [(.entityEnd, .released ⟨m.line, m.headers, .empty⟩)]
    | some (n, cs) => streamAnswers k m.line m.headers n cs ++ [(.entityEnd, .accepted)]

lemma map_fst_headAnswers (l : RequestLine) (hs : List Header) :
    (headAnswers l hs).map Prod.fst = Message.headFrames l hs := by
  simp [headAnswers, Message.headFrames, Function.comp_def]

lemma map_fst_streamAnswers (k : Nat) (l : RequestLine) (hs : List Header) (n : Nat)
    (cs : List Bytes) :
    (streamAnswers k l hs n cs).map Prod.fst = .entityStart n :: cs.map .entityChunk := by
  simp [streamAnswers, Function.comp_def]

lemma map_fst_answers_eq (k : Nat) (m : Layout) : (m.answers k).map Prod.fst = m.frames := by
  obtain ⟨line, hs, _ | ⟨n, cs⟩⟩ := m
  · simp [answers, frames, bodyFrames, map_fst_headAnswers]
  · simp [answers, frames, bodyFrames, map_fst_headAnswers, map_fst_streamAnswers]

lemma headAnswers_append (l : RequestLine) (hs : List Header) (h : Header) :
    headAnswers l hs ++ [(.header h, .accepted)] = headAnswers l (hs ++ [h]) := by
  simp [headAnswers]

lemma streamAnswers_append (k : Nat) (l : RequestLine) (hs : List Header) (n : Nat)
    (cs : List Bytes) (c : Bytes) :
    streamAnswers k l hs n cs ++ [(.entityChunk c, .accepted)] =
      streamAnswers k l hs n (cs ++ [c]) := by
  simp [streamAnswers]

lemma taken_of_mem {k : Nat} {m : Layout} {f : Frame} {q : Pushed} (h : (f, q) ∈ m.answers k) :
    q = .accepted ∨ ∃ r, q = .released r := by
  cases q with
  | accepted => exact .inl rfl
  | released r => exact .inr ⟨r, rfl⟩
  | _ =>
    obtain ⟨line, hs, _ | ⟨n, cs⟩⟩ := m <;>
      simp [answers, headAnswers, streamAnswers] at h

end Layout

namespace Assembly

open Layout

variable {k : Nat} {a a' : Assembly} {f : Frame} {q : Pushed} {h : List (Frame × Pushed)}

lemma Does.of_done (hdoes : a.Does f q a') (hd : a.done = true) : q = .refused ∧ a' = a := by
  cases hdoes with
  | late => exact ⟨rfl, rfl⟩
  | _ hd' => simp [hd] at hd'

lemma settled_deliver {r : Receiving} (he : a.entity = some r) (c : Bytes) :
    ((a.count c).deliver c).1.settled = .accepted ∧
      ((a.count c).deliver c).2.entity.isSome ∧ ((a.count c).deliver c).2.done = a.done := by
  have hcount : (a.count c).entity.isSome := by rw [count_entity he]; rfl
  obtain ⟨hans, he', hd'⟩ := deliver_cases hcount c
  refine ⟨?_, he', hd'⟩
  rcases hans with hans | hans <;> rw [hans] <;> rfl

/-- Of a request so much has been pushed, with these answers, and so the assembly is. -/
inductive Orderly (k : Nat) : List (Frame × Pushed) → Assembly → Prop
  | fresh : Orderly k [] (create k)
  | head (l : RequestLine) (hs : List Header) :
      Orderly k (headAnswers l hs) ⟨k, some l, hs, none, false⟩
  | body {a : Assembly} (l : RequestLine) (hs : List Header) (n : Nat) (cs : List Bytes) :
      a.entity.isSome → a.done = false → Orderly k (headAnswers l hs ++ streamAnswers k l hs n cs) a
  | ended {a : Assembly} (m : Layout) : a.done = true → Orderly k (m.answers k) a

lemma Orderly.prefix (hc : Orderly k h a) : ∃ m : Layout, h <+: m.answers k := by
  cases hc with
  | fresh => exact ⟨⟨anyLine, [], none⟩, List.nil_prefix⟩
  | head l hs => exact ⟨⟨l, hs, none⟩, List.prefix_append ..⟩
  | body l hs n cs =>
    refine ⟨⟨l, hs, some (n, cs)⟩, ?_⟩
    rw [answers, ← List.append_assoc]
    exact List.prefix_append ..
  | ended m => exact ⟨m, List.prefix_refl _⟩

lemma Orderly.begins (hc : Orderly k h a) : begins (h.map Prod.fst) := by
  obtain ⟨m, hm⟩ := hc.prefix
  exact begins_iff.2 ⟨m, m.map_fst_answers_eq k ▸ hm.map _⟩

lemma Orderly.onChannel (hc : Orderly k h a) (g : Channel → Channel) :
    Orderly k h (a.onChannel g) := by
  cases hc with
  | fresh => exact .fresh
  | head l hs => exact .head l hs
  | body l hs n cs he hd => exact .body l hs n cs (by rwa [isSome_onChannel]) hd
  | ended m hd => exact .ended m hd

def CarriesOn (k : Nat) (h : List (Frame × Pushed)) (f : Frame) (q : Pushed) (a' : Assembly) :
    Prop :=
  (q = .refused ∧ Layout.begins (h.map Prod.fst ++ [f]) = false) ∨
    Orderly k (h ++ [(f, q.settled)]) a'

lemma carriesOn_fresh (hdoes : (create k).Does f q a') : CarriesOn k [] f q a' := by
  cases hdoes with
  | line => exact .inr (.head _ [])
  | headless => exact .inl ⟨rfl, rfl⟩
  | nothing => exact .inl ⟨rfl, rfl⟩
  | misplaced _ hm =>
    refine .inl ⟨rfl, ?_⟩
    cases f with
    | requestLine l => cases hm
    | _ => rfl
  | late hd => cases hd
  | again _ _ hl => cases hl
  | header _ _ hl => cases hl
  | start _ _ hl => cases hl
  | bodiless _ _ hl => cases hl
  | chunk _ he => cases he
  | ending _ he => cases he

lemma carriesOn_head {l : RequestLine} {hs : List Header}
    (hdoes : Does ⟨k, some l, hs, none, false⟩ f q a') :
    CarriesOn k (headAnswers l hs) f q a' := by
  rw [CarriesOn, map_fst_headAnswers, begins_head]
  cases hdoes with
  | @header _ x =>
    refine .inr ?_
    change Orderly k (headAnswers l hs ++ [(.header x, .accepted)]) _
    rw [headAnswers_append]
    exact .head l (hs ++ [x])
  | start _ _ hl =>
    obtain rfl := Option.some.inj hl
    exact .inr (.body l hs _ [] rfl rfl)
  | bodiless _ _ hl =>
    obtain rfl := Option.some.inj hl
    exact .inr (.ended ⟨l, hs, none⟩ rfl)
  | again => exact .inl ⟨rfl, rfl⟩
  | misplaced _ hm =>
    refine .inl ⟨rfl, ?_⟩
    cases f with
    | entityChunk c => rfl
    | header x => rcases hm with hm | hm <;> cases hm
    | _ => cases hm
  | late hd => cases hd
  | line _ _ hl => cases hl
  | headless _ _ hl => cases hl
  | nothing _ _ hl => cases hl
  | chunk _ he => cases he
  | ending _ he => cases he

lemma carriesOn_body {l : RequestLine} {hs : List Header} {n : Nat} {cs : List Bytes}
    (he : a.entity.isSome) (hd : a.done = false) (hdoes : a.Does f q a') :
    CarriesOn k (headAnswers l hs ++ streamAnswers k l hs n cs) f q a' := by
  rw [CarriesOn, List.map_append, map_fst_headAnswers, map_fst_streamAnswers, List.append_assoc,
    List.append_assoc, begins_body]
  cases hdoes with
  | @chunk r c _ hr =>
    obtain ⟨hsettled, he', hd'⟩ := settled_deliver hr c
    refine .inr ?_
    rw [hsettled, streamAnswers_append]
    exact .body l hs n (cs ++ [c]) he' (hd'.trans hd)
  | ending => exact .inr (.ended ⟨l, hs, some (n, cs)⟩ rfl)
  | misplaced _ hm =>
    refine .inl ⟨rfl, ?_⟩
    cases f with
    | entityChunk c =>
      have hnone : a.entity = none := hm
      simp [hnone] at he
    | entityEnd => cases hm
    | _ => rfl
  | late hd' => simp [hd] at hd'
  | line _ hnone => simp [hnone] at he
  | again _ hnone => simp [hnone] at he
  | header _ hnone => simp [hnone] at he
  | start _ hnone => simp [hnone] at he
  | headless _ hnone => simp [hnone] at he
  | bodiless _ hnone => simp [hnone] at he
  | nothing _ hnone => simp [hnone] at he

/-- **One more frame** carries the request on, or is refused because it does not. -/
lemma Orderly.does (hc : Orderly k h a) (hdoes : a.Does f q a') : CarriesOn k h f q a' := by
  cases hc with
  | fresh => exact carriesOn_fresh hdoes
  | head l hs => exact carriesOn_head hdoes
  | body l hs n cs he hd => exact carriesOn_body he hd hdoes
  | ended m hd =>
    obtain ⟨rfl, -⟩ := hdoes.of_done hd
    exact .inl ⟨rfl, by rw [m.map_fst_answers_eq, begins_frames]⟩

/-! ### Whatever is pushed -/

/-- The frames pushed so far begin a request and have been answered like one, or one of them has
been refused. -/
def Lawful (k : Nat) (h : List (Frame × Pushed)) (a : Assembly) : Prop :=
  Orderly k h a ∨ (∃ f, (f, .refused) ∈ h) ∧ Layout.begins (h.map Prod.fst) = false

def releases (h : List (Frame × Pushed)) : List Request :=
  h.filterMap fun p => match p.2 with
    | .released r => some r
    | _ => none

lemma releases_append (h h' : List (Frame × Pushed)) :
    releases (h ++ h') = releases h ++ releases h' := List.filterMap_append ..

/-- How many requests may still be released. -/
def chances (a : Assembly) : Nat := if a.done || a.entity.isSome then 0 else 1

def Single (h : List (Frame × Pushed)) (a : Assembly) : Prop :=
  (releases h).length + a.chances ≤ 1

/-- The assembly is done since there was an end, and has refused all behind it. -/
def Closing (h : List (Frame × Pushed)) (a : Assembly) : Prop :=
  (a.done ↔ .entityEnd ∈ h.map Prod.fst) ∧
    h.Pairwise fun x y => x.1 = .entityEnd → y.2 = .refused

lemma keeping_lawful : Relay.Keeping (Lawful k) where
  channel g hlaw := hlaw.imp_left (·.onChannel g)
  frame := by
    intro h a a' f q hlaw hdoes
    rw [Lawful, List.map_append]
    rcases hlaw with hc | ⟨⟨g, hg⟩, hnot⟩
    · rcases hc.does hdoes with ⟨rfl, hnot⟩ | hc'
      · exact .inr ⟨⟨f, List.mem_append_right _ (List.mem_singleton.2 rfl)⟩, hnot⟩
      · exact .inl hc'
    · refine .inr ⟨⟨g, List.mem_append_left _ hg⟩, ?_⟩
      exact Bool.eq_false_iff.2 fun hmore => Bool.eq_false_iff.1 hnot (begins_of_append hmore)

/-- A request is released at the cost of a chance. -/
lemma Does.chances (hdoes : a.Does f q a') :
    (releases [(f, q.settled)]).length + a'.chances ≤ a.chances := by
  cases hdoes with
  | @chunk r c hd he =>
    obtain ⟨hsettled, he', -⟩ := settled_deliver he c
    rw [hsettled]
    simp [releases, Assembly.chances, he']
  | start hd he => simp [releases, Assembly.chances, hd, he, Pushed.settled]
  | bodiless hd he => simp [releases, Assembly.chances, hd, he, Pushed.settled]
  | _ => simp_all [releases, Assembly.chances, Pushed.settled]

lemma keeping_single : Relay.Keeping Single where
  channel g hle := by rwa [Single, chances, isSome_onChannel]
  frame := by
    intro h a a' f q hle hdoes
    have hcost := hdoes.chances
    rw [Single, releases_append, List.length_append]
    rw [Single] at hle
    omega

lemma Does.done (hdoes : a.Does f q a') : a'.done ↔ a.done ∨ f = .entityEnd := by
  cases hdoes with
  | @chunk r c hd he =>
    obtain ⟨-, -, hdone⟩ := settled_deliver he c
    simp [hdone]
  | misplaced hd hm =>
    refine ⟨.inl, fun h => h.resolve_right ?_⟩
    rintro rfl
    exact hm
  | late hd => simp [hd]
  | _ => simp

lemma keeping_closing : Relay.Keeping Closing where
  channel g h := h
  frame := by
    intro h a a' f q hclosing hdoes
    obtain ⟨hdone, hpair⟩ := hclosing
    refine ⟨?_, List.pairwise_append.2 ⟨hpair, List.pairwise_singleton .., ?_⟩⟩
    · rw [hdoes.done, hdone]
      simp [eq_comm]
    · intro x hx y hy hend
      obtain ⟨rfl, -⟩ := hdoes.of_done (hdone.2 (List.mem_map.2 ⟨x, hx, hend⟩))
      rw [List.mem_singleton.1 hy]
      rfl

/-- What an assembly makes of the frames that have been pushed into it, whatever their order. -/
structure Obeys (k : Nat) (h : List (Frame × Pushed)) (a : Assembly) : Prop where
  /-- None is refused as long as they begin a request, and no longer. -/
  taken : (∀ f q, (f, q) ∈ h → q = .accepted ∨ ∃ r, q = .released r) ↔
    ∃ m : Layout, h.map Prod.fst <+: m.frames
  /-- As long as they do, the request is released once its head is complete, with its line and its
  headers. -/
  answered : (∃ m : Layout, h.map Prod.fst <+: m.frames) → ∃ m : Layout, h <+: m.answers k
  once : (releases h).length ≤ 1
  done : a.done ↔ .entityEnd ∈ h.map Prod.fst
  /-- Nothing is taken behind an end. -/
  closed : h.Pairwise fun x y => x.1 = .entityEnd → y.2 = .refused

lemma Lawful.taken (hlaw : Lawful k h a) :
    (∀ f q, (f, q) ∈ h → q = .accepted ∨ ∃ r, q = .released r) ↔
      ∃ m : Layout, h.map Prod.fst <+: m.frames := by
  rcases hlaw with hc | ⟨⟨f, hf⟩, hnot⟩
  · obtain ⟨m, hm⟩ := hc.prefix
    exact ⟨fun _ => begins_iff.1 hc.begins, fun _ f q hq => taken_of_mem (hm.subset hq)⟩
  · refine ⟨fun htaken => ?_, fun hm => ?_⟩
    · rcases htaken f .refused hf with hq | ⟨r, hq⟩ <;> cases hq
    · rw [← begins_iff, hnot] at hm
      cases hm

lemma Lawful.answered (hlaw : Lawful k h a) (hm : ∃ m : Layout, h.map Prod.fst <+: m.frames) :
    ∃ m : Layout, h <+: m.answers k := by
  rcases hlaw with hc | ⟨-, hnot⟩
  · exact hc.prefix
  · rw [← begins_iff, hnot] at hm
    cases hm

end Assembly

namespace Relay

open Layout (anyLine)

variable {k : Nat} {x : Relay}

lemma kept_start {P : List (Frame × Pushed) → Assembly → Prop} (k : Nat) (fs : List Frame)
    (hP : P [] (.create k)) : (start k fs).Kept P where
  holds := hP
  waits h := by cases h

lemma obeys_run (k : Nat) (fs : List Frame) (es : List Event) :
    ((start k fs).run es).assembly.Obeys k ((start k fs).run es).record := by
  have hlaw := ((kept_start k fs (.inl .fresh)).run Assembly.keeping_lawful es).holds
  have hsingle := ((kept_start k fs (Nat.le_refl 1)).run Assembly.keeping_single es).holds
  obtain ⟨hdone, hclosed⟩ :=
    ((kept_start k fs ⟨by simp [Assembly.create], .nil⟩).run Assembly.keeping_closing es).holds
  exact ⟨hlaw.taken, hlaw.answered, Nat.le_of_add_right_le hsingle, hdone, hclosed⟩

/-- **The language of an assembly.** Frames come in whatever order, and the receiver looks or leaves
whenever it likes. As long as the frames that have been pushed begin a request line, headers, and an
end or an entity, and no longer, all of them are taken, and the request is released once its head is
complete. No second one is ever released, an assembly is done just if there was an end, and it takes
nothing after that. If the receiver looks or leaves before each frame, all of them get through. -/
theorem language (k : Nat) (fs : List Frame) :
    (∀ es : List Event, let x := (start k fs).run es
      x.held = none →
        x.answered.map Prod.fst ++ x.upcoming = fs ∧ x.assembly.Obeys k x.answered) ∧
    ∀ ts : List Event, (∀ e ∈ ts, e ≠ .frame) → fs.length ≤ ts.length →
      let x := (start k fs).run (ts.flatMap fun e => [e, .frame])
      x.held = none ∧ x.upcoming = [] := by
  constructor
  · intro es x hx
    have hframes := (start k fs).frames_run es
    have hobeys := obeys_run k fs es
    rw [record_of_held_none hx] at hframes hobeys
    exact ⟨hframes, hobeys⟩
  · intro ts hts hle
    obtain ⟨hheld, hup⟩ := run_roomy (Assembly.shut_of_none rfl) (x := start k fs) rfl hts
    exact ⟨hheld, hup.trans (List.drop_eq_nil_of_le hle)⟩

/-- Two chunks of which the second waits for room, and an end too many. -/
def twoEnds : List Frame :=
  [.requestLine anyLine, .entityStart 2, .entityChunk [97], .entityChunk [98], .entityEnd,
    .entityEnd]

theorem language_twoEnds :
    let x := (start 1 twoEnds).run
      [.frame, .frame, .frame, .frame, .look, .frame, .frame, .frame]
    let y := (start 1 twoEnds).run ((List.replicate 6 .look).flatMap fun e => [e, .frame])
    x.held = none ∧ x.answered.getLast? = some (.entityEnd, .refused) ∧
      (x.answered.map Prod.fst ++ x.upcoming = twoEnds ∧ x.assembly.Obeys 1 x.answered) ∧
      y.held = none ∧ y.upcoming = [] :=
  ⟨rfl, rfl, (language 1 twoEnds).1 _ rfl,
    (language 1 twoEnds).2 (.replicate 6 .look) (by simp) (by decide)⟩

end Relay

end Http1
