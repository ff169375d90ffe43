import Http1.Proofs.Reading

/-!
Where the input is cut does not show.

A schedule says how the bytes of a connection are given to its framing, piece by piece. Whatever
the pieces and the moments at which they are given, the run comes to the reading of all bytes in
one: the same frames up to the cuts inside an entity, and the same end.
-/

namespace Http1

namespace Framing

/-- When a piece is given: to a framing that waits for it, or with the next step, be there a frame
or not. -/
inductive Moment where
  | waiting
  | atOnce
  deriving DecidableEq

structure Piece where
  moment : Moment
  bytes : Bytes
  deriving DecidableEq

def total (s : List Piece) : Bytes := s.flatMap Piece.bytes

@[simp] lemma total_cons (piece : Piece) (s : List Piece) :
    total (piece :: s) = piece.bytes ++ total s := rfl

/-- Gives a framing the pieces of a schedule and drains it at the end. An empty piece that is given
at once is a step without bytes. -/
def play (f : Framing) : List Piece → Run
  | [] => f.drain
  | ⟨.atOnce, b⟩ :: s => (f.advance b).andThen fun g => g.play s
  | ⟨.waiting, b⟩ :: s => (Run.andThen f.drain fun g => g.advance b).andThen fun g => g.play s

/-! ### Steps -/

def walk (f : Framing) : List Bytes → Run
  | [] => ([], .ok f)
  | b :: bs => (f.advance b).andThen fun g => g.walk bs

lemma walk_singleton (f : Framing) (b : Bytes) : f.walk [b] = f.advance b := Run.andThen_ok_nil _

lemma walk_append (f : Framing) (bs cs : List Bytes) :
    f.walk (bs ++ cs) = (f.walk bs).andThen fun g => g.walk cs := by
  induction bs generalizing f with
  | nil => simp [walk]
  | cons b bs ih =>
    rw [List.cons_append, walk, walk, Run.andThen_assoc]
    congr
    exact funext ih

lemma drain_eq_walk (f : Framing) : ∃ n, f.drain = f.walk (List.replicate n []) := by
  induction hw : f.weight using Nat.strongRecOn generalizing f with
  | _ w ih =>
    rcases hf : f.frame with _ | frame
    · exact ⟨0, drain_of_none hf⟩
    · rw [drain_of_some hf]
      rcases hn : f.next [] with e | g
      · exact ⟨1, by simp [walk, advance, hn]⟩
      · obtain ⟨n, hg⟩ := ih _ (hw ▸ weight_next_lt hf hn) g rfl
        exact ⟨n + 1, by simp [List.replicate_succ, walk, advance, hn, hg]⟩

lemma play_eq_walk (f : Framing) (s : List Piece) :
    ∃ bs : List Bytes, bs.flatten = total s ∧ f.play s = f.walk bs := by
  induction s generalizing f with
  | nil =>
    obtain ⟨n, h⟩ := drain_eq_walk f
    exact ⟨_, by simp [total], h⟩
  | cons piece s ih =>
    obtain ⟨moment, b⟩ := piece
    -- the steps that lead up to the piece
    obtain ⟨as, has, hplay⟩ : ∃ as : List Bytes, as.flatten = b ∧
        f.play (⟨moment, b⟩ :: s) = (f.walk as).andThen fun g => g.play s := by
      rcases moment with _ | _
      · obtain ⟨n, h⟩ := drain_eq_walk f
        refine ⟨List.replicate n [] ++ [b], by simp, ?_⟩
        rw [play, h, walk_append]
        simp only [walk_singleton]
      · exact ⟨[b], by simp, by rw [play, walk_singleton]⟩
    rcases hw : f.walk as with ⟨fs, e | g⟩
    · refine ⟨as ++ [total s], by simp [has], ?_⟩
      rw [hplay, walk_append, hw, Run.andThen_error, Run.andThen_error]
    · obtain ⟨bs, hbs, hg⟩ := ih g
      refine ⟨as ++ bs, by simp [has, hbs], ?_⟩
      rw [hplay, walk_append, hw, Run.andThen_ok, Run.andThen_ok, hg]

/-! ### The reading of a run -/

variable {l : Lexicon} {p : Phase} {a : Bytes} {f : Framing}

lemma next_of_build (h : build l p a = .ok f) (b : Bytes) :
    f.next b = build l f.nextPhase (f.buffer ++ b) := by
  rw [next, lexicon_of_build h]

lemma merge_walk_andThen_drain (hp : p.Sound l) (h : build l p a = .ok f) (bs : List Bytes) :
    ((f.walk bs).andThen drain).merge = reading l p (a ++ bs.flatten) := by
  induction bs generalizing p a f with
  | nil =>
    rw [walk, Run.andThen_ok, List.nil_append, List.flatten_nil, List.append_nil]
    exact (reading_of_build h).symm
  | cons b bs ih =>
    have hrest : (Run.andThen ([], f.next b) fun g => (g.walk bs).andThen drain).merge =
        reading l f.nextPhase (f.buffer ++ b ++ bs.flatten) := by
      rw [next_of_build h]
      rcases hn : build l f.nextPhase (f.buffer ++ b) with e | g
      · rw [reading_append_error (sound_nextPhase hp h) (scan_of_build_error hn)]
        rfl
      · rw [Run.andThen_ok, List.nil_append]
        exact ih (sound_nextPhase hp h) hn
    rw [walk, Run.andThen_assoc, Run.andThen_eq, Run.merge_append, List.flatten_cons,
      reading_build hp h, ← List.append_assoc, ← hrest]
    rfl

/-- A run that does not fail ends in a framing that waits. -/
def Run.Waits (r : Run) : Prop := ∀ f, r.2 = .ok f → f.frame = none

lemma Run.Waits.andThen {k : Framing → Run} (hk : ∀ f, (k f).Waits) (r : Run) :
    (r.andThen k).Waits := by
  intro f h
  rcases r with ⟨fs, e | g⟩
  · simp at h
  · exact hk g f h

lemma Run.Waits.andThen_drain {r : Run} (h : r.Waits) : r.andThen drain = r := by
  rcases r with ⟨fs, e | g⟩
  · rfl
  · rw [Run.andThen_ok, drain_of_none (h g rfl), List.append_nil]

lemma waits_drain (f : Framing) : Run.Waits f.drain := by
  induction hw : f.weight using Nat.strongRecOn generalizing f with
  | _ w ih =>
    rcases hf : f.frame with _ | frame
    · rw [drain_of_none hf]
      intro g hg
      cases hg
      exact hf
    · rw [drain_of_some hf]
      rcases hn : f.next [] with e | g
      · intro g hg
        simp [advance, hn] at hg
      · intro g' hg'
        simp only [advance, hn, Run.andThen_ok] at hg'
        exact ih _ (hw ▸ weight_next_lt hf hn) g rfl g' hg'

lemma waits_play (f : Framing) (s : List Piece) : (f.play s).Waits := by
  induction s generalizing f with
  | nil => exact waits_drain f
  | cons piece s ih =>
    rcases piece with ⟨_ | _, b⟩
    · exact Run.Waits.andThen ih _
    · exact Run.Waits.andThen ih _

/-- Whatever the schedule, a connection is read as all of its bytes. -/
lemma merge_play (l : Lexicon) (s : List Piece) :
    ((init l).play s).merge = reading l .requestLine (total s) := by
  obtain ⟨bs, hbs, hplay⟩ := play_eq_walk (init l) s
  have hw : ((init l).walk bs).Waits := hplay ▸ waits_play (init l) s
  have hr := merge_walk_andThen_drain (p := .requestLine) trivial (build_init l) bs
  rw [List.nil_append, hbs] at hr
  rw [hplay, ← hw.andThen_drain, hr]

/-- **Chunk boundaries do not show**: two schedules of the same bytes give the same frames, up to
the cuts inside an entity, and end in the same failure or in the same framing, which waits. -/
theorem merge_play_eq_of_total_eq (l : Lexicon) {s t : List Piece} (h : total s = total t) :
    ((init l).play s).merge = ((init l).play t).merge ∧
      ∀ f, ((init l).play s).2 = .ok f → f.frame = none :=
  ⟨by rw [merge_play, merge_play, h], waits_play _ s⟩

def cutRequest : List Piece :=
  [⟨.waiting, utf8 "GET / HTTP/1.0\r\nContent-Length:2\r\n\r".toList⟩,
    ⟨.atOnce, []⟩, ⟨.atOnce, utf8 "\na".toList⟩, ⟨.waiting, utf8 "bcd".toList⟩]

theorem merge_play_cutRequest :
    total cutRequest =
        total [⟨.atOnce, utf8 "GET / HTTP/1.0\r\nContent-Length:2\r\n\r\nabcd".toList⟩] ∧
      ((init (Limits.mk 20 10 10 10 10).lexicon).play cutRequest).merge =
        ((init (Limits.mk 20 10 10 10 10).lexicon).play
          [⟨.atOnce, utf8 "GET / HTTP/1.0\r\nContent-Length:2\r\n\r\nabcd".toList⟩]).merge ∧
      ∀ f, ((init (Limits.mk 20 10 10 10 10).lexicon).play cutRequest).2 = .ok f → f.frame = none :=
  ⟨by decide, merge_play_eq_of_total_eq _ (by decide)⟩

lemma feed_eq_play (f : Framing) (cs : List Bytes) :
    f.feed cs = f.play (cs.map fun c => ⟨.waiting, c⟩) := by
  induction cs generalizing f with
  | nil => rfl
  | cons c cs ih =>
    rw [feed, List.map_cons, play]
    rcases hd : f.drain with ⟨frames, e | g⟩
    · rfl
    · have hg : g.frame = none := waits_drain f g (by rw [hd])
      rcases hn : g.next c with e | g'
      · simp [advance, hg, hn]
      · simp [advance, hg, hn, ih]

end Framing

end Http1
