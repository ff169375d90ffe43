import Http1.ConnectionError
import Http1.Frame
import Http1.Request

/-!
Assembly of a single request from its frames.

The request is released as soon as its head is complete: without an entity at its end, or with
a stream at the start of the entity. Later chunks go into that stream's channel, which the
assembly holds; those whose receiver has left are dropped. An assembly makes one request, and
a frame out of order is refused, though it may leave its mark.
-/

namespace Http1

/-- An entity on its way. -/
structure Receiving where
  channel : Channel
  /-- How many bytes have come. -/
  received : Nat

structure Assembly where
  /-- How many chunks a stream may hold. -/
  capacity : Nat
  line : Option RequestLine
  headers : List Header
  entity : Option Receiving
  done : Bool

namespace Assembly

def create (capacity : Nat) : Assembly := ⟨capacity, none, [], none, false⟩

/-- What becomes of a frame. -/
inductive Pushed where
  | accepted
  | released (r : Request)
  /-- The chunk does not fit; it counts as received, and may be offered again. -/
  | blocked (chunk : Bytes)
  | refused

/-- The request is released and its entity is still coming. -/
def isStreaming (a : Assembly) : Bool := a.entity.isSome && !a.done

/-- The channel of the entity, once it has started. -/
def channel? (a : Assembly) : Option Channel := a.entity.map (·.channel)

def onChannel (a : Assembly) (f : Channel → Channel) : Assembly :=
  { a with entity := a.entity.map fun r => { r with channel := f r.channel } }

def deliver (a : Assembly) (chunk : Bytes) : Pushed × Assembly :=
  match a.entity with
  | none => (.refused, a)
  | some r =>
    match r.channel.offer chunk with
    | .sent c => (.accepted, { a with entity := some { r with channel := c } })
    | .full => (.blocked chunk, a)
    | .closed => (.accepted, a)

def count (a : Assembly) (chunk : Bytes) : Assembly :=
  { a with entity := a.entity.map fun r => { r with received := r.received + chunk.length } }

/-- Releases the request with its entity, if there is a request line. -/
def release (a : Assembly) (e : Entity) : Pushed × Assembly :=
  match a.line with
  | some l => (.released ⟨l, a.headers, e⟩, { a with line := none, headers := [] })
  | none => (.refused, a)

def push (a : Assembly) (f : Frame) : Pushed × Assembly :=
  if a.done then (.refused, a)
  else
    match f with
    | .requestLine l =>
      if a.entity.isSome then (.refused, a)
      else (if a.line.isSome then .refused else .accepted, { a with line := some l })
    | .header h =>
      if a.line.isNone || a.entity.isSome then (.refused, a)
      else (.accepted, { a with headers := a.headers ++ [h] })
    | .entityStart n =>
      if a.entity.isSome then (.refused, a)
      else
        let c := Channel.create n a.capacity
        match a.release (.streaming c) with
        | (.released r, a) => (.released r, { a with entity := some ⟨c, 0⟩ })
        | (p, a) => (p, { a with entity := some ⟨c.leave, 0⟩ })
    | .entityChunk chunk => (a.count chunk).deliver chunk
    | .entityEnd =>
      match a.entity with
      | some _ => (.accepted, { a.onChannel Channel.hangUp with done := true })
      | none => { a with done := true }.release .empty

theorem count_entity {a : Assembly} {r : Receiving} (he : a.entity = some r) (chunk : Bytes) :
    (a.count chunk).entity = some { r with received := r.received + chunk.length } := by
  simp [count, he]

theorem push_chunk {a : Assembly} (hd : a.done = false) (chunk : Bytes) :
    a.push (.entityChunk chunk) = (a.count chunk).deliver chunk := by
  simp [push, hd]

theorem push_end {a : Assembly} {r : Receiving} (he : a.entity = some r) (hd : a.done = false) :
    a.push .entityEnd = (.accepted, { a.onChannel Channel.hangUp with done := true }) := by
  simp [push, hd, he]

/-- None but a chunk has to wait. -/
theorem push_of_blocked {a : Assembly} {f : Frame} {c : Bytes} (h : (a.push f).1 = .blocked c) :
    ∃ chunk, f = .entityChunk chunk ∧ a.push f = (a.count chunk).deliver chunk := by
  have release_ne : ∀ (a : Assembly) (e : Entity), (a.release e).1 ≠ .blocked c := fun a e => by
    unfold release
    split <;> simp
  rcases hd : a.done with _ | _
  · unfold push at h
    rw [if_neg (by simp [hd])] at h
    split at h
    · split at h
      · simp at h
      · split at h <;> simp at h
    · split at h <;> simp at h
    · split at h
      · simp at h
      · rename_i n _
        have hne := release_ne a (.streaming (Channel.create n a.capacity))
        dsimp only at h
        split at h
        · simp at h
        · rename_i hr
          rw [hr] at hne
          exact absurd h hne
    · exact ⟨_, rfl, push_chunk hd _⟩
    · split at h
      · simp at h
      · exact absurd h (release_ne _ _)
  · simp [push, hd] at h

/-- The error that the receiver finds if the entity is cut short now. -/
def truncated? (a : Assembly) : Option EntityError :=
  if a.done then none else a.entity.map fun r => .truncated r.channel.length r.received

/-- Fails the stream, if it is still coming. -/
def abort (a : Assembly) (e : EntityError) : Assembly :=
  if a.done then a else a.onChannel (·.abort e)

/-- The assembly goes, and the sender of its stream with it. -/
def drop (a : Assembly) : Assembly := a.onChannel Channel.hangUp

def load (a : Assembly) : Nat := (a.channel?.map Channel.load).getD 0

theorem load_onChannel_le (a : Assembly) {f : Channel → Channel} (hf : ∀ c, (f c).load ≤ c.load) :
    (a.onChannel f).load ≤ a.load := by
  unfold load channel? onChannel
  cases a.entity with
  | none => simp
  | some r => simpa using hf r.channel

theorem load_drop_le (a : Assembly) : a.drop.load ≤ a.load :=
  a.load_onChannel_le fun _ => Nat.le_refl _

theorem load_abort_le (a : Assembly) (e : EntityError) : (a.abort e).load ≤ a.load := by
  unfold abort
  split
  · exact Nat.le_refl _
  · exact a.load_onChannel_le fun c => by simp

/-- A chunk that is delivered adds no more than its own load, and one that is blocked none. -/
theorem load_deliver (a : Assembly) (chunk : Bytes) :
    (a.deliver chunk).2.load ≤ a.load + (2 * chunk.length + 2) ∧
      ∀ c, (a.deliver chunk).1 = .blocked c →
        c = chunk ∧ (a.deliver chunk).2.load = a.load := by
  unfold deliver
  split
  · simp
  · rename_i r hr
    split
    · rename_i c hc
      have := Channel.load_of_offer hc
      simp [load, channel?, hr, this]
    · simp
    · simp

theorem load_push (a : Assembly) (f : Frame) :
    (a.push f).2.load ≤ a.load + (2 * f.size + 2) ∧
      ∀ c, (a.push f).1 = .blocked c → c.length = f.size ∧ (a.push f).2.load = a.load := by
  have count_load : ∀ chunk, (a.count chunk).load = a.load := fun chunk => by
    unfold load channel? count
    cases a.entity <;> rfl
  have release_load : ∀ (a : Assembly) (e : Entity), (a.release e).2.load = a.load := fun a e => by
    unfold release
    split <;> simp [load, channel?]
  refine ⟨?_, fun c hc => ?_⟩
  · unfold push
    split
    · simp
    · split
      · split
        · simp
        · split <;> simp [load, channel?]
      · split
        · simp
        · simp [load, channel?]
      · split
        · simp
        · dsimp only
          split <;> simp [load, channel?]
      · rename_i chunk
        have h := ((a.count chunk).load_deliver chunk).1
        rwa [count_load] at h
      · split
        · have : (a.onChannel Channel.hangUp).load ≤ a.load :=
            a.load_onChannel_le fun _ => Nat.le_refl _
          simp only [load, channel?] at this ⊢
          omega
        · rw [release_load]
          simp [load, channel?]
  · obtain ⟨chunk, rfl, hpush⟩ := push_of_blocked hc
    rw [hpush] at hc ⊢
    obtain ⟨rfl, hload⟩ := ((a.count chunk).load_deliver chunk).2 c hc
    exact ⟨rfl, hload.trans (count_load c)⟩

end Assembly

end Http1
