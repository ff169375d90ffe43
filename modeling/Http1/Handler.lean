import Http1.Request
import Http1.Response

/-!
Handlers: which requests one accepts, and how it answers them.

The answer may depend on the entity, which comes in chunks. A plan says after which chunks the
answer is ready, and what it is when the stream ends; until then it asks for the next chunk. A
handler that answers without the entity's end leaves the rest of it.
-/

namespace Http1

/-- What a handler comes to. -/
inductive Answer where
  | respond (r : Response)
  /-- A response whose entity is that of the request. -/
  | forward (status : Status) (headers : List Header)
  | fail (message : Text)

structure Plan where
  /-- The answer that is ready after these chunks, if it is. -/
  early : List Bytes → Option Answer
  /-- The answer at the end of the stream, clean or not. -/
  final : List Bytes → Option EntityError → Answer

namespace Plan

/-- An answer that does not wait for the entity. -/
def now (a : Answer) : Plan := ⟨fun _ => some a, fun _ _ => a⟩

/-- An answer from the whole entity or its error. -/
def collected (f : Except EntityError Bytes → Answer) : Plan where
  early _ := none
  final got
    | none => f (.ok got.flatten)
    | some e => f (.error e)

/-- Carries a plan out on what a channel brings, after the chunks in `got`; nothing if the
stream has not come far enough. The channel is handed back as the plan leaves it. -/
def onChannel (p : Plan) (got : List Bytes) (c : Channel) : Option (Answer × Channel) :=
  match p.early got with
  | some a => some (a, c)
  | none =>
    match h : c.poll.1 with
    | .chunk b =>
      have := Channel.length_poll_lt h
      p.onChannel (got ++ [b]) c.poll.2
    | .failed e => some (p.final got (some e), c.poll.2)
    | .ended => some (p.final got none, c.poll.2)
    | .pending => none
termination_by c.queue.length

def onEntity (p : Plan) : Entity → Option (Answer × Entity)
  | .streaming c => (p.onChannel [] c).map fun (a, c) => (a, .streaming c)
  | e => some ((p.early []).getD (p.final [e.atHand] none), e)

end Plan

/-- The response that an answer stands for, given the request's entity. -/
def Answer.resolve (a : Answer) (e : Entity) : Except Text Response :=
  match a with
  | respond r => .ok r
  | forward s hs => .ok ⟨s, hs, e⟩
  | fail message => .error message

structure Handler where
  accepts : Request → Bool
  plan : Request → Plan

/-- Answers a request, accepted or not, from as much of its entity as is there. -/
def Handler.apply (h : Handler) (r : Request) : Option (Except Text Response) :=
  ((h.plan r).onEntity r.entity).map fun (a, e) => a.resolve e

end Http1
