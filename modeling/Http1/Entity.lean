import Http1.Entity.Channel

/-!
The entity of a message: nothing, bytes at hand, or a stream through a channel.
-/

namespace Http1

inductive Entity where
  | empty
  | strict (bytes : Bytes)
  | streaming (channel : Channel)

namespace Entity

/-- No bytes are no entity. -/
def ofBytes (b : Bytes) : Entity := if b = [] then empty else strict b

/-- The length, known beforehand for a stream too. -/
def length : Entity → Nat
  | empty => 0
  | strict b => b.length
  | streaming c => c.length

def isEmpty : Entity → Bool
  | empty => true
  | _ => false

def isStreaming : Entity → Bool
  | streaming _ => true
  | _ => false

/-- The bytes that are there from the start. -/
def atHand : Entity → Bytes
  | strict b => b
  | _ => []

def channel? : Entity → Option Channel
  | streaming c => some c
  | _ => none

def collect : Entity → Option (Except EntityError Bytes)
  | empty => some (.ok [])
  | strict b => some (.ok b)
  | streaming c => c.collect

end Entity

end Http1
