import Http1.Entity.Channel
import Http1.Limits

/-!
Settings of a server: the longest fields it takes, the addresses it listens on, and how long it
waits for its connections when it stops.
-/

namespace Http1

/-- An address to listen on, and how its connections are served. -/
structure VirtualHost where
  host : Text
  port : UInt16
  /-- Threads of its own, or none to share those of the server. -/
  workers : Option Nat
  /-- How many chunks of a streamed entity may wait. -/
  entityBuffer : Nat
  deriving DecidableEq

namespace VirtualHost

/-- A host with threads that it shares and the usual room for chunks. -/
def make (host : Text) (port : UInt16) : VirtualHost := ⟨host, port, none, Channel.defaultCapacity⟩

def address (v : VirtualHost) : Text := v.host ++ ':' :: decimal v.port.toNat

end VirtualHost

structure Settings where
  limits : Limits
  hosts : List VirtualHost
  /-- In seconds. -/
  terminateTimeout : Nat
  deriving DecidableEq

namespace Settings

def defaultTimeout : Nat := 10

def make (l : Limits) (hosts : List VirtualHost) : Settings := ⟨l, hosts, defaultTimeout⟩

/-- One host, on a local address. -/
def default : Settings := make .default [.make "127.0.0.1".toList 8080]

end Settings

/-- Why there are no settings. -/
inductive SettingsError where
  | unreadable
  | malformed
  deriving DecidableEq, Repr

def SettingsError.message : SettingsError → Text
  | unreadable => "failed to read config".toList
  | malformed => "failed to parse config".toList

end Http1
