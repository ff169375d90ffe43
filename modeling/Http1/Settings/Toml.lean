import Http1.Settings
import Http1.Toml.Document

/-!
Settings from a TOML document.

What is not set has its default and names that say nothing are passed over. A record is a table,
or an array with its entries in their order.
-/

namespace Http1

open Toml (Value)

namespace Settings

/-- The entry of a record, by its place and its name: `none` if the value is no record. A date is
one too, of which no entry is known. -/
def entry? (v : Value) (place : Nat) (name : Text) : Option (Option Value) :=
  match v with
  | .table _ fields => some (fields.lookup name)
  | .array items => some items[place]?
  | .tables last earlier =>
    some (((last :: earlier).reverse.map fun fs => Value.table .header fs)[place]?)
  | .moment => some none
  | _ => none

/-- Reads an entry that has a default. -/
def orElse {α : Type} (read : Value → Option α) (fallback : α) : Option Value → Option α
  | none => some fallback
  | some v => read v

/-- A number that is not negative. -/
def count? : Value → Option Nat
  | .integer n => if 0 ≤ n then some n.toNat else none
  | _ => none

def text? : Value → Option Text
  | .text t => some t
  | _ => none

def number16? (v : Value) : Option UInt16 :=
  (count? v).bind fun n => if n < UInt16.size then some (UInt16.ofNat n) else none

def limits? (v : Value) : Option Limits := do
  let limit (place : Nat) (name : String) (fallback : Nat) : Option Nat := do
    orElse count? fallback (← entry? v place name.toList)
  let d := Limits.default
  let headerName ← limit 0 "header-name-length" d.headerName
  let headerValue ← limit 1 "header-value-length" d.headerValue
  let method ← limit 2 "method-length" d.method
  let target ← limit 3 "uri-length" d.target
  let version ← limit 4 "protocol-length" d.version
  return ⟨headerName, headerValue, method, target, version⟩

def host? (v : Value) : Option VirtualHost := do
  let entry (place : Nat) (name : String) : Option (Option Value) := entry? v place name.toList
  let host ← text? (← (← entry 0 "host"))
  let port ← number16? (← (← entry 1 "port"))
  let workers ← orElse (fun v => (count? v).map some) none (← entry 2 "workers")
  let buffer ← orElse count? Channel.defaultCapacity (← entry 3 "entity-buffer")
  return ⟨host, port, workers, buffer⟩

def hosts? : Value → Option (List VirtualHost)
  | .array items => items.mapM host?
  | .tables last earlier => (last :: earlier).reverse.mapM fun fs => host? (.table .header fs)
  | _ => none

def ofFields? (fs : Toml.Fields) : Option Settings := do
  let d := Settings.default
  let limits ← orElse limits? d.limits (fs.get? "parsing".toList)
  let hosts ← orElse hosts? d.hosts (fs.get? "vhosts".toList)
  let timeout ← orElse count? d.terminateTimeout (fs.get? "terminate-timeout".toList)
  return ⟨limits, hosts, timeout⟩

/-- Settings from the text of a document. -/
def ofToml (t : Text) : Except SettingsError Settings :=
  match (Toml.Fields.ofText? t).bind ofFields? with
  | some s => .ok s
  | none => .error .malformed

/-- Settings from the bytes of a file, if there is one. -/
def ofFile (contents : Option Bytes) : Except SettingsError Settings :=
  match contents.bind utf8? with
  | some t => ofToml t
  | none => .error .unreadable

end Settings

end Http1
