import Http1.Bytes

/-!
The outcome of reading one thing from the front of a byte string.

A scan is done, with a value and the bytes after it, or it is pending: no value yet, and the
bytes that have to be tried again once more have come. Malformed bytes are an error of the
reader, outside the scan.
-/

namespace Http1

inductive Scan (α : Type) where
  | done (value : α) (rest : Bytes)
  | pending (rest : Bytes)
  deriving DecidableEq, Repr

namespace Scan

variable {α β ε : Type}

def isPending : Scan α → Bool
  | done .. => false
  | pending _ => true

def value? : Scan α → Option α
  | done a _ => some a
  | pending _ => none

def rest : Scan α → Bytes
  | done _ r => r
  | pending r => r

def parts (s : Scan α) : Option α × Bytes := (s.value?, s.rest)

def done? : Scan α → Option (α × Bytes)
  | done a r => some (a, r)
  | pending _ => none

def map (f : α → β) : Scan α → Scan β
  | done a r => done (f a) r
  | pending r => pending r

/-- Puts the value through a function that may refuse it. -/
def tryMap (f : α → Except ε β) : Scan α → Except ε (Scan β)
  | done a r => (f a).map (done · r)
  | pending r => .ok (pending r)

/-- Reads on behind the value. -/
def andThen (s : Scan α) (f : α → Bytes → Except ε (Scan β)) : Except ε (Scan β) :=
  match s with
  | done a r => f a r
  | pending r => .ok (pending r)

/-- A pending scan gives back `input`: a reader that stops halfway loses nothing of what its
first fields took. -/
def orRewind (s : Scan α) (input : Bytes) : Scan α :=
  match s with
  | done a r => done a r
  | pending _ => pending input

@[simp] theorem rest_map (f : α → β) (s : Scan α) : (s.map f).rest = s.rest := by cases s <;> rfl

@[simp] theorem map_map {γ : Type} (g : β → γ) (f : α → β) (s : Scan α) :
    (s.map f).map g = s.map (g ∘ f) := by cases s <;> rfl

@[simp] theorem orRewind_orRewind (s : Scan α) (b c : Bytes) :
    (s.orRewind b).orRewind c = s.orRewind c := by cases s <;> rfl

end Scan

/-- A reader from the front of a byte string, with errors in `ε`. -/
abbrev Scanner (ε α : Type) := Bytes → Except ε (Scan α)

namespace Scanner

variable {α β ε : Type}

def map (p : Scanner ε α) (f : α → β) : Scanner ε β := fun input => (p input).map (·.map f)

def tryMap (p : Scanner ε α) (f : α → Except ε β) : Scanner ε β := fun input =>
  match p input with
  | .ok s => s.tryMap f
  | .error e => .error e

/-- Reads one thing, and the next behind it. -/
def andThen (p : Scanner ε α) (f : α → Scanner ε β) : Scanner ε β := fun input =>
  match p input with
  | .ok s => s.andThen f
  | .error e => .error e

/-- All or nothing: the scan is pending with its whole input until every part has come. -/
def whole (p : Scanner ε α) : Scanner ε α := fun input => (p input).map (·.orRewind input)

/-- A scanner **shortens** its input when each value it finds costs at least one byte. -/
def Shortens (p : Scanner ε α) : Prop :=
  ∀ input a r, p input = .ok (.done a r) → r.length < input.length

variable {p : Scanner ε α}

theorem Shortens.map (hp : p.Shortens) (f : α → β) : (p.map f).Shortens := by
  intro input b r h
  rcases hs : p input with e | ⟨a, r'⟩ | r' <;>
    simp only [Scanner.map, hs, Except.map, Scan.map, Except.ok.injEq, Scan.done.injEq,
      reduceCtorEq] at h
  exact h.2 ▸ hp input a r' hs

theorem Shortens.tryMap (hp : p.Shortens) (f : α → Except ε β) : (p.tryMap f).Shortens := by
  intro input b r h
  rcases hs : p input with e | ⟨a, r'⟩ | r' <;>
    simp only [Scanner.tryMap, hs, Scan.tryMap, Except.ok.injEq, reduceCtorEq] at h
  rcases hf : f a with e | b' <;>
    simp only [hf, Except.map, Except.ok.injEq, Scan.done.injEq, reduceCtorEq] at h
  exact h.2 ▸ hp input a r' hs

theorem Shortens.andThen (hp : p.Shortens) {f : α → Scanner ε β} (hf : ∀ a, (f a).Shortens) :
    (p.andThen f).Shortens := by
  intro input b r h
  rcases hs : p input with e | ⟨a, r'⟩ | r' <;>
    simp only [Scanner.andThen, hs, Scan.andThen, Except.ok.injEq, reduceCtorEq] at h
  exact Nat.lt_trans (hf a r' b r h) (hp input a r' hs)

/-- A scanner **rewinds** when it is pending with the whole of its input only. -/
def Rewinds (p : Scanner ε α) : Prop := ∀ input r, p input = .ok (.pending r) → r = input

theorem Rewinds.map (hp : p.Rewinds) (f : α → β) : (p.map f).Rewinds := by
  intro input r h
  rcases hs : p input with e | ⟨a, r'⟩ | r' <;>
    simp only [Scanner.map, hs, Except.map, Scan.map, Except.ok.injEq, Scan.pending.injEq,
      reduceCtorEq] at h
  exact h ▸ hp input r' hs

theorem whole_rewinds (p : Scanner ε α) : p.whole.Rewinds := by
  intro input r h
  rcases hs : p input with e | ⟨a, r'⟩ | r' <;>
    simp only [Scanner.whole, hs, Except.map, Scan.orRewind, Except.ok.injEq, Scan.pending.injEq,
      reduceCtorEq] at h
  exact h.symm

theorem Shortens.whole (hp : p.Shortens) : p.whole.Shortens := by
  intro input b r h
  rcases hs : p input with e | ⟨a, r'⟩ | r' <;>
    simp only [Scanner.whole, hs, Except.map, Scan.orRewind, Except.ok.injEq, Scan.done.injEq,
      reduceCtorEq] at h
  exact h.2 ▸ hp input a r' hs

end Scanner

end Http1
