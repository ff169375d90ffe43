import Http1.Scan
import Http1.ParseError

/-!
A token is the bytes up to the first occurrence of a separator, within a bound.

Only the first `maxLen` bytes, and a separator right behind them, are ever looked at. So a
token that is too long is told apart from one that has not fully come, and no input makes the
search run on.
-/

namespace Http1

/-- The first offset, counted from `i`, at which the separator stands. -/
def offsetFrom? (sep : Bytes) (i : Nat) (input : Bytes) : Option Nat :=
  if sep.isPrefixOf input then some i
  else
    match input with
    | [] => none
    | _ :: r => offsetFrom? sep (i + 1) r

/-- The first offset at which the separator stands. -/
def offset? (sep input : Bytes) : Option Nat := offsetFrom? sep 0 input

/-- Lengths are below this bound, and so is a sum of two. -/
def maxSize : Nat := UInt64.size - 1

/-- How many bytes decide about a token: the longest one and its separator. -/
def window (sep : Bytes) (maxLen : Nat) : Nat := min (maxLen + sep.length) maxSize

/-- The token before the first separator, which starts at `maxLen` at the latest. What follows
is handed on without the separator when `dropSep` says so. -/
def token (sep : Bytes) (maxLen : Nat) (dropSep : Bool) : Scanner ParseError Bytes := fun input =>
  match offset? sep (input.take (window sep maxLen)) with
  | some i => .ok (.done (input.take i) (input.drop (if dropSep then i + sep.length else i)))
  | none =>
    if window sep maxLen ≤ input.length then .error .illegalFormat else .ok (.pending input)

theorem offsetFrom?_le {sep input : Bytes} {i k : Nat} (h : offsetFrom? sep i input = some k) :
    k + sep.length ≤ i + input.length := by
  induction input generalizing i with
  | nil =>
    unfold offsetFrom? at h
    split at h
    · rename_i hp
      have := (List.isPrefixOf_iff_prefix.1 hp).length_le
      simp only [Option.some.injEq] at h
      omega
    · simp at h
  | cons b r ih =>
    unfold offsetFrom? at h
    split at h
    · rename_i hp
      have := (List.isPrefixOf_iff_prefix.1 hp).length_le
      simp only [Option.some.injEq] at h
      omega
    · have := ih h
      simp only [List.length_cons]
      omega

/-- A token behind which the separator is dropped costs the separator's length at least. -/
theorem token_shortens {sep : Bytes} (hs : sep ≠ []) (maxLen : Nat) :
    (token sep maxLen true).Shortens := by
  intro input a r h
  unfold token at h
  split at h
  · rename_i i hi
    simp only [Except.ok.injEq, Scan.done.injEq, if_true] at h
    have h1 := offsetFrom?_le hi
    have h2 : 0 < sep.length := List.length_pos_iff.2 hs
    simp only [List.length_take] at h1
    rw [← h.2, List.length_drop]
    omega
  · split at h <;> simp at h

end Http1
