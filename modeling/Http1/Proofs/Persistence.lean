import Mathlib.Tactic.Lemma
import Http1.KeepAlive

/-!
Which connections go on.

A header names an option if it is a `Connection` header with the option's token among its own, up
to case and blanks. The first header that names an option at all decides, for every option; those
behind it are not looked at. Main statement: what decides that a connection closes. Where all
headers that name options name the same ones, each option is decided by any of them; where they
differ, their order tells.
-/

namespace Http1

namespace ConnectionOption

lemma eq_of_sameFold {t : Text} {o o' : ConnectionOption} (h : sameFold t o.name = true)
    (h' : sameFold t o'.name = true) : o = o' := by
  have hnames : ∀ o o' : ConnectionOption, foldCase o.name = foldCase o'.name → o = o' := by
    rintro (_ | _ | _) (_ | _ | _) <;> decide
  exact hnames o o' ((sameFold_iff.1 h).symm.trans (sameFold_iff.1 h'))

lemma ofToken?_eq_some_iff {t : Text} {o : ConnectionOption} :
    ofToken? t = some o ↔ sameFold (trim t) o.name = true := by
  constructor
  · intro h
    exact (List.find?_eq_some_iff_append.1 h).1
  · intro h
    have hmem : o ∈ [close, keepAlive, upgrade] := by cases o <;> decide
    rcases hf : ofToken? t with _ | o'
    · exact absurd h (List.find?_eq_none.1 hf o hmem)
    · exact congrArg some (eq_of_sameFold (List.find?_eq_some_iff_append.1 hf).1 h)

end ConnectionOption

def Header.Names (h : Header) (o : ConnectionOption) : Prop :=
  h.is connectionName.text = true ∧ ∃ t ∈ split ',' h.value.text, sameFold (trim t) o.name = true

instance (h : Header) (o : ConnectionOption) : Decidable (h.Names o) := instDecidableAnd

namespace ConnectionOptions

def has (os : ConnectionOptions) : ConnectionOption → Bool
  | .close => os.close
  | .keepAlive => os.keepAlive
  | .upgrade => os.upgrade

lemma mem_recognised {value : Text} {o : ConnectionOption} :
    o ∈ recognised value ↔ ∃ t ∈ split ',' value, sameFold (trim t) o.name = true := by
  simp [recognised, ConnectionOption.ofToken?_eq_some_iff]

lemma parse_eq_none_iff {value : Text} : parse value = none ↔ ∀ o, o ∉ recognised value := by
  rw [parse, ← List.eq_nil_iff_forall_not_mem]
  split <;> simp [*]

lemma has_of_parse {value : Text} {os : ConnectionOptions} (h : parse value = some os)
    (o : ConnectionOption) : os.has o = true ↔ o ∈ recognised value := by
  rw [parse] at h
  split at h
  · simp at h
  · rw [← Option.some.inj h]
    cases o <;> simp [has]

def said? (h : Header) : Option ConnectionOptions :=
  if h.is Header.connectionName.text then parse h.value.text else none

lemma said?_eq_none_iff {h : Header} : said? h = none ↔ ∀ o, ¬ h.Names o := by
  unfold said? Header.Names
  split
  · rename_i hname
    simp [hname, parse_eq_none_iff, mem_recognised]
  · rename_i hname
    simp [hname]

lemma has_of_said? {h : Header} {os : ConnectionOptions} (hos : said? h = some os)
    (o : ConnectionOption) : os.has o = true ↔ h.Names o := by
  unfold said? at hos
  split at hos
  · rename_i hname
    rw [has_of_parse hos, mem_recognised, Header.Names]
    simp [hname]
  · simp at hos

lemma ofHeaders_eq (hs : List Header) : ofHeaders hs = hs.findSome? said? := by
  induction hs with
  | nil => rfl
  | cons h hs ih =>
    rw [List.findSome?_cons, ← ih, said?]
    by_cases hname : h.is Header.connectionName.text <;>
      simp [ofHeaders, hname, List.findSome?_cons]

/-- The first header that names an option names this one. -/
def Decides (o : ConnectionOption) (hs : List Header) : Prop :=
  ∃ before h after, hs = before ++ h :: after ∧ (∀ x ∈ before, ∀ o', ¬ x.Names o') ∧ h.Names o

variable {hs : List Header} {o : ConnectionOption}

/-- **The first header that says something** is the one that is heard. -/
lemma has_ofHeaders (hs : List Header) (o : ConnectionOption) :
    (∃ os, ofHeaders hs = some os ∧ os.has o = true) ↔ Decides o hs := by
  rw [ofHeaders_eq]
  constructor
  · rintro ⟨os, hos, ho⟩
    obtain ⟨before, h, after, rfl, hsaid, hsilent⟩ := List.findSome?_eq_some_iff.1 hos
    exact ⟨before, h, after, rfl, fun x hx => said?_eq_none_iff.1 (hsilent x hx),
      (has_of_said? hsaid o).1 ho⟩
  · rintro ⟨before, h, after, rfl, hsilent, ho⟩
    rcases hsaid : said? h with _ | os
    · exact absurd ho (said?_eq_none_iff.1 hsaid o)
    · refine ⟨os, ?_, (has_of_said? hsaid o).2 ho⟩
      exact List.findSome?_eq_some_iff.2
        ⟨before, h, after, rfl, hsaid, fun x hx => said?_eq_none_iff.2 (hsilent x hx)⟩

lemma Decides.exists_names (h : Decides o hs) : ∃ x ∈ hs, x.Names o := by
  obtain ⟨before, x, after, rfl, -, hx⟩ := h
  exact ⟨x, by simp, hx⟩

lemma exists_first {x : Header} (hx : x ∈ hs) (ho : x.Names o) :
    ∃ before h after, hs = before ++ h :: after ∧ (∀ y ∈ before, ∀ o', ¬ y.Names o') ∧
      ∃ o', h.Names o' := by
  rcases hsaid : hs.findSome? said? with _ | os
  · exact absurd ho (said?_eq_none_iff.1 (List.findSome?_eq_none_iff.1 hsaid x hx) o)
  · obtain ⟨before, h, after, rfl, hh, hsilent⟩ := List.findSome?_eq_some_iff.1 hsaid
    refine ⟨before, h, after, rfl, fun y hy => said?_eq_none_iff.1 (hsilent y hy), ?_⟩
    refine Classical.not_forall_not.1 fun hnone => ?_
    rw [said?_eq_none_iff.2 hnone] at hh
    cases hh

/-- Headers that agree decide as any one of them does. -/
lemma decides_iff_of_agree (h : ∀ x ∈ hs, ∀ y ∈ hs, ∀ o₁ o₂, x.Names o₁ → y.Names o₂ → y.Names o₁)
    (o : ConnectionOption) : Decides o hs ↔ ∃ x ∈ hs, x.Names o := by
  refine ⟨Decides.exists_names, ?_⟩
  rintro ⟨x, hx, ho⟩
  obtain ⟨before, y, after, rfl, hsilent, o', ho'⟩ := exists_first hx ho
  exact ⟨before, y, after, rfl, hsilent, h x hx y (by simp) o o' ho ho'⟩

end ConnectionOptions

open ConnectionOptions (Decides)

/-- **What closes a connection**: in HTTP/1.1 the option to close, and in HTTP/1.0 the lack of the
option to keep it alive, as the first header decides that names an option. An option that is decided
on is named by some header. The converse holds where the headers that name options agree on them, in
whatever order they stand. -/
theorem shouldClose_iff_decides (hs : List Header) :
    (shouldClose .http11 hs = true ↔ Decides .close hs) ∧
    (shouldClose .http10 hs = false ↔ Decides .keepAlive hs) ∧
    (∀ o, Decides o hs → ∃ x ∈ hs, x.Names o) ∧
    ((∀ x ∈ hs, ∀ y ∈ hs, ∀ o₁ o₂, x.Names o₁ → y.Names o₂ → y.Names o₁) →
      ∀ o, Decides o hs ↔ ∃ x ∈ hs, x.Names o) := by
  refine ⟨?_, ?_, fun o => ConnectionOptions.Decides.exists_names,
    ConnectionOptions.decides_iff_of_agree⟩
  · rw [← ConnectionOptions.has_ofHeaders hs]
    rcases ho : ConnectionOptions.ofHeaders hs with _ | os <;>
      simp [shouldClose, ho, ConnectionOptions.has]
  · rw [← ConnectionOptions.has_ofHeaders hs]
    rcases ho : ConnectionOptions.ofHeaders hs with _ | os <;>
      simp [shouldClose, ho, ConnectionOptions.has]

def agreeingOptions : List Header :=
  [⟨Header.connectionName, ⟨"keep-alive".toList, by decide, by decide⟩⟩,
    ⟨Header.connectionName, ⟨"x".toList, by decide, by decide⟩⟩,
    ⟨Header.connectionName, ⟨"x, Keep-Alive".toList, by decide, by decide⟩⟩]

theorem shouldClose_agreeingOptions :
    (∀ x ∈ agreeingOptions, ∀ y ∈ agreeingOptions, ∀ o₁ o₂, x.Names o₁ → y.Names o₂ →
      y.Names o₁) ∧
    shouldClose .http10 agreeingOptions = false := by
  have hagree : ∀ x ∈ agreeingOptions, ∀ y ∈ agreeingOptions, ∀ o₁ o₂, x.Names o₁ → y.Names o₂ →
      y.Names o₁ := by
    intro x hx y hy o₁ o₂
    revert x y
    cases o₁ <;> cases o₂ <;> decide
  obtain ⟨-, hkeep, -, hiff⟩ := shouldClose_iff_decides agreeingOptions
  exact ⟨hagree, hkeep.2 ((hiff hagree .keepAlive).2 (by decide))⟩

def splitOptions : List Header :=
  [⟨Header.connectionName, ⟨"upgrade".toList, by decide, by decide⟩⟩,
    ⟨Header.connectionName, ⟨"close, keep-alive".toList, by decide, by decide⟩⟩]

/-- Behind a header with another option, neither `close` nor `keep-alive` is heard; in front of it
both are. -/
theorem shouldClose_splitOptions :
    ((∃ x ∈ splitOptions, x.Names .close) ∧ shouldClose .http11 splitOptions = false) ∧
    ((∃ x ∈ splitOptions, x.Names .keepAlive) ∧ shouldClose .http10 splitOptions = true) ∧
    shouldClose .http11 splitOptions.reverse = true ∧
    shouldClose .http10 splitOptions.reverse = false := by
  decide

end Http1
