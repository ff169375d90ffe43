import Mathlib.Data.List.TakeWhile
import Mathlib.Data.Set.List
import Http1.Proofs.Persistence

/-!
The options of a value, as a set.

A value is a list of tokens between commas, and what it asks for are the options that its tokens
name. Reading them one after the other, with a flag for each option and a mark that there was any,
comes to that set: a token adds the option it names, and one that names none is passed over.
Main statement: values that are joined by a comma have the options of both. In any list of tokens
an option is set just if one of the tokens names it, whatever stands around them and between them.
So lists that name the same options say the same.
-/

namespace Http1

/-! ### Cuts at a character -/

lemma split_eq_splitOn (sep : Char) (t : Text) : split sep t = t.splitOn sep := by
  induction t with
  | nil => rfl
  | cons c t ih =>
    rw [split, ih, List.splitOn_cons_eq_if_modifyHead]
    by_cases hc : c = sep
    · simp [hc]
    · simp only [hc, if_false, beq_iff_eq]
      cases h : t.splitOn sep with
      | nil => exact (List.splitOn_ne_nil sep t h).elim
      | cons p ps => rfl

lemma split_append_cons (sep : Char) (s t : Text) :
    split sep (s ++ sep :: t) = split sep s ++ split sep t := by
  simp only [split_eq_splitOn, List.splitOn_append_cons_self]

lemma notMem_of_mem_split {sep : Char} {p t : Text} (h : p ∈ split sep t) : sep ∉ p := by
  induction t generalizing p with
  | nil =>
    obtain rfl : p = [] := by simpa [split] using h
    exact List.not_mem_nil
  | cons c t ih =>
    rw [split] at h
    split at h
    · rcases List.mem_cons.1 h with rfl | hp
      · exact List.not_mem_nil
      · exact ih hp
    · rename_i hc
      cases hs : split sep t with
      | nil => exact absurd hs (split_ne_nil sep t)
      | cons q qs =>
        rw [hs] at h ih
        rcases List.mem_cons.1 h with rfl | hp
        · exact List.not_mem_cons_of_ne_of_not_mem (Ne.symm hc) (ih List.mem_cons_self)
        · exact ih (List.mem_cons_of_mem q hp)

/-! ### Blanks around a text -/

lemma trimEnd_append_of_blank {t u : Text} (hu : ∀ c ∈ u, isBlank c = true) :
    trimEnd (t ++ u) = trimEnd t := by
  rw [trimEnd, trimEnd, List.reverse_append, trimStart, trimStart,
    List.dropWhile_append_of_pos (by simpa using hu)]

lemma trim_of_blanks {s t u : Text} (hs : ∀ c ∈ s, isBlank c = true)
    (hu : ∀ c ∈ u, isBlank c = true) : trim (s ++ t ++ u) = trim t := by
  rw [trim, List.append_assoc, trimStart, List.dropWhile_append_of_pos hs, List.dropWhile_append]
  split
  · -- there is nothing but blanks
    rename_i hempty
    rw [List.dropWhile_eq_nil_iff.2 hu, trim, trimStart, List.isEmpty_iff.1 hempty]
  · exact trimEnd_append_of_blank hu

lemma exists_blanks_trim (t : Text) : ∃ s u, t = s ++ trim t ++ u ∧
    (∀ c ∈ s, isBlank c = true) ∧ ∀ c ∈ u, isBlank c = true := by
  have hparts : ∀ x : Text, x.takeWhile isBlank ++ trimStart x = x :=
    fun x => List.takeWhile_append_dropWhile
  refine ⟨t.takeWhile isBlank, ((trimStart t).reverse.takeWhile isBlank).reverse, ?_, ?_, ?_⟩
  · calc t = t.takeWhile isBlank ++ (trimStart t).reverse.reverse := by
          rw [List.reverse_reverse, hparts]
      _ = t.takeWhile isBlank ++
          ((trimStart t).reverse.takeWhile isBlank ++ trimStart (trimStart t).reverse).reverse := by
          rw [hparts]
      _ = t.takeWhile isBlank ++ trim t ++ ((trimStart t).reverse.takeWhile isBlank).reverse := by
          rw [List.reverse_append, List.append_assoc, trim, trimEnd]
  · exact fun c hc => List.mem_takeWhile_imp hc
  · exact fun c hc => List.mem_takeWhile_imp (List.mem_reverse.1 hc)

namespace ConnectionOptions

def union (os os' : ConnectionOptions) : ConnectionOptions :=
  ⟨os.close || os'.close, os.keepAlive || os'.keepAlive, os.upgrade || os'.upgrade⟩

lemma eq_of_has {os os' : ConnectionOptions} (h : ∀ o, os.has o = os'.has o) : os = os' := by
  have hclose : os.close = os'.close := h .close
  have hkeep : os.keepAlive = os'.keepAlive := h .keepAlive
  have hupgrade : os.upgrade = os'.upgrade := h .upgrade
  cases os
  cases os'
  simp_all

/-! ### Token by token -/

/-- What the tokens so far have come to: the options that are set, and whether any is. -/
structure Tally extends ConnectionOptions where
  any : Bool

namespace Tally

def start : Tally := ⟨⟨false, false, false⟩, false⟩

def set (s : Tally) : ConnectionOption → Tally
  | .close => { s with close := true, any := true }
  | .keepAlive => { s with keepAlive := true, any := true }
  | .upgrade => { s with upgrade := true, any := true }

/-- One more token. One that names no option is passed over. -/
def hear (s : Tally) (t : Text) : Tally :=
  if sameFold (trim t) ConnectionOption.close.name then s.set .close
  else if sameFold (trim t) ConnectionOption.keepAlive.name then s.set .keepAlive
  else if sameFold (trim t) ConnectionOption.upgrade.name then s.set .upgrade
  else s

def run (s : Tally) (ts : List Text) : Tally := ts.foldl hear s

def outcome (s : Tally) : Option ConnectionOptions :=
  if s.any then some s.toConnectionOptions else none

/-- These are the options that have been named so far: the flags are theirs, and the mark tells
whether there are any. -/
structure Counts (s : Tally) (os : List ConnectionOption) : Prop where
  has : ∀ o, s.has o = true ↔ o ∈ os
  any : s.any = true ↔ os ≠ []

variable {s s' s'' : Tally} {os os' : List ConnectionOption}

lemma counts_start : start.Counts [] where
  has o := by cases o <;> simp [start, ConnectionOptions.has]
  any := by simp [start]

lemma has_set (s : Tally) (o o' : ConnectionOption) :
    (s.set o).has o' = (s.has o' || o' == o) := by
  cases o <;> cases o' <;> simp [set, ConnectionOptions.has]

lemma any_set (s : Tally) (o : ConnectionOption) : (s.set o).any = true := by cases o <;> rfl

lemma Counts.set (h : s.Counts os) (o : ConnectionOption) : (s.set o).Counts (os ++ [o]) where
  has o' := by
    rw [has_set, Bool.or_eq_true, h.has, beq_iff_eq]
    simp
  any := by simp [any_set]

lemma Counts.hear (h : s.Counts os) (t : Text) :
    (s.hear t).Counts (os ++ (ConnectionOption.ofToken? t).toList) := by
  rw [Tally.hear]
  split
  · rename_i hclose
    rw [ConnectionOption.ofToken?_eq_some_iff.2 hclose]
    exact h.set .close
  split
  · rename_i hkeep
    rw [ConnectionOption.ofToken?_eq_some_iff.2 hkeep]
    exact h.set .keepAlive
  split
  · rename_i hupgrade
    rw [ConnectionOption.ofToken?_eq_some_iff.2 hupgrade]
    exact h.set .upgrade
  · rename_i hclose hkeep hupgrade
    cases ht : ConnectionOption.ofToken? t with
    | none => simpa using h
    | some o =>
      have hname := ConnectionOption.ofToken?_eq_some_iff.1 ht
      cases o with
      | close => exact absurd hname hclose
      | keepAlive => exact absurd hname hkeep
      | upgrade => exact absurd hname hupgrade

lemma Counts.run (h : s.Counts os) (ts : List Text) :
    (s.run ts).Counts (os ++ ts.filterMap ConnectionOption.ofToken?) := by
  induction ts generalizing s os with
  | nil => simpa [Tally.run] using h
  | cons t ts ih =>
    have hrest := ih (h.hear t)
    rw [List.append_assoc] at hrest
    cases ht : ConnectionOption.ofToken? t with
    | none => simpa [Tally.run, ht] using hrest
    | some o => simpa [Tally.run, ht] using hrest

lemma counts_recognised (v : Text) : (start.run (split ',' v)).Counts (recognised v) :=
  counts_start.run (split ',' v)

lemma Counts.outcome_eq (h : s.Counts os) : s.outcome =
    if os = [] then none
    else some ⟨os.contains .close, os.contains .keepAlive, os.contains .upgrade⟩ := by
  rw [outcome]
  by_cases hos : os = []
  · have hany : s.any = false := by simpa [hos] using h.any
    simp [hos, hany]
  · rw [if_pos (h.any.2 hos), if_neg hos]
    refine congrArg some (eq_of_has fun o => Bool.eq_iff_iff.2 ?_)
    rw [h.has o]
    cases o <;> simp [ConnectionOptions.has]

/-- The outcome for options that are named in two parts. -/
lemma Counts.outcome_append (h : s.Counts os) (h' : s'.Counts os') (h'' : s''.Counts (os ++ os')) :
    s''.outcome = s.outcome.merge union s'.outcome := by
  rw [h.outcome_eq, h'.outcome_eq, h''.outcome_eq]
  by_cases hos : os = [] <;> by_cases hos' : os' = [] <;>
    simp [hos, hos', union]

end Tally

/-- **Reading token by token**, with a flag for each option and a mark that there was any. -/
lemma parse_eq_outcome (v : Text) : parse v = (Tally.start.run (split ',' v)).outcome :=
  (Tally.counts_recognised v).outcome_eq.symm

lemma recognised_append (a b : Text) :
    recognised (a ++ ',' :: b) = recognised a ++ recognised b := by
  rw [recognised, split_append_cons, List.filterMap_append]
  rfl

lemma parse_append (a b : Text) : parse (a ++ ',' :: b) = (parse a).merge union (parse b) := by
  rw [parse_eq_outcome, parse_eq_outcome a, parse_eq_outcome b]
  refine (Tally.counts_recognised a).outcome_append (Tally.counts_recognised b) ?_
  rw [← recognised_append]
  exact Tally.counts_recognised _

lemma parse_congr {v w : Text} (h : ∀ o, o ∈ recognised v ↔ o ∈ recognised w) :
    parse v = parse w := by
  have hcontains : ∀ o, (recognised v).contains o = (recognised w).contains o := by
    intro o
    rw [Bool.eq_iff_iff, List.contains_iff_mem, List.contains_iff_mem]
    exact h o
  have hnil : recognised v = [] ↔ recognised w = [] := by
    simp only [List.eq_nil_iff_forall_not_mem, h]
  simp only [parse, hcontains, hnil]

/-! ### Lists of tokens -/

/-- A token as it stands in a list, between blanks. It may be empty. -/
structure Entry where
  before : Text
  token : Text
  after : Text
  before_blank : before.all isBlank = true
  after_blank : after.all isBlank = true
  trim_token : trim token = token
  notMem_token : ',' ∉ token

namespace Entry

def text (e : Entry) : Text := e.before ++ e.token ++ e.after

def Names (e : Entry) (o : ConnectionOption) : Prop := sameFold e.token o.name = true

instance (e : Entry) (o : ConnectionOption) : Decidable (e.Names o) :=
  inferInstanceAs (Decidable (sameFold e.token o.name = true))

lemma trim_text (e : Entry) : trim e.text = e.token := by
  rw [text, trim_of_blanks (List.all_eq_true.1 e.before_blank) (List.all_eq_true.1 e.after_blank),
    e.trim_token]

lemma notMem_text (e : Entry) : ',' ∉ e.text := by
  have hblank : ∀ t : Text, t.all isBlank = true → ',' ∉ t :=
    fun t ht hc => absurd (List.all_eq_true.1 ht ',' hc) (by decide)
  simp [text, hblank _ e.before_blank, hblank _ e.after_blank, e.notMem_token]

lemma exists_text {p : Text} (h : ',' ∉ p) : ∃ e : Entry, e.text = p := by
  obtain ⟨s, u, hp, hs, hu⟩ := exists_blanks_trim p
  have hnot : ',' ∉ trim p := fun hc => h ((trim_inside p).subset hc)
  exact ⟨⟨s, trim p, u, List.all_eq_true.2 hs, List.all_eq_true.2 hu, trim_trim p, hnot⟩, hp.symm⟩

end Entry

def listing (es : List Entry) : Text := [','].intercalate (es.map Entry.text)

lemma split_listing {es : List Entry} (h : es ≠ []) :
    split ',' (listing es) = es.map Entry.text := by
  rw [split_eq_splitOn]
  refine List.splitOn_intercalate ',' (fun t ht => ?_) (by simpa using h)
  obtain ⟨e, -, rfl⟩ := List.mem_map.1 ht
  exact e.notMem_text

lemma mem_recognised_listing {es : List Entry} {o : ConnectionOption} :
    o ∈ recognised (listing es) ↔ ∃ e ∈ es, e.Names o := by
  rw [mem_recognised]
  by_cases hes : es = []
  · -- no token at all is written as the empty one is
    subst hes
    cases o <;> decide
  · rw [split_listing hes]
    simp [Entry.trim_text, Entry.Names]

/-- Every text is a list of tokens. -/
lemma exists_listing (v : Text) : ∃ es, listing es = v := by
  have hpieces : split ',' v ∈ Set.range (List.map Entry.text) := by
    rw [Set.range_list_map]
    exact fun p hp => Entry.exists_text (notMem_of_mem_split hp)
  obtain ⟨es, hes⟩ := hpieces
  exact ⟨es, by rw [listing, hes, split_eq_splitOn, List.intercalate_splitOn]⟩

/-- **A value asks for the set of options that its tokens name.** Token by token, a flag for each
option and a mark come to the same. Two values with a comma between them ask for the options of
both, and one that asks for nothing changes nothing. In a list of tokens, of any case and with
blanks around them, an option is set if a token names it and not otherwise; if none does, nothing
is asked for. So neither the order of the tokens counts nor how often they come, how they are
spelled and spaced, or which of them are empty or unknown. Every text is such a list. -/
theorem parse_by_option_set :
    (∀ v, parse v = (Tally.start.run (split ',' v)).outcome) ∧
    (∀ a b, parse (a ++ ',' :: b) = (parse a).merge union (parse b)) ∧
    (∀ a b, parse a = none → parse (a ++ ',' :: b) = parse b ∧ parse (b ++ ',' :: a) = parse b) ∧
    (∀ es : List Entry,
      (parse (listing es) = none ↔ ∀ e ∈ es, ∀ o, ¬ e.Names o) ∧
      ∀ os, parse (listing es) = some os → ∀ o, os.has o = true ↔ ∃ e ∈ es, e.Names o) ∧
    (∀ es es' : List Entry, (∀ o, (∃ e ∈ es, e.Names o) ↔ ∃ e ∈ es', e.Names o) →
      parse (listing es) = parse (listing es')) ∧
    ∀ v, ∃ es, listing es = v := by
  refine ⟨parse_eq_outcome, parse_append, fun a b ha => ?_, fun es => ⟨?_, fun os hos o => ?_⟩,
    fun es es' h => parse_congr fun o => ?_, exists_listing⟩
  · rw [parse_append, parse_append, ha]
    exact ⟨Option.merge_none_left, Option.merge_none_right⟩
  · rw [parse_eq_none_iff]
    simp only [mem_recognised_listing]
    exact ⟨fun h e he o hn => h o ⟨e, he, hn⟩, fun h o ⟨e, he, hn⟩ => h e he o hn⟩
  · rw [has_of_parse hos, mem_recognised_listing]
  · rw [mem_recognised_listing, mem_recognised_listing]
    exact h o

/-- ` CLOSE`, an empty token, `x `, `Keep-Alive` behind a no-break space, and `close`. -/
def shuffled : List Entry :=
  [⟨[' '], "CLOSE".toList, [], by decide, by decide, by decide, by decide⟩,
    ⟨[], [], [], by decide, by decide, by decide, by decide⟩,
    ⟨[], ['x'], [' '], by decide, by decide, by decide, by decide⟩,
    ⟨['\u00a0'], "Keep-Alive".toList, [], by decide, by decide, by decide, by decide⟩,
    ⟨[], "close".toList, [], by decide, by decide, by decide, by decide⟩]

def tidy : List Entry :=
  [⟨[], "KEEP-ALIVE".toList, [], by decide, by decide, by decide, by decide⟩,
    ⟨[], "Close".toList, [], by decide, by decide, by decide, by decide⟩]

theorem parse_by_option_set_shuffled :
    listing shuffled = " CLOSE,,x ,\u00a0Keep-Alive,close".toList ∧
      (∀ o, (∃ e ∈ shuffled, e.Names o) ↔ ∃ e ∈ tidy, e.Names o) ∧
      parse (listing shuffled) = parse (listing tidy) := by
  have hsame : ∀ o, (∃ e ∈ shuffled, e.Names o) ↔ ∃ e ∈ tidy, e.Names o := by
    intro o
    cases o <;> decide
  obtain ⟨-, -, -, -, hset, -⟩ := parse_by_option_set
  exact ⟨by decide, hsame, hset shuffled tidy hsame⟩

end ConnectionOptions

end Http1
