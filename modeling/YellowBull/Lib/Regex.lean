import Mathlib.Data.List.Basic

/-!
# Regular expressions

Patterns of character classes, sequences, repetitions and groups, with the texts that they match and
what their groups capture. `Sub` is a substitution of the matches in a text, as `re.sub` does it for
a pattern that does not match the empty text: from left to right, at each position where the pattern
matches one match is replaced, and what takes its place is not read again.

Which of the matches at a position an engine takes is left open. A pattern that has at most one
there has one result, whatever repetitions it is made of.
-/

/-- A regular expression over the characters `α`. -/
inductive Regex (α : Type*) where
  | char (p : α → Bool)
  | seq (r s : Regex α)
  | star (r : Regex α)
  | group (r : Regex α)

namespace Regex

variable {α : Type*}

/-- `r+`. -/
def plus (r : Regex α) : Regex α := seq r (star r)

/-- The pattern matches the text, and its groups capture these texts, in order. -/
inductive Matches : Regex α → List α → List (List α) → Prop
  | char {p : α → Bool} {c : α} (h : p c = true) : Matches (char p) [c] []
  | seq {r s : Regex α} {t t' : List α} {gs gs' : List (List α)} (h : Matches r t gs)
    (h' : Matches s t' gs') : Matches (seq r s) (t ++ t') (gs ++ gs')
  | done {r : Regex α} : Matches (star r) [] []
  | round {r : Regex α} {t t' : List α} {gs gs' : List (List α)} (h : Matches r t gs)
    (h' : Matches (star r) t' gs') : Matches (star r) (t ++ t') (gs ++ gs')
  | group {r : Regex α} {t : List α} {gs : List (List α)} (h : Matches r t gs) :
    Matches (group r) t (t :: gs)

/-- A result of the substitution of `repl` for the matches of the pattern in a text, which is given
the match and what the groups captured. -/
inductive Sub (r : Regex α) (repl : List α → List (List α) → List α) : List α → List α → Prop
  | nil : Sub r repl [] []
  | replace {m rest out : List α} {gs : List (List α)} (h : r.Matches m gs)
    (hrest : Sub r repl rest out) : Sub r repl (m ++ rest) (repl m gs ++ out)
  | copy {c : α} {t out : List α}
    (h : ∀ m rest gs, c :: t = m ++ rest → ¬ r.Matches m gs)
    (hrest : Sub r repl t out) : Sub r repl (c :: t) (c :: out)

/-- A character class matches one character of it, and has no groups. -/
theorem matches_char_iff {p : α → Bool} {t : List α} {gs : List (List α)} :
    (char p).Matches t gs ↔ ∃ c, p c = true ∧ t = [c] ∧ gs = [] := by
  constructor
  · rintro ⟨⟩
    next c hc => exact ⟨c, hc, rfl, rfl⟩
  · rintro ⟨c, hc, rfl, rfl⟩
    exact .char hc

/-- Two expressions match two texts, one behind the other, with the groups of both. -/
theorem matches_seq_iff {r s : Regex α} {t : List α} {gs : List (List α)} :
    (seq r s).Matches t gs ↔ ∃ t₁ t₂ gs₁ gs₂, r.Matches t₁ gs₁ ∧ s.Matches t₂ gs₂ ∧
      t = t₁ ++ t₂ ∧ gs = gs₁ ++ gs₂ := by
  constructor
  · rintro ⟨⟩
    next h h' => exact ⟨_, _, _, _, h, h', rfl, rfl⟩
  · rintro ⟨_, _, _, _, h, h', rfl, rfl⟩
    exact .seq h h'

/-- A group matches what is in it, and has the text as its first group. -/
theorem matches_group_iff {r : Regex α} {t : List α} {gs : List (List α)} :
    (group r).Matches t gs ↔ ∃ gs', r.Matches t gs' ∧ gs = t :: gs' := by
  constructor
  · rintro ⟨⟩
    next h => exact ⟨_, h, rfl⟩
  · rintro ⟨gs', h, rfl⟩
    exact .group h

/-- The classes of the pattern are among the characters with a property. -/
def Within (P : α → Prop) : Regex α → Prop
  | char p => ∀ c, p c = true → P c
  | seq r s => r.Within P ∧ s.Within P
  | star r => r.Within P
  | group r => r.Within P

/-- The pattern has no groups. -/
def Plain : Regex α → Prop
  | char _ => True
  | seq r s => r.Plain ∧ s.Plain
  | star r => r.Plain
  | group _ => False

/-- A text that is matched consists of characters of the classes. -/
theorem Matches.within {P : α → Prop} {r : Regex α} {t : List α} {gs : List (List α)}
    (h : r.Matches t gs) (hr : r.Within P) : ∀ c ∈ t, P c := by
  induction h with
  | char h => exact fun c hc => List.mem_singleton.mp hc ▸ hr _ h
  | seq _ _ ih ih' => exact List.forall_mem_append.mpr ⟨ih hr.1, ih' hr.2⟩
  | done => simp
  | round _ _ ih ih' => exact List.forall_mem_append.mpr ⟨ih hr, ih' hr⟩
  | group _ ih => exact ih hr

/-- A pattern without groups captures nothing. -/
theorem Matches.captures_eq_nil {r : Regex α} {t : List α} {gs : List (List α)}
    (h : r.Matches t gs) (hr : r.Plain) : gs = [] := by
  induction h with
  | char _ => rfl
  | seq _ _ ih ih' => rw [ih hr.1, ih' hr.2, List.append_nil]
  | done => rfl
  | round _ _ ih ih' => rw [ih hr, ih' hr, List.append_nil]
  | group _ _ => exact hr.elim

/-- A repetition of a class matches every text of its characters. -/
theorem matches_star_char {p : α → Bool} {t : List α} (h : ∀ c ∈ t, p c = true) :
    (star (char p)).Matches t [] := by
  induction t with
  | nil => exact .done
  | cons c t ih =>
    exact .round (.char (h c (List.mem_cons_self ..))) (ih fun c' hc' =>
      h c' (List.mem_cons_of_mem c hc'))

/-- `p+` for a class matches every text of its characters but the empty one. -/
theorem matches_plus_char {p : α → Bool} {t : List α} (hne : t ≠ []) (h : ∀ c ∈ t, p c = true) :
    (plus (char p)).Matches t [] := by
  cases t with
  | nil => exact absurd rfl hne
  | cons c t =>
    exact .seq (.char (h c (List.mem_cons_self ..))) (matches_star_char fun c' hc' =>
      h c' (List.mem_cons_of_mem c hc'))

/-- A match of `p+` for a class is not empty. -/
theorem ne_nil_of_matches_plus_char {p : α → Bool} {t : List α} {gs : List (List α)}
    (h : (plus (char p)).Matches t gs) : t ≠ [] := by
  obtain ⟨t₁, t₂, gs₁, gs₂, hchar, -, rfl, -⟩ := matches_seq_iff.mp h
  obtain ⟨c, -, rfl, -⟩ := matches_char_iff.mp hchar
  exact List.cons_ne_nil c t₂

end Regex
