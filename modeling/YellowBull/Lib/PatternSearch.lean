import Mathlib.Data.List.Forall2

/-!
# Search with patterns

Patterns of character classes, repeated classes, sequences and alternatives, searched for as a
backtracking engine does it. `Pattern.rests` lists what the ways to match at a position leave of the
text, the preferred way first, and `Pattern.search` takes the first way at the first position that
has one. It finds something just if the pattern matches somewhere (`isSome_search_iff`), and what it
finds is a match with none before it (`search_eq_some`).

Where a pattern occurs depends on what its classes tell of the characters: a text in which every
character is replaced by one that they do not tell apart has the same occurrences
(`Occurs.related`).
-/

/-- A pattern over the characters `α`. -/
inductive Pattern (α : Type*) where
  | empty
  | char (p : α → Bool)
  /-- `p*`, greedy. -/
  | many (p : α → Bool)
  | seq (r s : Pattern α)
  /-- `r|s`, where `r` is preferred. -/
  | alt (r s : Pattern α)

namespace Pattern

variable {α : Type*}

/-- `p+`. -/
def some1 (p : α → Bool) : Pattern α := seq (char p) (many p)

/-- `r?`, greedy. -/
def opt (r : Pattern α) : Pattern α := alt r empty

/-- The patterns one after the other. -/
def seqs (rs : List (Pattern α)) : Pattern α := rs.foldr seq empty

/-- The pattern matches the text. -/
inductive Matches : Pattern α → List α → Prop
  | empty : Matches empty []
  | char {p : α → Bool} {c : α} (h : p c = true) : Matches (char p) [c]
  | many {p : α → Bool} {t : List α} (h : ∀ c ∈ t, p c = true) : Matches (many p) t
  | seq {r s : Pattern α} {t t' : List α} (h : Matches r t) (h' : Matches s t') :
    Matches (seq r s) (t ++ t')
  | left {r s : Pattern α} {t : List α} (h : Matches r t) : Matches (alt r s) t
  | right {r s : Pattern α} {t : List α} (h : Matches s t) : Matches (alt r s) t

/-- The pattern matches somewhere in the text. -/
def Occurs (r : Pattern α) (t : List α) : Prop := ∃ pre m post, t = pre ++ m ++ post ∧ r.Matches m

/-! ## The engine -/

/-- What the ways to match characters of a class leave, the longest way first. -/
def manyRests (p : α → Bool) : List α → List (List α)
  | [] => [[]]
  | c :: t => (if p c then manyRests p t else []) ++ [c :: t]

/-- What the ways to match at the beginning of a text leave of it, the preferred way first. -/
def rests : Pattern α → List α → List (List α)
  | empty, t => [t]
  | char _, [] => []
  | char p, c :: t => if p c then [t] else []
  | many p, t => manyRests p t
  | seq r s, t => (r.rests t).flatMap s.rests
  | alt r s, t => r.rests t ++ s.rests t

/-- `pattern.search(text).group()`, none where it finds nothing. -/
def search (r : Pattern α) : List α → Option (List α)
  | [] =>
    match r.rests [] with
    | [] => none
    | _ :: _ => some []
  | c :: t =>
    match r.rests (c :: t) with
    | [] => search r t
    | rest :: _ => some ((c :: t).take ((c :: t).length - rest.length))

/-! ## What it finds -/

/-- Behind any number of characters of a class stands any such rest. -/
theorem mem_manyRests_iff {p : α → Bool} {t rest : List α} :
    rest ∈ manyRests p t ↔ ∃ m, t = m ++ rest ∧ ∀ c ∈ m, p c = true := by
  induction t with
  | nil =>
    simp only [manyRests, List.mem_singleton]
    constructor
    · rintro rfl
      exact ⟨[], rfl, by simp⟩
    · rintro ⟨m, h, -⟩
      exact (List.append_eq_nil_iff.mp h.symm).2
  | cons c t ih =>
    rw [manyRests, List.mem_append, List.mem_singleton]
    constructor
    · rintro (h | rfl)
      -- The first character joins the match if it passes, and the empty match is always there.
      · split_ifs at h with hc
        · obtain ⟨m, rfl, hm⟩ := ih.mp h
          exact ⟨c :: m, rfl, List.forall_mem_cons.mpr ⟨hc, hm⟩⟩
        · cases h
      · exact ⟨[], rfl, by simp⟩
    · rintro ⟨m, hm, hp⟩
      cases m with
      | nil => exact .inr hm.symm
      | cons c' m =>
        obtain ⟨rfl, rfl⟩ := List.cons.inj hm
        obtain ⟨hc, hm⟩ := List.forall_mem_cons.mp hp
        exact .inl (by rw [if_pos hc]; exact ih.mpr ⟨m, rfl, hm⟩)

/-- What the ways leave is what the matches leave. -/
theorem mem_rests_iff {r : Pattern α} {t rest : List α} :
    rest ∈ r.rests t ↔ ∃ m, t = m ++ rest ∧ r.Matches m := by
  -- The rests that the matcher finds are those behind the matches, for each constructor.
  induction r generalizing t rest with
  | empty =>
    rw [rests, List.mem_singleton]
    constructor
    · rintro rfl
      exact ⟨[], rfl, .empty⟩
    · rintro ⟨m, rfl, hm⟩
      cases hm
      rfl
  | char p =>
    constructor
    · intro h
      cases t with
      | nil => cases h
      | cons c t =>
        rw [rests] at h
        split_ifs at h with hc
        · obtain rfl := List.mem_singleton.mp h
          exact ⟨[c], rfl, .char hc⟩
        · cases h
    · rintro ⟨m, rfl, hm⟩
      cases hm with
      | char hc =>
        rw [List.singleton_append, rests, if_pos hc]
        exact List.mem_singleton_self rest
  | many p =>
    rw [rests, mem_manyRests_iff]
    constructor
    · rintro ⟨m, rfl, hm⟩
      exact ⟨m, rfl, .many hm⟩
    · rintro ⟨m, rfl, hm⟩
      cases hm with
      | many hp => exact ⟨m, rfl, hp⟩
  | seq r s ihr ihs =>
    -- The second pattern goes on at each place where the first one may stop.
    rw [rests, List.mem_flatMap]
    constructor
    · rintro ⟨mid, hmid, hrest⟩
      obtain ⟨m, rfl, hm⟩ := ihr.mp hmid
      obtain ⟨m', rfl, hm'⟩ := ihs.mp hrest
      exact ⟨m ++ m', (List.append_assoc ..).symm, .seq hm hm'⟩
    · rintro ⟨m, rfl, hm⟩
      cases hm with
      | seq h h' => exact ⟨_, ihr.mpr ⟨_, List.append_assoc .., h⟩, ihs.mpr ⟨_, rfl, h'⟩⟩
  | alt r s ihr ihs =>
    rw [rests, List.mem_append, ihr, ihs]
    constructor
    · rintro (⟨m, rfl, hm⟩ | ⟨m, rfl, hm⟩)
      · exact ⟨m, rfl, .left hm⟩
      · exact ⟨m, rfl, .right hm⟩
    · rintro ⟨m, rfl, hm⟩
      cases hm with
      | left h => exact .inl ⟨m, rfl, h⟩
      | right h => exact .inr ⟨m, rfl, h⟩

/-- No way at a position means no match there. -/
theorem rests_eq_nil_iff {r : Pattern α} {t : List α} :
    r.rests t = [] ↔ ∀ m post, t = m ++ post → ¬ r.Matches m := by
  rw [List.eq_nil_iff_forall_not_mem]
  constructor
  · exact fun h m post ht hm => h post (mem_rests_iff.mpr ⟨m, ht, hm⟩)
  · rintro h rest hrest
    obtain ⟨m, ht, hm⟩ := mem_rests_iff.mp hrest
    exact h m rest ht hm

/-- What is found is a match, and none begins before it. -/
theorem search_eq_some {r : Pattern α} {t m : List α} (h : r.search t = some m) :
    ∃ pre post, t = pre ++ m ++ post ∧ r.Matches m ∧
      ∀ pre' m' post', t = pre' ++ m' ++ post' → r.Matches m' → pre.length ≤ pre'.length := by
  -- The search tries the places from left to right and takes the first with a match.
  induction t with
  | nil =>
    rw [search] at h
    split at h
    · cases h
    · next rest rests hrests =>
      obtain rfl := Option.some.inj h
      obtain ⟨m, hm, hmatch⟩ := mem_rests_iff.mp (hrests ▸ List.mem_cons_self)
      obtain ⟨rfl, rfl⟩ := List.append_eq_nil_iff.mp hm.symm
      exact ⟨[], [], rfl, hmatch, fun _ _ _ _ _ => Nat.zero_le _⟩
  | cons c t ih =>
    -- No match begins here, so that of the tail is the first.
    rw [search] at h
    split at h
    · next hnone =>
      obtain ⟨pre, post, rfl, hm, hfirst⟩ := ih h
      refine ⟨c :: pre, post, rfl, hm, fun pre' m' post' ht hm' => ?_⟩
      cases pre' with
      | nil =>
        rw [List.nil_append] at ht
        exact absurd hm' (rests_eq_nil_iff.mp hnone m' post' ht)
      | cons c' pre' =>
        have hrest := (List.cons.inj ht).2
        exact Nat.succ_le_succ (hfirst pre' m' post' hrest hm')
    · next rest rests hrests =>
      obtain rfl := Option.some.inj h
      obtain ⟨m, hm, hmatch⟩ := mem_rests_iff.mp (hrests ▸ List.mem_cons_self)
      have htake : (c :: t).take ((c :: t).length - rest.length) = m := by
        rw [hm, List.length_append, Nat.add_sub_cancel, List.take_left']
        rfl
      rw [htake]
      exact ⟨[], rest, hm, hmatch, fun _ _ _ _ _ => Nat.zero_le _⟩

/-- Something is found just if the pattern matches somewhere. -/
theorem isSome_search_iff {r : Pattern α} {t : List α} : (r.search t).isSome ↔ r.Occurs t := by
  constructor
  · intro h
    obtain ⟨m, hm⟩ := Option.isSome_iff_exists.mp h
    obtain ⟨pre, post, ht, hmatch, -⟩ := search_eq_some hm
    exact ⟨pre, m, post, ht, hmatch⟩
  · rintro ⟨pre, m, post, rfl, hm⟩
    -- At a place where a match begins the search succeeds.
    have hhere (t : List α) (h : r.rests t ≠ []) : (r.search t).isSome := by
      cases t <;> rw [search] <;> split <;> first | rfl | exact absurd ‹_› h
    induction pre with
    | nil =>
      refine hhere _ fun hnil => ?_
      exact rests_eq_nil_iff.mp hnil m post (by rw [List.nil_append]) hm
    | cons c pre ih =>
      rw [List.cons_append, List.cons_append, search]
      split
      · exact ih
      · rfl

/-! ## Where a pattern occurs -/

/-- Text around an occurrence does not hide it. -/
theorem Occurs.append {r : Pattern α} {t : List α} (h : r.Occurs t) (before after : List α) :
    r.Occurs (before ++ t ++ after) := by
  obtain ⟨pre, m, post, rfl, hm⟩ := h
  exact ⟨before ++ pre, m, post ++ after, by simp, hm⟩

/-- The classes of the pattern do not tell related characters apart. -/
def Respects (R : α → α → Prop) : Pattern α → Prop
  | empty => True
  | char p => ∀ c c', R c c' → p c = p c'
  | many p => ∀ c c', R c c' → p c = p c'
  | seq r s => r.Respects R ∧ s.Respects R
  | alt r s => r.Respects R ∧ s.Respects R

/-- A sequence of patterns respects a relation if each of them does. -/
theorem Respects.seqs {R : α → α → Prop} {rs : List (Pattern α)} (h : ∀ r ∈ rs, r.Respects R) :
    (seqs rs).Respects R := by
  induction rs with
  | nil => trivial
  | cons r rs ih =>
    obtain ⟨hr, hrs⟩ := List.forall_mem_cons.mp h
    exact ⟨hr, ih hrs⟩

/-- A text of related characters is matched as well. -/
theorem Matches.related {R : α → α → Prop} {r : Pattern α} {t t' : List α} (h : r.Matches t)
    (hr : r.Respects R) (ht : List.Forall₂ R t t') : r.Matches t' := by
  -- Each constructor splits the related text where it splits the text.
  induction h generalizing t' with
  | empty =>
    cases ht
    exact .empty
  | char hc =>
    obtain _ | ⟨hR, ⟨⟩⟩ := ht
    exact .char (hr _ _ hR ▸ hc)
  | many hp =>
    refine .many ?_
    induction ht with
    | nil => simp
    | cons hR _ ih =>
      obtain ⟨hc, hp⟩ := List.forall_mem_cons.mp hp
      exact List.forall_mem_cons.mpr ⟨hr _ _ hR ▸ hc, ih hp⟩
  | @seq r s t₁ t₂ _ _ ih ih' =>
    have h₁ := (List.forall₂_take_append t' t₁ t₂ ht.flip).flip
    have h₂ := (List.forall₂_drop_append t' t₁ t₂ ht.flip).flip
    rw [← List.take_append_drop t₁.length t']
    exact .seq (ih hr.1 h₁) (ih' hr.2 h₂)
  | left _ ih => exact .left (ih hr.1 ht)
  | right _ ih => exact .right (ih hr.2 ht)

/-- It has the same occurrences. -/
theorem Occurs.related {R : α → α → Prop} {r : Pattern α} {t t' : List α} (h : r.Occurs t)
    (hr : r.Respects R) (ht : List.Forall₂ R t t') : r.Occurs t' := by
  obtain ⟨pre, m, post, rfl, hm⟩ := h
  have hleft := (List.forall₂_take_append t' (pre ++ m) post ht.flip).flip
  have hmid := (List.forall₂_drop_append _ pre m hleft.flip).flip
  refine ⟨(t'.take (pre ++ m).length).take pre.length, _, t'.drop (pre ++ m).length, ?_,
    hm.related hr hmid⟩
  rw [List.take_append_drop, List.take_append_drop]

end Pattern
