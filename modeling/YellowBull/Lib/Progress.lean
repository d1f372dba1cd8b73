import Mathlib.Data.Nat.Basic
import YellowBull.Lib.Machine

/-!
# Progress

A measure on the states of a machine that every step of some kind lowers and no other step raises.
In a run there are at most as many steps of that kind as the measure falls (`countP_add_le`). In an
infinite run in which such a step comes whenever the measure is not zero, it comes to zero
(`InfiniteRun.exists_eq_zero`), whatever else happens in between. What only one kind of event ends
is still so at the first event of that kind (`InfiniteRun.exists_first`).
-/

namespace Machine

variable {σ ι : Type*} {step : σ → ι → Option σ}

/-- The steps that are marked lower the measure, and no other step raises it, in states with the
invariant. -/
structure Lowers (step : σ → ι → Option σ) (Inv : σ → Prop) (marked : ι → Bool) (μ : σ → ℕ) :
    Prop where
  inv : ∀ s a s', Inv s → step s a = some s' → Inv s'
  lt : ∀ s a s', Inv s → step s a = some s' → marked a → μ s' < μ s
  le : ∀ s a s', Inv s → step s a = some s' → μ s' ≤ μ s

variable {Inv : σ → Prop} {marked : ι → Bool} {μ : σ → ℕ}

/-- Each marked step of a run costs the measure at least one. -/
theorem Lowers.countP_add_le (h : Lowers step Inv marked μ) {s s' : σ} (hs : Inv s) {as : List ι}
    (hrun : run step s as = some s') : as.countP marked + μ s' ≤ μ s := by
  induction as generalizing s with
  | nil =>
    obtain rfl := Option.some.inj hrun
    simp
  | cons a as ih =>
    obtain ⟨s₁, hstep, hrest⟩ := Option.bind_eq_some_iff.mp hrun
    have hrest := ih (h.inv s a s₁ hs hstep) hrest
    have hle := h.le s a s₁ hs hstep
    rw [List.countP_cons]
    split_ifs with ha
    · have hlt := h.lt s a s₁ hs hstep ha
      omega
    · omega

/-- A number that is lower some time after every moment at which it is not zero comes to zero. -/
theorem exists_eq_zero_of_falls {f : ℕ → ℕ} {k : ℕ}
    (hfalls : ∀ l, k ≤ l → f l ≠ 0 → ∃ m, l ≤ m ∧ f m < f l) : ∃ l, k ≤ l ∧ f l = 0 := by
  -- By induction on the number at a moment from `k` on.
  have hall : ∀ n l, k ≤ l → f l = n → ∃ m, k ≤ m ∧ f m = 0 := by
    intro n
    induction n using Nat.strong_induction_on with
    | h n ih =>
      intro l hl hn
      by_cases hzero : f l = 0
      · exact ⟨l, hl, hzero⟩
      · obtain ⟨m, hm, hlt⟩ := hfalls l hl hzero
        exact ih (f m) (hn ▸ hlt) m (Nat.le_trans hl hm) rfl
  exact hall (f k) k (Nat.le_refl k) rfl

/-- An infinite run. -/
structure InfiniteRun (step : σ → ι → Option σ) (start : σ) where
  state : ℕ → σ
  event : ℕ → ι
  start_eq : state 0 = start
  valid : ∀ k, step (state k) (event k) = some (state (k + 1))

namespace InfiniteRun

variable {start : σ} (ρ : InfiniteRun step start)

/-- What a step keeps is so from any moment on. -/
theorem keeps {K : σ → Prop} (hstep : ∀ s a s', K s → step s a = some s' → K s') {k l : ℕ}
    (hkl : k ≤ l) (hk : K (ρ.state k)) : K (ρ.state l) := by
  induction l, hkl using Nat.le_induction with
  | base => exact hk
  | succ l _ ih => exact hstep _ _ _ ih (ρ.valid l)

/-- A property that only an event of some kind ends is still there at the first event of that kind.
-/
theorem exists_first {K : σ → Prop} {E : ι → Prop}
    (hstep : ∀ s a s', K s → ¬ E a → step s a = some s' → K s') {k : ℕ} (hk : K (ρ.state k))
    (hends : ∃ m, k ≤ m ∧ E (ρ.event m)) :
    ∃ m, k ≤ m ∧ E (ρ.event m) ∧ K (ρ.state m) := by
  obtain ⟨m, hkm, hm⟩ := hends
  -- By induction on how far off the event is.
  obtain ⟨d, rfl⟩ : ∃ d, m = k + d := ⟨m - k, by omega⟩
  induction d generalizing k with
  | zero => exact ⟨k, Nat.le_refl k, hm, hk⟩
  | succ d ih =>
    by_cases hnow : E (ρ.event k)
    · exact ⟨k, Nat.le_refl k, hnow, hk⟩
    · have hnext := hstep _ _ _ hk hnow (ρ.valid k)
      have hlater : E (ρ.event (k + 1 + d)) := by
        rwa [Nat.add_assoc, Nat.add_comm 1 d]
      obtain ⟨l, hl, hevent, hstate⟩ := ih hnext (Nat.le_add_right (k + 1) d) hlater
      exact ⟨l, by omega, hevent, hstate⟩

/-- The measure falls to zero where marked steps keep coming until it is there. -/
theorem exists_eq_zero (h : Lowers step Inv marked μ) (hstart : Inv start) {k : ℕ}
    (hfair : ∀ l, k ≤ l → μ (ρ.state l) ≠ 0 → ∃ m, l ≤ m ∧ marked (ρ.event m)) :
    ∃ l, k ≤ l ∧ μ (ρ.state l) = 0 := by
  have hzero : Inv (ρ.state 0) := by rwa [ρ.start_eq]
  have hinv (l : ℕ) : Inv (ρ.state l) := ρ.keeps h.inv (Nat.zero_le l) hzero
  have hmono {l m : ℕ} (hlm : l ≤ m) : μ (ρ.state m) ≤ μ (ρ.state l) := by
    induction m, hlm using Nat.le_induction with
    | base => exact Nat.le_refl _
    | succ m _ ih => exact Nat.le_trans (h.le _ _ _ (hinv m) (ρ.valid m)) ih
  refine exists_eq_zero_of_falls fun l hl hpositive => ?_
  obtain ⟨m, hm, hmarked⟩ := hfair l hl hpositive
  have hlt := h.lt _ _ _ (hinv m) (ρ.valid m) hmarked
  exact ⟨m + 1, by omega, Nat.lt_of_lt_of_le hlt (hmono hm)⟩

/-- The events before a moment. -/
def events (k : ℕ) : List ι := (List.range k).map ρ.event

/-- One more event. -/
theorem events_succ (k : ℕ) : ρ.events (k + 1) = ρ.events k ++ [ρ.event k] := by
  simp [events, List.range_succ]

/-- They lead to the state at that moment. -/
theorem run_events (k : ℕ) : run step start (ρ.events k) = some (ρ.state k) := by
  induction k with
  | zero =>
    rw [ρ.start_eq]
    rfl
  | succ k ih =>
    rw [events_succ, run_append, ih, Option.bind_some, run, ρ.valid]
    rfl

/-- The events up to a moment are a prefix of those up to a later one. -/
theorem events_prefix {k l : ℕ} (hkl : k ≤ l) : ρ.events k <+: ρ.events l := by
  induction l, hkl using Nat.le_induction with
  | base => exact List.prefix_rfl
  | succ l _ ih =>
    rw [events_succ]
    exact ih.trans (List.prefix_append _ _)

end InfiniteRun

/-- The states that events lead to one after the other; an event without a step is passed over. -/
def statesAlong (step : σ → ι → Option σ) (start : σ) (events : ℕ → ι) : ℕ → σ
  | 0 => start
  | k + 1 =>
    let s := statesAlong step start events k
    (step s (events k)).getD s

/-- The infinite run of events that all have a step. -/
def InfiniteRun.along {start : σ} (events : ℕ → ι)
    (hsteps : ∀ k, (step (statesAlong step start events k) (events k)).isSome) :
    InfiniteRun step start where
  state := statesAlong step start events
  event := events
  start_eq := rfl
  valid k := by
    obtain ⟨s, hs⟩ := Option.isSome_iff_exists.mp (hsteps k)
    rw [statesAlong, hs]
    rfl

end Machine
