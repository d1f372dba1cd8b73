import Mathlib.Order.Basic
import Mathlib.Tactic.Common

/-!
# Loops

A `while` loop is its round, which gives the state of the next round or the result of the loop.
`Loop.run` makes at most a number of rounds, and the loop returns a result if some number of rounds
is enough for it (`Loop.Returns`). What every round keeps holds at the last one, and a loop over a
counter returns at the first value at which its round does.
-/

namespace Loop

variable {σ ρ : Type*}

/-- So many rounds of a loop at most: none if they are not enough. -/
def run (round : σ → σ ⊕ ρ) : ℕ → σ → Option ρ
  | 0, _ => none
  | fuel + 1, s =>
    match round s with
    | .inl s' => run round fuel s'
    | .inr r => some r

/-- The loop ends after finitely many rounds, with that result. -/
def Returns (round : σ → σ ⊕ ρ) (s : σ) (r : ρ) : Prop := ∃ fuel, run round fuel s = some r

variable {round : σ → σ ⊕ ρ} {s s' : σ} {r r' : ρ}

/-- A round that goes on uses up one unit of fuel. -/
theorem run_succ_of_next (h : round s = .inl s') (fuel : ℕ) :
    run round (fuel + 1) s = run round fuel s' := by
  rw [run, h]

/-- A round that ends gives the result. -/
theorem run_succ_of_done (h : round s = .inr r) (fuel : ℕ) :
    run round (fuel + 1) s = some r := by
  rw [run, h]

/-- A loop whose first round ends returns. -/
theorem returns_of_done (h : round s = .inr r) : Returns round s r :=
  ⟨1, run_succ_of_done h 0⟩

/-- A loop returns what it returns from its next round on. -/
theorem Returns.of_next (h : round s = .inl s') (hr : Returns round s' r) : Returns round s r := by
  obtain ⟨fuel, hfuel⟩ := hr
  exact ⟨fuel + 1, by rw [run_succ_of_next h, hfuel]⟩

/-- What every round keeps holds of the state in which the loop ends. -/
theorem Returns.invariant (Inv : σ → Prop) (hstep : ∀ s s', Inv s → round s = .inl s' → Inv s')
    (h : Returns round s r) (hs : Inv s) : ∃ last, Inv last ∧ round last = .inr r := by
  obtain ⟨fuel, hfuel⟩ := h
  induction fuel generalizing s with
  | zero => cases hfuel
  | succ fuel ih =>
    cases hround : round s with
    | inl s' =>
      rw [run_succ_of_next hround] at hfuel
      exact ih (hstep s s' hs hround) hfuel
    | inr r' =>
      rw [run_succ_of_done hround] at hfuel
      cases hfuel
      exact ⟨s, hs, hround⟩

/-! ## Loops over a counter -/

section Counter

variable {round : ℕ → ℕ ⊕ ρ} (hnext : ∀ i j, round i = .inl j → j = i + 1)
include hnext

/-- While no round ends it, the loop goes on. -/
theorem Returns.from {i n : ℕ} (hbefore : ∀ j < n, ∀ r, round (i + j) ≠ .inr r)
    (h : Returns round (i + n) r) : Returns round i r := by
  induction n generalizing i with
  | zero => exact h
  | succ n ih =>
    cases hround : round i with
    | inl j =>
      obtain rfl := hnext i j hround
      refine .of_next hround (ih (fun j hj r => ?_) ?_)
      · rw [Nat.add_assoc, Nat.add_comm 1 j]
        exact hbefore (j + 1) (by omega) r
      · rwa [Nat.add_assoc, Nat.add_comm 1 n]
    | inr r' => exact absurd hround (hbefore 0 (by omega) r')

/-- The loop returns what the first round that ends it gives. -/
theorem returns_zero_iff :
    Returns round 0 r ↔ ∃ n, round n = .inr r ∧ ∀ j < n, ∀ r', round j ≠ .inr r' := by
  constructor
  · intro h
    -- No round before the one that is reached has ended the loop.
    have hkeep : ∀ i i', (∀ j < i, ∀ r', round j ≠ .inr r') → round i = .inl i' →
        ∀ j < i', ∀ r', round j ≠ .inr r' := by
      intro i i' hi hround j hj r' hj'
      obtain rfl := hnext i i' hround
      rcases Nat.lt_succ_iff_lt_or_eq.mp hj with hlt | rfl
      · exact hi j hlt r' hj'
      · rw [hround] at hj'
        cases hj'
    obtain ⟨n, hbefore, hn⟩ :=
      h.invariant _ hkeep fun j hj => absurd hj (Nat.not_lt_zero j)
    exact ⟨n, hn, hbefore⟩
  · rintro ⟨n, hn, hbefore⟩
    refine Returns.from hnext (n := n) (fun j hj r' => ?_) ?_
    · rw [Nat.zero_add]
      exact hbefore j hj r'
    · rw [Nat.zero_add]
      exact returns_of_done hn

end Counter

end Loop
