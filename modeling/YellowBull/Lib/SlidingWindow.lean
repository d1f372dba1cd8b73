import Mathlib.Algebra.Order.Group.Int
import Mathlib.Algebra.Order.Group.Unbundled.Basic

/-!
# Sliding windows

Points in time in a linearly ordered group, and logs of events with their times, oldest first. The
window at `t` is the half-open interval `(t - w, t]`, and `recent w t` is what a log without events
after `t` has in it. A log is `Limited` when each event found fewer than `m` others in its window.
Then no half-open interval of length `w`, wherever it ends, holds more than `m` events
(`Limited.length_filter_le`): the last event of the interval had all the others in its window.
-/

namespace SlidingWindow

variable {τ : Type*} [AddCommGroup τ] [LinearOrder τ]

/-- The events later than `t - w`. -/
def recent (w t : τ) (log : List τ) : List τ := log.filter fun x => t - w < x

/-- What is recent in two lists is so in one of them. -/
theorem recent_append (w t : τ) (l m : List τ) :
    recent w t (l ++ m) = recent w t l ++ recent w t m := List.filter_append ..

/-- A log without events after `t` has its recent events in the window at `t`. -/
theorem recent_eq_window {w t : τ} {log : List τ} (h : ∀ x ∈ log, x ≤ t) :
    recent w t log = log.filter fun x => t - w < x ∧ x ≤ t := by
  refine List.filter_congr fun x hx => ?_
  simp [h x hx]

/-- Each event found fewer than `m` others in its window. -/
inductive Limited (m : ℤ) (w : τ) : List τ → Prop
  | nil : Limited m w []
  | concat {log : List τ} {t : τ} (hlog : Limited m w log) (hlast : ∀ x ∈ log, x ≤ t)
      (hcount : ((recent w t log).length : ℤ) < m) : Limited m w (log ++ [t])

/-- A condition under which any two events are less than `w` apart holds for at most `m` events of a
limited log. -/
theorem Limited.length_filter_le {m : ℤ} {w : τ} {log : List τ} (h : Limited m w log)
    {p : τ → Prop} [DecidablePred p] (hp : ∀ x y, p x → p y → y ≤ x → x - w < y) :
    ((log.filter p).length : ℤ) ≤ max m 0 := by
  induction h with
  | nil => simp
  | @concat log t _ hlast hcount ih =>
    rw [List.filter_append]
    by_cases ht : p t
    · -- The events of the condition are all in the window of the last one, `t`.
      have hsub : log.filter p = (recent w t log).filter p := by
        unfold recent
        rw [List.filter_filter]
        refine List.filter_congr fun x hx => ?_
        by_cases hx' : p x
        · simp [hx', hp t x ht hx' (hlast x hx)]
        · simp [hx']
      have hle : (log.filter p).length ≤ (recent w t log).length :=
        calc (log.filter p).length = ((recent w t log).filter p).length := by rw [hsub]
          _ ≤ (recent w t log).length := List.length_filter_le _ _
      simp only [List.length_append, List.filter_cons, ht, decide_true, if_true, List.filter_nil,
        List.length_singleton]
      omega
    · -- The last event does not count.
      simpa [ht] using ih

variable [IsOrderedAddMonoid τ]

/-- Events that were old at `s` are old later on. -/
theorem recent_recent {w s t : τ} (h : s ≤ t) (log : List τ) :
    recent w t (recent w s log) = recent w t log := by
  unfold recent
  rw [List.filter_filter]
  refine List.filter_congr fun x _ => ?_
  have hst : t - w < x → s - w < x := fun hx =>
    calc s - w ≤ t - w := sub_le_sub_right h w
      _ < x := hx
  by_cases hx : t - w < x
  · simp [hx, hst hx]
  · simp [hx]

/-- Every interval `(a, a + w]` holds at most `m` events of a limited log. -/
theorem Limited.length_Ioc_le {m : ℤ} {w : τ} {log : List τ} (h : Limited m w log) (a : τ) :
    ((log.filter fun x => a < x ∧ x ≤ a + w).length : ℤ) ≤ max m 0 :=
  h.length_filter_le fun x y hx hy _ =>
    calc x - w ≤ a := sub_le_iff_le_add.mpr hx.2
      _ < y := hy.1

/-- Every interval `[a, a + w)` holds at most `m` events of a limited log. -/
theorem Limited.length_Ico_le {m : ℤ} {w : τ} {log : List τ} (h : Limited m w log) (a : τ) :
    ((log.filter fun x => a ≤ x ∧ x < a + w).length : ℤ) ≤ max m 0 :=
  h.length_filter_le fun x y hx hy _ =>
    calc x - w < a := sub_lt_iff_lt_add.mpr hx.2
      _ ≤ y := hy.1

end SlidingWindow
