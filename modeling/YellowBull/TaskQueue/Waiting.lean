import Mathlib.Algebra.Order.Archimedean.Basic
import Mathlib.Data.Rat.Floor
import YellowBull.Lib.Loop
import YellowBull.TaskQueue

/-!
# Waiting for a task

The loop of `TaskQueue.wait_for`. The queues and the clock that its polls find are arbitrary: a
queue that was stopped, a task that never ends and an id that nothing was submitted under are among
them. `returns_seen` and `returns_none` are the two ways in which the loop ends, and
`wait_for_ends_iff` says when it ends as promised: the test `if timeout and ..` takes a timeout of 0
for no timeout.
-/

namespace YellowBull

/-- A `float` of Python by its value, with the two zeros for one. -/
inductive PyFloat where
  | number (value : ℚ)
  | inf
  | neg_inf
  | nan
  deriving DecidableEq

namespace PyFloat

/-- `bool(x)`. -/
def truthy : PyFloat → Bool
  | .number value => value ≠ 0
  | _ => true

/-- `value > x`, of a number and a float. -/
def Under : PyFloat → ℚ → Prop
  | .number limit, value => limit < value
  | .inf, _ => False
  | .neg_inf, _ => True
  | .nan, _ => False

instance (x : PyFloat) (value : ℚ) : Decidable (x.Under value) := by
  cases x <;> unfold Under <;> infer_instance

/-- A timeout that the test of `wait_for` does not pass over, and that a clock can get past. -/
def Effective (x : PyFloat) : Prop := x = .neg_inf ∨ ∃ value, x = .number value ∧ value ≠ 0

/-- A limit that can be passed counts as one. -/
theorem truthy_of_effective {x : PyFloat} (h : x.Effective) : x.truthy = true := by
  rcases h with rfl | ⟨value, rfl, hvalue⟩
  · rfl
  · exact decide_eq_true hvalue

/-- A limit that counts and that some time is past can be passed. -/
theorem effective_of_under {x : PyFloat} (htruthy : x.truthy = true) {value : ℚ}
    (h : x.Under value) : x.Effective := by
  cases x with
  | number limit => exact Or.inr ⟨limit, rfl, of_decide_eq_true htruthy⟩
  | inf => exact h.elim
  | neg_inf => exact Or.inl rfl
  | nan => exact h.elim

end PyFloat

/-- `(now - start).total_seconds()` as the exact quotient. The code rounds it to a float, so that at
a clock reading just past the limit whose float is the limit itself it takes one poll more. -/
def secondsSince (start now : Time) : ℚ := (now - start : ℤ) / 1000000

/-- A call of `wait_for`: its arguments, its start, and the queue and the clock that each poll
finds. -/
structure WaitCall (φ α : Type) where
  task_id : String
  timeout : Option PyFloat
  start : Time
  queues : ℕ → TaskQueue φ α
  clock : ℕ → Time

namespace WaitCall

variable {φ α : Type} (c : WaitCall φ α)

/-- What poll `i` has from `get_status`. -/
def found (i : ℕ) : Option (TaskResult α) := (c.queues i).getStatus c.task_id

/-- Poll `i` sees the task COMPLETED or FAILED. -/
def SeesEnd (i : ℕ) : Prop := ∃ result ∈ c.found i, result.status.Terminal

instance : DecidablePred c.SeesEnd := fun i =>
  match h : c.found i with
  | none => isFalse (by rintro ⟨result, hmem, -⟩; rw [h] at hmem; cases hmem)
  | some result => decidable_of_iff result.status.Terminal (by simp [SeesEnd, h])

/-- The clock of poll `i` is past a limit of so many seconds. -/
def Past (limit : PyFloat) (i : ℕ) : Prop := limit.Under (secondsSince c.start (c.clock i))

instance (limit : PyFloat) : DecidablePred (c.Past limit) := fun _ =>
  inferInstanceAs (Decidable (limit.Under _))

/-- `timeout and (datetime.now() - start).total_seconds() > timeout`, at poll `i`. -/
def TimesOut (i : ℕ) : Prop := ∃ limit ∈ c.timeout, limit.truthy = true ∧ c.Past limit i

instance : DecidablePred c.TimesOut := fun i =>
  match h : c.timeout with
  | none => isFalse (by rintro ⟨limit, hmem, -⟩; rw [h] at hmem; cases hmem)
  | some limit => decidable_of_iff (limit.truthy = true ∧ c.Past limit i) (by simp [TimesOut, h])

/-- A round of the loop of `wait_for`, from poll `i` to the next. -/
def round (i : ℕ) : ℕ ⊕ Option (TaskResult α) :=
  if c.SeesEnd i then .inr (c.found i)
  else if c.TimesOut i then .inr none
  else .inl (i + 1)

/-- `TaskQueue.wait_for`, as far as so many polls get. -/
def wait_for (polls : ℕ) : Option (Option (TaskResult α)) := Loop.run c.round polls 0

/-- The loop ends after finitely many polls, with the result of the first that sees the task
COMPLETED or FAILED if it is within the time limit, else with none. -/
def Ends (InTime : ℕ → Prop) : Prop :=
  ∃ polls back, c.wait_for polls = some back ∧
    ((∃ i, InTime i ∧ c.SeesEnd i ∧ (∀ j < i, ¬ c.SeesEnd j) ∧ back = c.found i) ∨
      ((∀ i, InTime i → ¬ c.SeesEnd i) ∧ back = none))

/-- No poll before this one has read a clock past the limit. A poll looks at the task before it
looks at the clock. -/
def Begun (limit : PyFloat) (i : ℕ) : Prop := ∀ j < i, ¬ c.Past limit j

/-- No poll up to this one reads a clock past the limit. -/
def Before (limit : PyFloat) (i : ℕ) : Prop := ∀ j ≤ i, ¬ c.Past limit j

/-- The poll is the first that reads a clock past the limit. -/
def FirstPast (limit : PyFloat) (i : ℕ) : Prop := c.Past limit i ∧ c.Begun limit i

/-! ## The two ends of the loop -/

variable {c}

/-- A round that goes on goes to the next poll. -/
theorem round_next {i j : ℕ} (h : c.round i = .inl j) : j = i + 1 := by
  unfold round at h
  split_ifs at h
  cases h
  rfl

/-- A round that does not end the loop goes on to the next poll. -/
theorem round_ne_inr {i : ℕ} (hend : ¬ c.SeesEnd i) (htime : ¬ c.TimesOut i)
    (back : Option (TaskResult α)) : c.round i ≠ .inr back := by
  rw [round, if_neg hend, if_neg htime]
  exact Sum.inl_ne_inr

/-- A poll within the limit does not time out. -/
theorem not_timesOut {limit : PyFloat} (htimeout : c.timeout = some limit) {i : ℕ}
    (h : ¬ c.Past limit i) : ¬ c.TimesOut i := by
  rintro ⟨limit', hlimit, -, hpast⟩
  rw [htimeout] at hlimit
  cases hlimit
  exact h hpast

/-- With the first poll that sees the task ended, where no poll before it times out. -/
theorem returns_seen {i : ℕ} (hend : c.SeesEnd i)
    (hbefore : ∀ j < i, ¬ c.SeesEnd j ∧ ¬ c.TimesOut j) :
    Loop.Returns c.round 0 (c.found i) := by
  refine (Loop.returns_zero_iff fun _ _ => round_next).mpr ⟨i, ?_, fun j hj back => ?_⟩
  · rw [round, if_pos hend]
  · exact round_ne_inr (hbefore j hj).1 (hbefore j hj).2 back

/-- With none at the first poll that times out, where no poll so far sees the task ended. -/
theorem returns_none {n : ℕ} (htime : c.TimesOut n) (hbefore : ∀ j < n, ¬ c.TimesOut j)
    (hend : ∀ j ≤ n, ¬ c.SeesEnd j) : Loop.Returns c.round 0 none := by
  refine (Loop.returns_zero_iff fun _ _ => round_next).mpr ⟨n, ?_, fun j hj back => ?_⟩
  · rw [round, if_neg (hend n (le_refl n)), if_pos htime]
  · exact round_ne_inr (hend j (by omega)) (hbefore j hj) back

/-- The loop returns none only if it times out. -/
theorem of_returns_none (h : Loop.Returns c.round 0 none) :
    ∃ n, c.TimesOut n ∧ (∀ j < n, ¬ c.TimesOut j) ∧ ¬ c.SeesEnd n := by
  obtain ⟨n, hn, hbefore⟩ := (Loop.returns_zero_iff fun _ _ => round_next).mp h
  have hnot : ¬ c.SeesEnd n := by
    rintro ⟨result, hmem, hterminal⟩
    rw [round, if_pos ⟨result, hmem, hterminal⟩, Option.mem_def.mp hmem] at hn
    cases hn
  rw [round, if_neg hnot] at hn
  split_ifs at hn with htime
  refine ⟨n, htime, fun j hj htime' => ?_, hnot⟩
  -- A poll that times out ends the loop, whatever it sees.
  by_cases hend : c.SeesEnd j
  · exact hbefore j hj (c.found j) (by rw [round, if_pos hend])
  · exact hbefore j hj none (by rw [round, if_neg hend, if_pos htime'])

/-! ## Polls in time -/

variable {limit : PyFloat}

/-- An earlier poll has begun within the limit if a later one has. -/
theorem Begun.of_le {i j : ℕ} (hi : c.Begun limit i) (hj : j ≤ i) : c.Begun limit j :=
  fun k hk => hi k (by omega)

/-- An earlier poll is before the limit if a later one is. -/
theorem Before.of_le {i j : ℕ} (hi : c.Before limit i) (hj : j ≤ i) : c.Before limit j :=
  fun k hk => hi k (by omega)

/-- A poll before the limit has begun within it. -/
theorem Before.begun {i : ℕ} (hi : c.Before limit i) : c.Begun limit i :=
  fun j hj => hi j (Nat.le_of_lt hj)

/-- A poll that begins in time is not later than the first that is past the limit. -/
theorem FirstPast.begun_le {n i : ℕ} (hn : c.FirstPast limit n) (hi : c.Begun limit i) :
    i ≤ n := by
  by_contra hlt
  exact hi n (by omega) hn.1

/-- There is one first poll past the limit. -/
theorem FirstPast.unique {m n : ℕ} (hm : c.FirstPast limit m) (hn : c.FirstPast limit n) : m = n :=
  Nat.le_antisymm (hn.begun_le hm.2) (hm.begun_le hn.2)

/-! ## The clock -/

/-- A clock that advances by 0.1 seconds a poll has made up so much after a number of polls. -/
theorem clock_advance (hadvance : ∀ i, c.clock i + 100000 ≤ c.clock (i + 1)) (n : ℕ) :
    c.clock 0 + 100000 * n ≤ c.clock n := by
  induction n with
  | zero => simp
  | succ n ih =>
    have hstep := hadvance n
    push_cast
    linarith

/-- It gets past every timeout that is passed at all. -/
theorem exists_firstPast (heffective : limit.Effective)
    (hadvance : ∀ i, c.clock i + 100000 ≤ c.clock (i + 1)) : ∃ n, c.FirstPast limit n := by
  have hpast : ∃ n, c.Past limit n := by
    rcases heffective with rfl | ⟨value, rfl, -⟩
    · exact ⟨0, trivial⟩
    · obtain ⟨n, hn⟩ := exists_nat_gt (value * 10 - (c.clock 0 - c.start : ℤ) / 100000)
      refine ⟨n, ?_⟩
      have hadv : (c.clock 0 : ℚ) + 100000 * n ≤ c.clock n := by
        exact_mod_cast clock_advance hadvance n
      change value < ((c.clock n - c.start : ℤ) : ℚ) / 1000000
      push_cast at hn ⊢
      linarith
  classical
  exact ⟨Nat.find hpast, Nat.find_spec hpast, fun j hj => Nat.find_min hpast hj⟩

/-- The first poll that sees the task ended, where one does. -/
theorem exists_first_end {i : ℕ} (h : c.SeesEnd i) :
    ∃ first ≤ i, c.SeesEnd first ∧ ∀ j < first, ¬ c.SeesEnd j :=
  ⟨Nat.find ⟨i, h⟩, Nat.find_min' ⟨i, h⟩ h, Nat.find_spec ⟨i, h⟩,
    fun _ hj => Nat.find_min ⟨i, h⟩ hj⟩

/-! ## When the wait ends as promised -/

section Promise

variable (htimeout : c.timeout = some limit)
include htimeout

/-- A poll times out if the limit counts and its clock is past it. -/
theorem timesOut_iff {i : ℕ} : c.TimesOut i ↔ limit.truthy = true ∧ c.Past limit i := by
  simp [TimesOut, htimeout]

/-- A poll that sees the task ended, none before it past the limit, makes the wait end with the
result of the first such poll. -/
theorem ends_of_seen {InTime : ℕ → Prop} (hdown : ∀ i j, j ≤ i → InTime i → InTime j)
    (hbegun : ∀ i, InTime i → c.Begun limit i) {i : ℕ} (hi : InTime i) (hend : c.SeesEnd i) :
    c.Ends InTime := by
  obtain ⟨first, hle, hfirst, hbefore⟩ := exists_first_end hend
  obtain ⟨polls, hpolls⟩ := returns_seen hfirst fun j hj =>
    ⟨hbefore j hj, not_timesOut htimeout (hbegun i hi j (by omega))⟩
  exact ⟨polls, _, hpolls, Or.inl ⟨first, hdown i first hle hi, hfirst, hbefore, rfl⟩⟩

/-- A limit that is passed, with no poll up to then that sees the task ended, makes the wait end
with none. -/
theorem ends_of_past {InTime : ℕ → Prop} (heffective : limit.Effective) {n : ℕ}
    (hn : c.FirstPast limit n) (hend : ∀ j ≤ n, ¬ c.SeesEnd j)
    (hlate : ∀ i, InTime i → i ≤ n) : c.Ends InTime := by
  have htruthy := PyFloat.truthy_of_effective heffective
  obtain ⟨polls, hpolls⟩ := returns_none ((timesOut_iff htimeout).mpr ⟨htruthy, hn.1⟩)
    (fun j hj => not_timesOut htimeout (hn.2 j hj)) hend
  exact ⟨polls, none, hpolls, Or.inr ⟨fun i hi => hend i (hlate i hi), rfl⟩⟩

/-- A wait that ends with none has an effective timeout, and the first poll past it does not see
the task ended. -/
theorem firstPast_of_none (h : Loop.Returns c.round 0 none) :
    limit.Effective ∧ ∃ n, c.FirstPast limit n ∧ ¬ c.SeesEnd n := by
  obtain ⟨n, htime, hbefore, hend⟩ := of_returns_none h
  obtain ⟨htruthy, hpast⟩ := (timesOut_iff htimeout).mp htime
  refine ⟨PyFloat.effective_of_under htruthy hpast, n, ⟨hpast, fun j hj hpast' => ?_⟩, hend⟩
  exact hbefore j hj ((timesOut_iff htimeout).mpr ⟨htruthy, hpast'⟩)

/-- On a clock that advances by 0.1 seconds a poll, a wait with a timeout ends as promised just if
the timeout is a number other than 0 that is passed at some time, or a poll in time sees the task
ended. If a poll whose own clock is past the limit does not count as in time, the first such poll
must not see the task ended either. -/
theorem wait_for_ends_iff (hadvance : ∀ i, c.clock i + 100000 ≤ c.clock (i + 1)) :
    (c.Ends (c.Begun limit) ↔ limit.Effective ∨ ∃ i, c.Begun limit i ∧ c.SeesEnd i) ∧
      (c.Ends (c.Before limit) ↔
        (limit.Effective ∧ ∀ i, c.FirstPast limit i → ¬ c.SeesEnd i) ∨
          ∃ i, c.Before limit i ∧ c.SeesEnd i) := by
  refine ⟨⟨?_, ?_⟩, ?_, ?_⟩
  · rintro ⟨polls, back, hpolls, ⟨i, hi, hend, -⟩ | ⟨-, rfl⟩⟩
    · exact Or.inr ⟨i, hi, hend⟩
    · exact Or.inl (firstPast_of_none htimeout ⟨polls, hpolls⟩).1
  · intro h
    by_cases hseen : ∃ i, c.Begun limit i ∧ c.SeesEnd i
    · obtain ⟨i, hi, hend⟩ := hseen
      exact ends_of_seen htimeout (fun _ _ hj hi => hi.of_le hj) (fun _ hi => hi) hi hend
    · have heffective := h.resolve_right hseen
      obtain ⟨n, hn⟩ := exists_firstPast heffective hadvance
      exact ends_of_past htimeout heffective hn
        (fun j hj hend => hseen ⟨j, hn.2.of_le hj, hend⟩) fun i hi => hn.begun_le hi
  · rintro ⟨polls, back, hpolls, ⟨i, hi, hend, -⟩ | ⟨-, rfl⟩⟩
    · exact Or.inr ⟨i, hi, hend⟩
    · obtain ⟨heffective, n, hn, hend⟩ := firstPast_of_none htimeout ⟨polls, hpolls⟩
      exact Or.inl ⟨heffective, fun i hi => hn.unique hi ▸ hend⟩
  · intro h
    by_cases hseen : ∃ i, c.Before limit i ∧ c.SeesEnd i
    · obtain ⟨i, hi, hend⟩ := hseen
      exact ends_of_seen htimeout (fun _ _ hj hi => hi.of_le hj) (fun _ hi => hi.begun) hi hend
    · obtain ⟨heffective, hlast⟩ := h.resolve_right hseen
      obtain ⟨n, hn⟩ := exists_firstPast heffective hadvance
      refine ends_of_past htimeout heffective hn (fun j hj hend => ?_) fun i hi =>
        hn.begun_le hi.begun
      -- A poll before the first one past the limit is in time.
      rcases Nat.lt_or_eq_of_le hj with hlt | rfl
      · exact hseen ⟨j, fun k hk => hn.2 k (by omega), hend⟩
      · exact hlast j hn hend

end Promise

/-- A wait for an id that nothing was submitted under, with a poll every 0.1 seconds. -/
def unknownTask (limit : PyFloat) : WaitCall Unit Unit where
  task_id := "unknown"
  timeout := some limit
  start := 0
  queues _ := .init 4
  clock i := 100000 * i

/-- Its clock advances by 0.1 s a poll. -/
theorem unknownTask_clock (limit : PyFloat) (i : ℕ) :
    (unknownTask limit).clock i + 100000 ≤ (unknownTask limit).clock (i + 1) := by
  simp only [unknownTask]
  push_cast
  linarith

/-- With a timeout of a quarter of a second, it ends as promised. -/
theorem wait_for_ends_iff_quarter :
    (unknownTask (.number (1 / 4))).Ends
      ((unknownTask (.number (1 / 4))).Begun (.number (1 / 4))) :=
  (wait_for_ends_iff rfl (unknownTask_clock _)).1.mpr
    (Or.inl (Or.inr ⟨1 / 4, rfl, by norm_num⟩))

/-- With a timeout of 0 it never ends. -/
theorem zero_timeout_waits :
    ¬ ∀ (c : WaitCall Unit Unit) (limit : PyFloat), c.timeout = some limit →
      (∀ i, c.clock i + 100000 ≤ c.clock (i + 1)) →
        c.Ends (c.Begun limit) ∨ c.Ends (c.Before limit) := by
  intro h
  have hnever : ∀ back, ¬ Loop.Returns (unknownTask (.number 0)).round 0 back := by
    intro back hback
    obtain ⟨n, hn, -⟩ := (Loop.returns_zero_iff fun _ _ => round_next).mp hback
    refine round_ne_inr ?_ ?_ back hn
    · rintro ⟨result, hmem, -⟩
      cases hmem
    · rintro ⟨limit, hmem, htruthy, -⟩
      cases hmem
      cases htruthy
  rcases h (unknownTask (.number 0)) _ rfl (unknownTask_clock _) with hends | hends <;>
  · obtain ⟨polls, back, hpolls, -⟩ := hends
    exact hnever back ⟨polls, hpolls⟩

end WaitCall

end YellowBull
