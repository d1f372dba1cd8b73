import YellowBull.ToolExecutor.Runs

/-!
# The retry loop

`taskAt` follows one call of `_execute_single` from await to await, with whatever the other tasks of
the batch leave in the cache in between (`Batch.tasks_eq_taskAt`). While the attempts raise, it
calls and sleeps in turn (`taskAt_calling`), up to the first attempt that returns a `ToolResult` or
the last one of the budget; its end is `execute_single_retries`. An attempt is an awaited
`wait_for`, which invokes the tool only if its limit leaves it time (`retries_not_invoked`).
`status_tells_iff` says when the status of the result tells the ends apart: a timeout never has a
status of its own.
-/

namespace YellowBull

open Py

/-- What `_execute_single` awaits: the call of `_invoke_tool` for an attempt, or a pause. -/
inductive Await where
  | call (attempt : ℕ)
  | sleep (wait_time : ℚ)
  deriving DecidableEq

/-- The attempt that is called. -/
def Await.attempt? : Await → Option ℕ
  | .call attempt => some attempt
  | .sleep _ => none

/-- The pause that is made. -/
def Await.wait? : Await → Option ℚ
  | .call _ => none
  | .sleep wait_time => some wait_time

/-- The call of `execute` in it, if the limit lets `wait_for` start it. -/
def Await.invocation? (P : Platform) (ex : ToolExecutor) (tool : Tool) (arguments : Dict) :
    Await → Option Invocation
  | .call attempt => if ex.startsCall P tool then some ⟨tool, arguments, attempt⟩ else none
  | .sleep _ => none

/-- What a task awaits. -/
def Task.await? : Task → Option Await
  | .calling _ attempt => some (.call attempt)
  | .sleeping _ _ wait_time => some (.sleep wait_time)
  | _ => none

section Single

variable (P : Platform) (ex : ToolExecutor) (reg : ToolRegistry) (req : ToolCallRequest)
variable (outcomes : ℕ → Except Exn ToolResult) (caches : ℕ → Cache)

/-- A call of `_execute_single` after `n` segments, where `caches` are the caches that its segments
find. -/
def ToolExecutor.taskAt : ℕ → Task
  | 0 => .queued
  | n + 1 => (ex.advance P reg req outcomes (taskAt n) (caches n)).1

/-- What it has awaited before its segment `n`, in order. -/
def ToolExecutor.awaits (n : ℕ) : List Await :=
  (List.range n).filterMap fun k => (ex.taskAt P reg req outcomes caches k).await?

end Single

section Batch

variable {P : Platform} {ex : ToolExecutor} {reg : ToolRegistry}
variable {requests : List ToolCallRequest} {outcomes : ℕ → ℕ → Except Exn ToolResult}

/-- Only the caches of the segments so far matter. -/
theorem ToolExecutor.taskAt_congr {req : ToolCallRequest} {outcomes : ℕ → Except Exn ToolResult}
    {caches caches' : ℕ → Cache} {n : ℕ} (h : ∀ k < n, caches k = caches' k) :
    ex.taskAt P reg req outcomes caches n = ex.taskAt P reg req outcomes caches' n := by
  induction n with
  | zero => rfl
  | succ n ih =>
    rw [ToolExecutor.taskAt, ToolExecutor.taskAt, ih fun k hk => h k (by omega), h n (by omega)]

/-- Under every schedule, the tasks of a batch are calls of `_execute_single`. -/
theorem Batch.tasks_eq_taskAt {i : ℕ} {req : ToolCallRequest} (hi : requests[i]? = some req)
    (cache : Cache) (schedule : List ℕ) :
    ∃ caches, ((Batch.start cache).run P ex reg requests outcomes schedule).tasks i =
      ex.taskAt P reg req (outcomes i) caches (schedule.count i) := by
  induction schedule using List.reverseRecOn with
  | nil => exact ⟨fun _ => cache, rfl⟩
  | append_singleton schedule j ih =>
    obtain ⟨caches, hcaches⟩ := ih
    rw [Batch.run_append, Batch.run_cons, List.count_append]
    change ∃ caches, (Batch.step P ex reg requests outcomes _ j).tasks i = _
    by_cases hij : i = j
    · -- The segment finds the cache of the batch.
      subst hij
      rw [Batch.step_self hi, List.count_singleton_self, hcaches]
      generalize (Batch.start cache).run P ex reg requests outcomes schedule = b
      refine ⟨Function.update caches (schedule.count i) b.cache, ?_⟩
      have hbefore : ∀ k < schedule.count i,
          Function.update caches (schedule.count i) b.cache k = caches k :=
        fun k hk => Function.update_of_ne (by omega) _ _
      rw [ToolExecutor.taskAt, Function.update_self, ToolExecutor.taskAt_congr hbefore]
    · rw [Batch.step_of_ne hij, hcaches, List.count_singleton, if_neg (by simpa using Ne.symm hij)]
      exact ⟨caches, rfl⟩

end Batch

/-! ## Attempts -/

/-- What the attempts of a request come back with. -/
def ToolExecutor.attempts (P : Platform) (ex : ToolExecutor) (req : ToolCallRequest) (tool : Tool)
    (outcomes : ℕ → Except Exn ToolResult) (n : ℕ) : Except Exn ToolResult :=
  ex.waitFor P tool req.arguments (outcomes n)

/-- The attempts before the given one raise. -/
def RaisesBefore (attempts : ℕ → Except Exn ToolResult) (n : ℕ) : Prop :=
  ∀ i < n, ∃ e, attempts i = .error e

/-- They raise what `except Exception` catches. -/
def CaughtBefore (attempts : ℕ → Except Exn ToolResult) (n : ℕ) : Prop :=
  ∀ i < n, ∃ e, attempts i = .error e ∧ e.IsException

/-- The first attempt that returns a `ToolResult` is the given one. -/
def FirstReturns (attempts : ℕ → Except Exn ToolResult) (j : ℕ) (r : ToolResult) : Prop :=
  RaisesBefore attempts j ∧ attempts j = .ok r

/-- Within `r` retries an attempt returns, and the first one that does is a success or not. -/
def ReturnsWithin (attempts : ℕ → Except Exn ToolResult) (r : ℕ) (success : Bool) : Prop :=
  ∃ j ≤ r, ∃ t, FirstReturns attempts j t ∧ t.success = success

/-- The outcome of an attempt is a timeout. -/
def TimedOut (outcome : Except Exn ToolResult) : Prop :=
  ∃ e, outcome = .error e ∧ e.cls = .timeoutError

/-- Within `r` retries an attempt returns, or all of them raise. -/
theorem firstReturns_or_raises (attempts : ℕ → Except Exn ToolResult) (r : ℕ) :
    (∃ j ≤ r, ∃ t, FirstReturns attempts j t) ∨ RaisesBefore attempts (r + 1) := by
  induction r with
  | zero =>
    cases h : attempts 0 with
    | ok t => exact .inl ⟨0, le_rfl, t, fun i hi => by omega, h⟩
    | error e =>
      refine .inr fun i hi => ⟨e, ?_⟩
      obtain rfl : i = 0 := by omega
      exact h
  | succ r ih =>
    -- The first attempt to return is among the earlier ones, or it is this one, or there is none.
    rcases ih with ⟨j, hj, t, hfirst⟩ | hraise
    · exact .inl ⟨j, by omega, t, hfirst⟩
    · cases h : attempts (r + 1) with
      | ok t => exact .inl ⟨r + 1, le_rfl, t, hraise, h⟩
      | error e =>
        refine .inr fun i hi => ?_
        by_cases hir : i = r + 1
        · exact ⟨e, hir ▸ h⟩
        · exact hraise i (by omega)

/-- Only one attempt is the first that returns. -/
theorem FirstReturns.unique {attempts : ℕ → Except Exn ToolResult} {j j' : ℕ} {t t' : ToolResult}
    (h : FirstReturns attempts j t) (h' : FirstReturns attempts j' t') : j = j' ∧ t = t' := by
  have hle {i i' : ℕ} {u u' : ToolResult} (hu : FirstReturns attempts i u)
      (hu' : FirstReturns attempts i' u') : i ≤ i' := by
    by_contra hlt
    obtain ⟨e, he⟩ := hu.1 i' (by omega)
    rw [hu'.2] at he
    cases he
  have hj : j = j' := le_antisymm (hle h h') (hle h' h)
  subst hj
  exact ⟨rfl, Except.ok.inj (h.2.symm.trans h'.2)⟩

/-- When all attempts raise, none returns. -/
theorem RaisesBefore.not_returns {attempts : ℕ → Except Exn ToolResult} {r : ℕ}
    (h : RaisesBefore attempts (r + 1)) (success : Bool) : ¬ ReturnsWithin attempts r success := by
  rintro ⟨j, hj, t, hfirst, -⟩
  obtain ⟨e, he⟩ := h j (by omega)
  rw [hfirst.2] at he
  cases he

/-- The awaits of `n` retries: before each of them a pause, longer by the backoff factor. -/
def retryAwaits (backoff_factor : ℚ) : ℕ → List Await
  | 0 => [.call 0]
  | n + 1 => retryAwaits backoff_factor n ++ [.sleep (backoff_factor ^ (n + 1)), .call (n + 1)]

/-- `n` retries are `n + 1` attempts. -/
theorem attempts_retryAwaits (backoff_factor : ℚ) (n : ℕ) :
    (retryAwaits backoff_factor n).filterMap Await.attempt? = List.range (n + 1) := by
  induction n with
  | zero => rfl
  | succ n ih =>
    rw [retryAwaits, List.filterMap_append, ih, List.range_succ (n := n + 1)]
    rfl

/-- The pauses of `n` retries. -/
theorem waits_retryAwaits (backoff_factor : ℚ) (n : ℕ) :
    (retryAwaits backoff_factor n).filterMap Await.wait? =
      (List.range n).map fun i => backoff_factor ^ (i + 1) := by
  induction n with
  | zero => rfl
  | succ n ih =>
    rw [retryAwaits, List.filterMap_append, ih, List.range_succ, List.map_append]
    rfl

/-- The error of an attempt that raised, as the executor words it: a timeout has no text of its
own. -/
def ToolExecutor.attemptError (P : Platform) (ex : ToolExecutor) (req : ToolCallRequest)
    (tool : Tool) (e : Exn) : String :=
  if e.cls = .timeoutError then
    "Tool '" ++ P.fmt req.tool_name ++ "' timed out after " ++ P.fmt (ex.effectiveTimeout tool) ++
      "s"
  else e.text

/-- The `except` clauses catch every `Exception` and keep its error. -/
theorem ToolExecutor.lastError_eq {P : Platform} {ex : ToolExecutor} {req : ToolCallRequest}
    {tool : Tool} {e : Exn} (h : e.IsException) :
    ex.lastError P req tool e = some (ex.attemptError P req tool e) := by
  unfold lastError attemptError
  unfold Exn.IsException at h
  cases hcls : e.cls with
  | cancelledError => exact absurd hcls h
  | _ => rfl

/-- The invocations in `n` retries: one in each attempt, or none at all. -/
theorem invocations_retryAwaits (P : Platform) (ex : ToolExecutor) (tool : Tool) (arguments : Dict)
    (backoff_factor : ℚ) (n : ℕ) :
    (retryAwaits backoff_factor n).filterMap (Await.invocation? P ex tool arguments) =
      if ex.startsCall P tool then (List.range (n + 1)).map fun i => ⟨tool, arguments, i⟩
      else [] := by
  -- A call is invoked if the limit lets it start, which no attempt changes.
  have hsingle (i : ℕ) : [Await.call i].filterMap (Await.invocation? P ex tool arguments) =
      if ex.startsCall P tool then [⟨tool, arguments, i⟩] else [] := by
    by_cases hstarts : ex.startsCall P tool
    · simp [Await.invocation?, hstarts]
    · simp [Await.invocation?, hstarts]
  induction n with
  | zero => exact hsingle 0
  | succ n ih =>
    -- The pause between two attempts invokes nothing.
    have hpause : (retryAwaits backoff_factor (n + 1)).filterMap
        (Await.invocation? P ex tool arguments) =
          (retryAwaits backoff_factor n).filterMap (Await.invocation? P ex tool arguments) ++
            [Await.call (n + 1)].filterMap (Await.invocation? P ex tool arguments) := by
      rw [retryAwaits, List.filterMap_append]
      rfl
    rw [hpause, ih, hsingle]
    by_cases hstarts : ex.startsCall P tool
    · rw [if_pos hstarts, if_pos hstarts, if_pos hstarts, List.range_succ (n := n + 1),
        List.map_append]
      rfl
    · rw [if_neg hstarts, if_neg hstarts, if_neg hstarts]
      rfl

/-- The awaits of a call that makes `n` retries. -/
structure MakesRetries (P : Platform) (ex : ToolExecutor) (req : ToolCallRequest) (tool : Tool)
    (n : ℕ) (awaits : List Await) : Prop where
  order : awaits = retryAwaits ex.backoff_factor n
  /-- One attempt more than that, in the order of their numbers. -/
  calls : awaits.filterMap Await.attempt? = List.range (n + 1)
  /-- The tool is invoked once in each of them, or never. -/
  invocations : ∀ arguments, req.arguments = .dict arguments →
    awaits.filterMap (Await.invocation? P ex tool arguments) =
      if ex.startsCall P tool then (List.range (n + 1)).map fun i => ⟨tool, arguments, i⟩ else []
  waits : awaits.filterMap Await.wait? = (List.range n).map fun i => ex.backoff_factor ^ (i + 1)

/-- The awaits up to an attempt are those of its retries. -/
theorem makesRetries_retryAwaits (P : Platform) (ex : ToolExecutor) (req : ToolCallRequest)
    (tool : Tool) (n : ℕ) :
    MakesRetries P ex req tool n (retryAwaits ex.backoff_factor n) where
  order := rfl
  calls := attempts_retryAwaits ex.backoff_factor n
  invocations arguments _ := invocations_retryAwaits P ex tool arguments ex.backoff_factor n
  waits := waits_retryAwaits ex.backoff_factor n

/-- A result says what a `ToolResult` does. -/
structure Reports (r : ToolResult) (result : ExecutionResult) : Prop where
  success : r.success = true →
    result.status = .success ∧ result.content = r.content ∧ result.error = ""
  failure : r.success = false →
    result.status = .failed ∧ result.content = "" ∧ result.error ≠ "" ∧
      (r.error ≠ "" → result.error = r.error)

/-- The result made of a `ToolResult` says what it does. -/
theorem reports_resultOf (req : ToolCallRequest) (attempt : ℕ) (r : ToolResult) :
    Reports r (req.resultOf attempt r) := by
  unfold ToolCallRequest.resultOf
  constructor
  · intro hsuccess
    simp [hsuccess]
  · intro hfailure
    by_cases herror : r.error = ""
    · simp [hfailure, herror]
    · simp [hfailure, herror]

section Run

variable {P : Platform} {ex : ToolExecutor} {reg : ToolRegistry} {req : ToolCallRequest}
variable {outcomes : ℕ → Except Exn ToolResult} {caches : ℕ → Cache} {tool : Tool}

/-- If the tool raises only what `except Exception` catches, so do the attempts. -/
theorem isException_attempts (hexn : ∀ i e, outcomes i = .error e → e.IsException) {i : ℕ} {e : Exn}
    (h : ex.attempts P req tool outcomes i = .error e) : e.IsException :=
  ToolExecutor.isException_waitFor (hexn i) h

/-- So the attempts before the given one raise what is caught. -/
theorem RaisesBefore.caught (hexn : ∀ i e, outcomes i = .error e → e.IsException) {n : ℕ}
    (h : RaisesBefore (ex.attempts P req tool outcomes) n) :
    CaughtBefore (ex.attempts P req tool outcomes) n := by
  intro i hi
  obtain ⟨e, he⟩ := h i hi
  exact ⟨e, he, isException_attempts hexn he⟩

/-- One more segment of a call. -/
theorem taskAt_succ (n : ℕ) :
    ex.taskAt P reg req outcomes caches (n + 1) =
      (ex.advance P reg req outcomes (ex.taskAt P reg req outcomes caches n) (caches n)).1 := rfl

/-- One more segment adds what the task awaits at its beginning. -/
theorem awaits_succ (n : ℕ) :
    ex.awaits P reg req outcomes caches (n + 1) =
      ex.awaits P reg req outcomes caches n ++
        (ex.taskAt P reg req outcomes caches n).await?.toList := by
  unfold ToolExecutor.awaits
  rw [List.range_succ, List.filterMap_append]
  rfl

/-- An attempt that returns ends the call. -/
theorem advance_returns {n : ℕ} {r : ToolResult} (h : ex.attempts P req tool outcomes n = .ok r)
    (cache : Cache) :
    (ex.advance P reg req outcomes (.calling tool n) cache).1 =
      .done (.ok (req.resultOf n r)) := by
  unfold ToolExecutor.attempts at h
  simp only [ToolExecutor.advance, ToolExecutor.finishAttempt, h]

/-- An attempt that raises leads to the next one. -/
theorem advance_raises {n : ℕ} {e : Exn} (h : ex.attempts P req tool outcomes n = .error e)
    (he : e.IsException) (cache : Cache) :
    (ex.advance P reg req outcomes (.calling tool n) cache).1 =
      ex.retryLoop req tool (n + 1) (ex.attemptError P req tool e) := by
  unfold ToolExecutor.attempts at h
  simp only [ToolExecutor.advance, ToolExecutor.finishAttempt, h, ToolExecutor.lastError_eq he]

/-- An attempt that raises what is not caught ends the call. -/
theorem advance_uncaught {n : ℕ} {e : Exn} (h : ex.attempts P req tool outcomes n = .error e)
    (he : ¬ e.IsException) (cache : Cache) :
    (ex.advance P reg req outcomes (.calling tool n) cache).1 = .done (.error e) := by
  have hcls : e.cls = .cancelledError := by
    by_contra hne
    exact he hne
  unfold ToolExecutor.attempts at h
  simp only [ToolExecutor.advance, ToolExecutor.finishAttempt, h, ToolExecutor.lastError, hcls]

/-- A call that has ended awaits nothing more. -/
theorem taskAt_done {n m : ℕ} {r : Except Exn ExecutionResult} (hnm : n ≤ m)
    (h : ex.taskAt P reg req outcomes caches n = .done r) :
    ex.taskAt P reg req outcomes caches m = .done r ∧
      ex.awaits P reg req outcomes caches m = ex.awaits P reg req outcomes caches n := by
  induction m, hnm using Nat.le_induction with
  | base => exact ⟨h, rfl⟩
  | succ m _ ih =>
    obtain ⟨htask, hawaits⟩ := ih
    constructor
    · rw [taskAt_succ, htask]
      rfl
    · rw [awaits_succ, htask, hawaits]
      exact List.append_nil _

/-- What a call awaits is only ever added to. -/
theorem awaits_prefix {n m : ℕ} (h : n ≤ m) :
    ex.awaits P reg req outcomes caches n <+: ex.awaits P reg req outcomes caches m := by
  induction m, h using Nat.le_induction with
  | base => exact List.prefix_rfl
  | succ m _ ih =>
    rw [awaits_succ]
    exact ih.trans (List.prefix_append _ _)

/-- Once a call has ended, it has awaited all that it ever does. -/
theorem awaits_prefix_of_done {n : ℕ} {r : Except Exn ExecutionResult}
    (h : ex.taskAt P reg req outcomes caches n = .done r) (m : ℕ) :
    ex.awaits P reg req outcomes caches m <+: ex.awaits P reg req outcomes caches n := by
  rcases le_total m n with hle | hle
  · exact awaits_prefix hle
  · exact (taskAt_done hle h).2 ▸ List.prefix_rfl

section Missed

variable (hlookup : ex.lookup P (caches 0) req = none)
variable (hget : reg.get req.tool_name = .ok (some tool)) (hretries : 0 ≤ ex.max_retries)
include hlookup hget hretries

/-- While the attempts raise what is caught, a call that missed the cache goes from attempt to
attempt. -/
theorem taskAt_calling {n : ℕ} (hn : (n : ℤ) ≤ ex.max_retries)
    (hraise : CaughtBefore (ex.attempts P req tool outcomes) n) :
    ex.taskAt P reg req outcomes caches (2 * n + 1) = .calling tool n ∧
      ex.awaits P reg req outcomes caches (2 * n + 2) = retryAwaits ex.backoff_factor n := by
  induction n with
  | zero =>
    have hstart : ex.taskAt P reg req outcomes caches 1 = .calling tool 0 := by
      change ex.startTask P reg (caches 0) req = _
      simp only [ToolExecutor.startTask, hlookup, hget, ToolExecutor.retryLoop]
      rw [if_pos (by push_cast; omega), if_neg (by omega)]
    refine ⟨hstart, ?_⟩
    rw [awaits_succ, hstart]
    rfl
  | succ n ih =>
    obtain ⟨hcalling, hawaits⟩ := ih (by push_cast at hn; omega) fun i hi => hraise i (by omega)
    obtain ⟨e, he, hexn⟩ := hraise n (by omega)
    -- The attempt raises, the task sleeps, and it calls again.
    have hsleeping : ex.taskAt P reg req outcomes caches (2 * n + 2) =
        .sleeping tool (n + 1) (ex.backoff_factor ^ (n + 1)) := by
      rw [taskAt_succ, hcalling, advance_raises he hexn]
      unfold ToolExecutor.retryLoop
      rw [if_pos (by omega), if_pos (by omega)]
    have hnext : ex.taskAt P reg req outcomes caches (2 * n + 3) = .calling tool (n + 1) := by
      rw [taskAt_succ, hsleeping]
      rfl
    refine ⟨hnext, ?_⟩
    change ex.awaits P reg req outcomes caches (2 * n + 3 + 1) = _
    rw [awaits_succ, awaits_succ, hawaits, hsleeping, hnext, List.append_assoc]
    rfl

variable (hexn : ∀ i e, outcomes i = .error e → e.IsException)
include hexn

/-- The first attempt that returns within the budget ends the call. -/
theorem taskAt_returns {j : ℕ} (hj : (j : ℤ) ≤ ex.max_retries) {r : ToolResult}
    (hfirst : FirstReturns (ex.attempts P req tool outcomes) j r) {n : ℕ} (hn : ex.segments ≤ n) :
    ex.taskAt P reg req outcomes caches n = .done (.ok (req.resultOf j r)) ∧
      MakesRetries P ex req tool j (ex.awaits P reg req outcomes caches n) := by
  obtain ⟨hcalling, hawaits⟩ :=
    taskAt_calling hlookup hget hretries hj (hfirst.1.caught hexn)
  have hdone : ex.taskAt P reg req outcomes caches (2 * j + 2) =
      .done (.ok (req.resultOf j r)) := by
    rw [taskAt_succ, hcalling, advance_returns hfirst.2]
  have hle : 2 * j + 2 ≤ n := by
    unfold ToolExecutor.segments at hn
    omega
  obtain ⟨hlater, hsame⟩ := taskAt_done hle hdone
  refine ⟨hlater, ?_⟩
  rw [hsame, hawaits]
  exact makesRetries_retryAwaits P ex req tool _

/-- If no attempt of the budget returns, the call ends with the error of the last one. -/
theorem taskAt_exhausted
    (hraise : RaisesBefore (ex.attempts P req tool outcomes) (ex.max_retries.toNat + 1)) {n : ℕ}
    (hn : ex.segments ≤ n) :
    ∃ e, ex.attempts P req tool outcomes ex.max_retries.toNat = .error e ∧
      ex.taskAt P reg req outcomes caches n =
        .done (.ok (ex.exhausted req (ex.attemptError P req tool e))) ∧
      MakesRetries P ex req tool ex.max_retries.toNat
        (ex.awaits P reg req outcomes caches n) := by
  have hbefore : RaisesBefore (ex.attempts P req tool outcomes) ex.max_retries.toNat :=
    fun i hi => hraise i (by omega)
  obtain ⟨hcalling, hawaits⟩ := taskAt_calling hlookup hget hretries
    -- All attempts but the last raise, so the task comes to the last one.
    (Int.toNat_of_nonneg hretries).le (hbefore.caught hexn)
  obtain ⟨e, he⟩ := hraise ex.max_retries.toNat (by omega)
  -- After it `attempt <= max_retries` fails, and the loop falls through to its end.
  have hdone : ex.taskAt P reg req outcomes caches (2 * ex.max_retries.toNat + 2) =
      .done (.ok (ex.exhausted req (ex.attemptError P req tool e))) := by
    rw [taskAt_succ, hcalling, advance_raises he (isException_attempts hexn he)]
    unfold ToolExecutor.retryLoop
    rw [if_neg (by push_cast; omega)]
  have hle : 2 * ex.max_retries.toNat + 2 ≤ n := by
    unfold ToolExecutor.segments at hn
    omega
  -- From then on the task is done, and makes no further await.
  obtain ⟨hlater, hsame⟩ := taskAt_done hle hdone
  refine ⟨e, he, hlater, ?_⟩
  rw [hsame, hawaits]
  exact makesRetries_retryAwaits P ex req tool _

variable (caches) in
/-- A call of `_execute_single` that misses the cache: it ends at the first attempt that returns a
`ToolResult`, with the result of that one, and after the last attempt of the budget otherwise, with
the error of that one. Its tool is invoked in each of the attempts if the limit leaves it time, and
in none of them otherwise. -/
theorem execute_single_retries {n : ℕ} (hn : ex.segments ≤ n) :
    (∀ (j : ℕ) (r : ToolResult), (j : ℤ) ≤ ex.max_retries →
      FirstReturns (ex.attempts P req tool outcomes) j r →
        ex.taskAt P reg req outcomes caches n = .done (.ok (req.resultOf j r)) ∧
        Reports r (req.resultOf j r) ∧ (req.resultOf j r).retry_count = j ∧
        MakesRetries P ex req tool j (ex.awaits P reg req outcomes caches n)) ∧
      (RaisesBefore (ex.attempts P req tool outcomes) (ex.max_retries.toNat + 1) →
        ∃ (e : Exn) (result : ExecutionResult),
          ex.attempts P req tool outcomes ex.max_retries.toNat = .error e ∧
          ex.taskAt P reg req outcomes caches n = .done (.ok result) ∧
          result.success = false ∧ result.content = "" ∧
          (ex.attemptError P req tool e).toList <:+ result.error.toList ∧
          MakesRetries P ex req tool ex.max_retries.toNat
            (ex.awaits P reg req outcomes caches n)) := by
  constructor
  · intro j r hj hfirst
    obtain ⟨hdone, hmakes⟩ := taskAt_returns hlookup hget hretries hexn hj hfirst hn
    exact ⟨hdone, reports_resultOf req j r, rfl, hmakes⟩
  · intro hraise
    obtain ⟨e, he, hdone, hmakes⟩ := taskAt_exhausted hlookup hget hretries hexn hraise hn
    -- `RETRY_EXHAUSTED` if there were retries, else `FAILED`: no success in either case.
    refine ⟨e, _, he, hdone, ?_, rfl, ?_, hmakes⟩
    · by_cases hpos : 0 < ex.max_retries
      · simp [ToolExecutor.exhausted, ExecutionResult.success, hpos]
      · simp [ToolExecutor.exhausted, ExecutionResult.success, hpos]
    -- The error ends with the text of the last attempt's.
    · unfold ToolExecutor.exhausted
      rw [String.toList_append]
      exact List.suffix_append _ _

end Missed

end Run

/-! ## Two retries -/

namespace ToolExecutor

/-- An executor with two retries and no cache. -/
def retrying : ToolExecutor where
  default_timeout := .int 30
  max_retries := 2
  backoff_factor := 3 / 2
  parallel := true
  enable_cache := false

/-- The registry with the tool `read`. -/
def retryRegistry : ToolRegistry := ToolRegistry.empty.register read

/-- The tool times out and then succeeds. -/
def lateSuccess : ℕ → Except Exn ToolResult
  | 0 => .error ⟨.timeoutError, ""⟩
  | _ => .ok { content := "one" }

/-- Without a cache nothing is found in it. -/
theorem lookup_retrying : retrying.lookup .bare .empty readRequest = none := rfl

/-- The registry has the tool of the request. -/
theorem get_retryRegistry : retryRegistry.get readRequest.tool_name = .ok (some read) := rfl

/-- The late success raises only its timeout. -/
theorem isException_lateSuccess (i : ℕ) (e : Exn) (h : lateSuccess i = .error e) :
    e.IsException := by
  cases i with
  | zero =>
    obtain rfl := Except.error.inj h
    decide
  | succ i => cases h

end ToolExecutor

open ToolExecutor in
/-- A timeout, a pause and a success. -/
theorem execute_single_retries_late_success :
    retrying.taskAt .bare retryRegistry readRequest lateSuccess (fun _ => .empty) 6 =
        .done (.ok (readRequest.resultOf 1 { content := "one" })) ∧
      MakesRetries .bare retrying readRequest read 1
        (retrying.awaits .bare retryRegistry readRequest lateSuccess (fun _ => .empty) 6) := by
  have hfirst :
      FirstReturns (retrying.attempts .bare readRequest read lateSuccess) 1
        { content := "one" } := by
    refine ⟨fun i hi => ?_, rfl⟩
    obtain rfl : i = 0 := by omega
    exact ⟨_, rfl⟩
  have hsegments : retrying.segments ≤ 6 := by decide
  have hruns := execute_single_retries (fun _ => .empty) lookup_retrying get_retryRegistry
    (by decide) isException_lateSuccess hsegments
  obtain ⟨hdone, -, -, hmakes⟩ := hruns.1 1 _ (by decide) hfirst
  exact ⟨hdone, hmakes⟩

open ToolExecutor in
/-- With a default timeout of 0, three attempts are awaited and the tool is not invoked in any. -/
theorem retries_not_invoked :
    RaisesBefore ({ retrying with default_timeout := .int 0 }.attempts .bare readRequest read
      lateSuccess) 3 ∧
    let awaits := { retrying with default_timeout := .int 0 }.awaits .bare retryRegistry
      readRequest lateSuccess (fun _ => .empty) 6
    awaits.filterMap Await.attempt? = [0, 1, 2] ∧
      awaits.filterMap (Await.invocation? .bare { retrying with default_timeout := .int 0 } read
        []) = [] := by
  refine ⟨fun i _ => ⟨⟨.timeoutError, ""⟩, ?_⟩, by decide, by decide⟩
  -- The limit is read before the outcome of the attempt.
  unfold ToolExecutor.attempts ToolExecutor.waitFor
  rfl

/-! ## The status -/

section Status

variable {P : Platform} {ex : ToolExecutor} {reg : ToolRegistry} {req : ToolCallRequest}
variable {outcomes : ℕ → Except Exn ToolResult} {caches : ℕ → Cache} {tool : Tool}

/-- What the status of the result tells of the attempts of a budget of `r` retries. -/
structure TellsStatus (attempts : ℕ → Except Exn ToolResult) (r : ℕ) (status : ExecutionStatus) :
    Prop where
  success : status = .success ↔ ReturnsWithin attempts r true
  timeout : status = .timeout ↔ r = 0 ∧ TimedOut (attempts 0)
  exhausted : status = .retryExhausted ↔ 0 < r ∧ RaisesBefore attempts (r + 1)
  failed : status = .failed ↔ ¬ ReturnsWithin attempts r true ∧
    ¬ (r = 0 ∧ TimedOut (attempts 0)) ∧ ¬ (0 < r ∧ RaisesBefore attempts (r + 1))

/-- The fourth status is the one that is left. -/
theorem tellsStatus_of {attempts : ℕ → Except Exn ToolResult} {r : ℕ} {status : ExecutionStatus}
    (hsuccess : status = .success ↔ ReturnsWithin attempts r true)
    (htimeout : status = .timeout ↔ r = 0 ∧ TimedOut (attempts 0))
    (hexhausted : status = .retryExhausted ↔ 0 < r ∧ RaisesBefore attempts (r + 1)) :
    TellsStatus attempts r status := by
  refine ⟨hsuccess, htimeout, hexhausted, ?_⟩
  rw [← hsuccess, ← htimeout, ← hexhausted]
  cases status <;> simp

variable (hlookup : ex.lookup P (caches 0) req = none)
variable (hget : reg.get req.tool_name = .ok (some tool)) (hretries : 0 ≤ ex.max_retries)
variable (hexn : ∀ i e, outcomes i = .error e → e.IsException)
include hlookup hget hretries hexn

variable (caches) in
/-- The status of a call that misses the cache tells what happened unless the only attempt timed
out. -/
theorem status_tells_iff {n : ℕ} (hn : ex.segments ≤ n) :
    ∃ result : ExecutionResult,
      ex.taskAt P reg req outcomes caches n = .done (.ok result) ∧
      (TellsStatus (ex.attempts P req tool outcomes) ex.max_retries.toNat result.status ↔
        ¬ (ex.max_retries = 0 ∧ TimedOut (ex.attempts P req tool outcomes 0))) := by
  have hzero : ex.max_retries.toNat = 0 ↔ ex.max_retries = 0 := by omega
  rw [← hzero]
  rcases firstReturns_or_raises (ex.attempts P req tool outcomes) ex.max_retries.toNat with
    ⟨j, hj, t, hfirst⟩ | hraise
  · -- An attempt returns, and the status is that of its result.
    obtain ⟨hdone, -⟩ := taskAt_returns hlookup hget hretries hexn (by omega) hfirst hn
    have hreturns : ReturnsWithin (ex.attempts P req tool outcomes) ex.max_retries.toNat true ↔
        t.success = true := by
      constructor
      · rintro ⟨j', -, t', hfirst', hsuccess⟩
        rw [(hfirst.unique hfirst').2]
        exact hsuccess
      · exact fun hsuccess => ⟨j, hj, t, hfirst, hsuccess⟩
    have hraise : ¬ RaisesBefore (ex.attempts P req tool outcomes) (ex.max_retries.toNat + 1) :=
      fun hraise => hraise.not_returns t.success ⟨j, hj, t, hfirst, rfl⟩
    have htimeout :
        ¬ (ex.max_retries.toNat = 0 ∧ TimedOut (ex.attempts P req tool outcomes 0)) := by
      rintro ⟨hnone, e, he, -⟩
      obtain rfl : j = 0 := by omega
      rw [hfirst.2] at he
      cases he
    refine ⟨_, hdone, iff_of_true (tellsStatus_of ?_ ?_ ?_) htimeout⟩
    · rw [hreturns]
      cases hsuccess : t.success <;> simp [ToolCallRequest.resultOf, hsuccess]
    · refine iff_of_false ?_ htimeout
      cases hsuccess : t.success <;> simp [ToolCallRequest.resultOf, hsuccess]
    · refine iff_of_false ?_ fun hexhausted => hraise hexhausted.2
      cases hsuccess : t.success <;> simp [ToolCallRequest.resultOf, hsuccess]
  · -- All attempts raise, and the status tells whether there were retries.
    obtain ⟨e, he, hdone, -⟩ := taskAt_exhausted hlookup hget hretries hexn hraise hn
    have hreturns := hraise.not_returns true
    refine ⟨_, hdone, ?_⟩
    by_cases hpos : 0 < ex.max_retries
    · have hstatus : (ex.exhausted req (ex.attemptError P req tool e)).status = .retryExhausted :=
        if_pos hpos
      have htimeout : ¬ (ex.max_retries.toNat = 0 ∧ TimedOut (ex.attempts P req tool outcomes 0)) :=
        fun h => by omega
      rw [hstatus]
      exact iff_of_true (tellsStatus_of (iff_of_false (by decide) hreturns)
        (iff_of_false (by decide) htimeout) (iff_of_true rfl ⟨by omega, hraise⟩)) htimeout
    · have hstatus : (ex.exhausted req (ex.attemptError P req tool e)).status = .failed :=
        if_neg hpos
      have hexhausted : ¬ (0 < ex.max_retries.toNat ∧
          RaisesBefore (ex.attempts P req tool outcomes) (ex.max_retries.toNat + 1)) :=
        fun h => by omega
      rw [hstatus]
      constructor
      · intro htells htimeout
        cases htells.timeout.mpr htimeout
      · intro htimeout
        exact tellsStatus_of (iff_of_false (by decide) hreturns)
          (iff_of_false (by decide) htimeout) (iff_of_false (by decide) hexhausted)

end Status

open ToolExecutor in
/-- With retries, the status of the late success tells it. -/
theorem status_tells_iff_late_success :
    ∃ result : ExecutionResult,
      retrying.taskAt .bare retryRegistry readRequest lateSuccess (fun _ => .empty) 6 =
        .done (.ok result) ∧
      (TellsStatus (retrying.attempts .bare readRequest read lateSuccess) 2 result.status ↔
        ¬ (retrying.max_retries = 0 ∧
          TimedOut (retrying.attempts .bare readRequest read lateSuccess 0))) :=
  have hsegments : retrying.segments ≤ 6 := by decide
  status_tells_iff (fun _ => .empty) lookup_retrying get_retryRegistry (by decide)
    isException_lateSuccess hsegments

open ToolExecutor in
/-- Without retries, the same timeout is reported as FAILED. -/
theorem status_of_timeout :
    TimedOut (retrying.attempts .bare readRequest read lateSuccess 0) ∧
      ∃ result : ExecutionResult,
        { retrying with max_retries := 0 }.taskAt .bare retryRegistry readRequest lateSuccess
          (fun _ => .empty) 2 = .done (.ok result) ∧
        result.status = .failed ∧
        ¬ TellsStatus (retrying.attempts .bare readRequest read lateSuccess) 0 result.status := by
  have htimeout : TimedOut (retrying.attempts .bare readRequest read lateSuccess 0) := ⟨_, rfl, rfl⟩
  refine ⟨htimeout, _, rfl, rfl, fun htells => ?_⟩
  cases htells.timeout.mpr ⟨rfl, htimeout⟩

end YellowBull
