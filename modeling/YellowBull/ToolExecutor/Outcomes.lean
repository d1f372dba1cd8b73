import YellowBull.ToolExecutor

/-!
# What a parallel batch comes to

`execution` is a request run on its own: the registry lookup and then one attempt after another,
with no cache and no other task. `executeParallel_results` says that a parallel batch gives each
request the result of its execution, under every schedule, unless the request found its result in
the cache when its task started (`Batch.firstLookup`). So without the cache the order of the
segments does not matter.

Three facts about one segment carry the proof. A task that follows an execution still does after it
(`Task.follows_advance`). It has one segment less to go (`Task.remaining_advance`), so that the
tasks are done when the batch returns (`Batch.tasks_done`). And the segments of the other tasks do
not touch it (`Batch.step_of_ne`).
-/

namespace YellowBull

open Py

/-! ## The awaited call -/

section Wait

variable {P : Platform} {ex : ToolExecutor} {tool : Tool}

/-- A call that is started comes back with what `_invoke_tool` does. -/
theorem ToolExecutor.waitFor_of_startsCall (h : ex.startsCall P tool = true) (arguments : Val)
    (attempt : Except Exn ToolResult) :
    ex.waitFor P tool arguments attempt = invokeTool tool arguments attempt := by
  unfold startsCall at h
  unfold waitFor
  cases hlimit : waitLimit P.seconds (ex.effectiveTimeout tool) with
  | error e => simp [hlimit] at h
  | ok limit =>
    simp only [hlimit, Bool.not_eq_true'] at h
    simp [h]

/-- A call that is not started raises one exception, whatever the tool would do, and the loop
catches it. -/
theorem ToolExecutor.waitFor_of_not_startsCall (h : ex.startsCall P tool = false) :
    ∃ e, e.IsException ∧ ∀ arguments attempt, ex.waitFor P tool arguments attempt = .error e := by
  unfold startsCall at h
  unfold waitFor
  cases hlimit : waitLimit P.seconds (ex.effectiveTimeout tool) with
  | error e =>
    refine ⟨e, ?_, fun _ _ => rfl⟩
    -- Only the comparison of `timeout` with 0 raises, a `TypeError`.
    unfold waitLimit at hlimit
    split at hlimit <;> cases hlimit
    exact fun hcls => nomatch hcls
  | ok limit =>
    simp only [hlimit, Bool.not_eq_false'] at h
    exact ⟨⟨.timeoutError, ""⟩, by decide, fun _ _ => by simp [h]⟩

/-- If the tool raises only what `except Exception` catches, so does the awaited call. -/
theorem ToolExecutor.isException_waitFor {arguments : Val} {attempt : Except Exn ToolResult}
    (hexn : ∀ e, attempt = .error e → e.IsException) {e : Exn}
    (h : ex.waitFor P tool arguments attempt = .error e) : e.IsException := by
  cases hstarts : ex.startsCall P tool with
  | false =>
    obtain ⟨e', he', hwait⟩ := waitFor_of_not_startsCall hstarts
    obtain rfl := Except.error.inj ((hwait arguments attempt).symm.trans h)
    exact he'
  | true =>
    rw [waitFor_of_startsCall hstarts] at h
    unfold invokeTool at h
    split at h
    · exact hexn e h
    · -- Unpacking the arguments raised.
      obtain rfl := Except.error.inj h
      exact fun hcls => by cases hcls

end Wait

/-! ## Executions -/

/-- What the attempts for a request come to. -/
inductive Execution where
  /-- The registry lookup, or an attempt, raised an exception that the executor lets through. -/
  | raised (e : Exn)
  /-- The tool is not registered. -/
  | unknown
  /-- The tool returned `r` on the attempt. -/
  | returned (attempt : ℕ) (r : ToolResult)
  /-- Every attempt raised. -/
  | exhausted (last_error : String)
  deriving DecidableEq

section Single

variable (P : Platform) (ex : ToolExecutor) (reg : ToolRegistry)

/-- The attempts for a request from one on, at most `n` of them. -/
def ToolExecutor.attemptsFrom (req : ToolCallRequest) (tool : Tool)
    (outcomes : ℕ → Except Exn ToolResult) : ℕ → ℕ → String → Execution
  | 0, _, last_error => .exhausted last_error
  | n + 1, attempt, _ =>
    match ex.waitFor P tool req.arguments (outcomes attempt) with
    | .ok r => .returned attempt r
    | .error e =>
      match ex.lastError P req tool e with
      | some last_error => attemptsFrom req tool outcomes n (attempt + 1) last_error
      | none => .raised e

/-- A request run on its own. -/
def ToolExecutor.execution (req : ToolCallRequest) (outcomes : ℕ → Except Exn ToolResult) :
    Execution :=
  match reg.get req.tool_name with
  | .error e => .raised e
  | .ok none => .unknown
  | .ok (some tool) => ex.attemptsFrom P req tool outcomes (ex.max_retries + 1).toNat 0 ""

/-- What `_execute_single` returns or raises for it. -/
def Execution.outcome (req : ToolCallRequest) : Execution → Except Exn ExecutionResult
  | .raised e => .error e
  | .unknown => .ok (req.unknownTool P)
  | .returned attempt r => .ok (req.resultOf attempt r)
  | .exhausted last_error => .ok (ex.exhausted req last_error)

/-- The result that a batch has for it. -/
def Execution.result (req : ToolCallRequest) (E : Execution) : ExecutionResult :=
  req.gathered (.done (E.outcome P ex req))

/-- The execution gave a tool's result that is a success. -/
def Execution.Succeeds : Execution → Prop
  | .returned _ r => r.success = true
  | _ => False

/-- A started task is on the way to the end of the execution. -/
def Task.Follows (req : ToolCallRequest) (outcomes : ℕ → Except Exn ToolResult) (E : Execution) :
    Task → Prop
  | .queued => False
  | .calling tool attempt => (attempt : ℤ) < ex.max_retries + 1 ∧ ∀ last_error,
      ex.attemptsFrom P req tool outcomes (ex.max_retries + 1 - attempt).toNat attempt
        last_error = E
  | .sleeping tool attempt _ => (attempt : ℤ) < ex.max_retries + 1 ∧ ∀ last_error,
      ex.attemptsFrom P req tool outcomes (ex.max_retries + 1 - attempt).toNat attempt
        last_error = E
  | .done r => r = E.outcome P ex req

/-- The number of segments that a task still has to go, at most. -/
def Task.remaining : Task → ℕ
  | .queued => ex.segments
  | .calling _ attempt => 2 * (ex.max_retries.toNat - attempt) + 1
  | .sleeping _ attempt _ => 2 * (ex.max_retries.toNat - attempt) + 2
  | .done _ => 0

variable {P ex reg} {req : ToolCallRequest} {outcomes : ℕ → Except Exn ToolResult}

/-! ## One segment -/

/-- The head of the retry loop follows the attempts from there on. -/
theorem Task.follows_retryLoop {E : Execution} {tool : Tool} {attempt : ℕ} {last_error : String}
    (h : ex.attemptsFrom P req tool outcomes (ex.max_retries + 1 - attempt).toNat attempt
      last_error = E) :
    (ex.retryLoop req tool attempt last_error).Follows P ex req outcomes E := by
  unfold ToolExecutor.retryLoop
  by_cases hlt : (attempt : ℤ) < ex.max_retries + 1
  · -- There is an attempt left, and the attempts from it on do not depend on the last error.
    obtain ⟨n, hn⟩ : ∃ n, (ex.max_retries + 1 - attempt).toNat = n + 1 :=
      ⟨(ex.max_retries - attempt).toNat, by omega⟩
    have hany : ∀ other, ex.attemptsFrom P req tool outcomes
        (ex.max_retries + 1 - attempt).toNat attempt other = E := by
      intro other
      rw [hn] at h ⊢
      exact h
    rw [if_pos hlt]
    split_ifs
    · exact ⟨hlt, hany⟩
    · exact ⟨hlt, hany⟩
  · -- The attempts are used up, and the task has returned the last error.
    have hzero : (ex.max_retries + 1 - attempt).toNat = 0 := by omega
    rw [if_neg hlt]
    rw [hzero] at h
    rw [← h]
    rfl

/-- A task that misses the cache starts to follow the execution of its request. -/
theorem Task.follows_startTask {cache : Cache} (h : ex.lookup P cache req = none) :
    (ex.startTask P reg cache req).Follows P ex req outcomes (ex.execution P reg req outcomes) := by
  unfold ToolExecutor.startTask ToolExecutor.execution
  rw [h]
  cases hget : reg.get req.tool_name with
  | error e => rfl
  | ok found =>
    cases found with
    | none => rfl
    | some tool =>
      refine Task.follows_retryLoop ?_
      simp

/-- A segment keeps a started task on the way. -/
theorem Task.follows_advance {E : Execution} {task : Task}
    (h : task.Follows P ex req outcomes E) (cache : Cache) :
    (ex.advance P reg req outcomes task cache).1.Follows P ex req outcomes E := by
  cases task with
  | queued => exact h.elim
  | sleeping tool attempt wait_time => exact h
  | done r => exact h
  | calling tool attempt =>
    -- The attempt under way is the first of the `n + 1` that the execution still has.
    obtain ⟨hlt, h⟩ := h
    obtain ⟨n, hn⟩ : ∃ n, (ex.max_retries + 1 - attempt).toNat = n + 1 :=
      ⟨(ex.max_retries - attempt).toNat, by omega⟩
    have hstep := h ""
    rw [hn, ToolExecutor.attemptsFrom] at hstep
    simp only [ToolExecutor.advance, ToolExecutor.finishAttempt]
    cases hinvoke : ex.waitFor P tool req.arguments (outcomes attempt) with
    | ok r =>
      simp only [hinvoke] at hstep
      rw [← hstep]
      rfl
    | error e =>
      simp only [hinvoke] at hstep ⊢
      cases hlast : ex.lastError P req tool e with
      | none =>
        simp only [hlast] at hstep
        rw [← hstep]
        rfl
      | some last_error =>
        -- A caught exception leads back to the head of the loop, with the other `n` attempts.
        simp only [hlast] at hstep
        refine Task.follows_retryLoop ?_
        rw [← hstep]
        congr 1
        push_cast
        omega

/-- Trying an attempt or giving up takes the segments that are left for it. -/
theorem Task.remaining_retryLoop (tool : Tool) (attempt : ℕ) (last_error : String) :
    (ex.retryLoop req tool attempt last_error).remaining ex ≤
      if attempt = 0 then 2 * ex.max_retries.toNat + 1
      else 2 * (ex.max_retries.toNat + 1 - attempt) := by
  unfold ToolExecutor.retryLoop
  split_ifs with hlt hpos h0
  all_goals
    simp only [Task.remaining]
    try omega

/-- A segment leaves one less to go. -/
theorem Task.remaining_advance (task : Task) (cache : Cache) :
    (ex.advance P reg req outcomes task cache).1.remaining ex ≤ task.remaining ex - 1 := by
  cases task with
  | queued =>
    simp only [ToolExecutor.advance, ToolExecutor.startTask]
    cases ex.lookup P cache req with
    | some cached => exact Nat.zero_le _
    | none =>
      rcases reg.get req.tool_name with e | _ | tool
      · exact Nat.zero_le _
      · exact Nat.zero_le _
      -- Entering the loop costs the segment of the start.
      · have hloop : (ex.retryLoop req tool 0 "").remaining ex ≤ 2 * ex.max_retries.toNat + 1 :=
          Task.remaining_retryLoop tool 0 ""
        have hqueued : Task.queued.remaining ex = 2 * (ex.max_retries.toNat + 1) := rfl
        dsimp only
        omega
  | sleeping tool attempt wait_time =>
    simp only [ToolExecutor.advance, Task.remaining]
    omega
  | done r => exact Nat.zero_le _
  -- An attempt that comes back either ends the task or costs its own segment.
  | calling tool attempt =>
    simp only [ToolExecutor.advance, ToolExecutor.finishAttempt]
    cases ex.waitFor P tool req.arguments (outcomes attempt) with
    | ok r => exact Nat.zero_le _
    | error e =>
      dsimp only
      cases ex.lastError P req tool e with
      | none => exact Nat.zero_le _
      -- The sleep and the next attempt are what the loop has left.
      | some last_error =>
        have hloop : (ex.retryLoop req tool (attempt + 1) last_error).remaining ex ≤
            2 * (ex.max_retries.toNat + 1 - (attempt + 1)) :=
          Task.remaining_retryLoop tool (attempt + 1) last_error
        have hcalling : (Task.calling tool attempt).remaining ex =
            2 * (ex.max_retries.toNat - attempt) + 1 := rfl
        dsimp only
        omega

/-- A task with no segment to go is done. -/
theorem Task.done_of_remaining {task : Task} (h : task.remaining ex = 0) : ∃ r, task = .done r := by
  cases task with
  | done r => exact ⟨r, rfl⟩
  | queued => simp [Task.remaining, ToolExecutor.segments] at h
  | sleeping tool attempt wait_time => simp [Task.remaining] at h
  | calling tool attempt => simp [Task.remaining] at h

end Single

/-! ## A batch under a schedule -/

section Batch

variable (P : Platform) (ex : ToolExecutor) (reg : ToolRegistry)
variable (requests : List ToolCallRequest) (outcomes : ℕ → ℕ → Except Exn ToolResult)

/-- What the task at position `i` finds in the cache when a schedule first comes to it. -/
def Batch.firstLookup (i : ℕ) : Batch → List ℕ → Option ExecutionResult
  | _, [] => none
  | b, j :: schedule =>
    if j = i then (requests[i]?).bind (ex.lookup P b.cache)
    else firstLookup i (b.step P ex reg requests outcomes j) schedule

variable {P ex reg requests outcomes}

/-- The segment of a task advances that task. -/
theorem Batch.step_self {i : ℕ} {req : ToolCallRequest} (hi : requests[i]? = some req) (b : Batch) :
    (b.step P ex reg requests outcomes i).tasks i =
      (ex.advance P reg req (outcomes i) (b.tasks i) b.cache).1 := by
  simp [Batch.step, hi]

/-- The segment of a task leaves the others alone. -/
theorem Batch.step_of_ne {i j : ℕ} (h : i ≠ j) (b : Batch) :
    (b.step P ex reg requests outcomes j).tasks i = b.tasks i := by
  unfold Batch.step
  cases requests[j]? with
  | none => rfl
  | some req => simp [Function.update_of_ne h]

/-- A position without a request has no task to start. -/
theorem Batch.run_of_none {i : ℕ} (hi : requests[i]? = none) (b : Batch) (schedule : List ℕ) :
    (b.run P ex reg requests outcomes schedule).tasks i = b.tasks i := by
  induction schedule generalizing b with
  | nil => rfl
  | cons j schedule ih =>
    change ((b.step P ex reg requests outcomes j).run P ex reg requests outcomes
      schedule).tasks i = _
    rw [ih]
    by_cases h : i = j
    · subst h
      simp [Batch.step, hi]
    · exact Batch.step_of_ne h b

/-- Under a schedule with `n` segments of a task, it has `n` segments less to go. -/
theorem Batch.remaining_run {i : ℕ} {req : ToolCallRequest} (hi : requests[i]? = some req)
    (b : Batch) (schedule : List ℕ) :
    ((b.run P ex reg requests outcomes schedule).tasks i).remaining ex ≤
      (b.tasks i).remaining ex - schedule.count i := by
  induction schedule generalizing b with
  | nil => exact le_rfl
  | cons j schedule ih =>
    have hrest := ih (b.step P ex reg requests outcomes j)
    refine hrest.trans ?_
    by_cases h : i = j
    · -- The segment at the head is one of those counted.
      subst h
      have hadvance : (ex.advance P reg req (outcomes i) (b.tasks i) b.cache).1.remaining ex ≤
          (b.tasks i).remaining ex - 1 := Task.remaining_advance _ _
      rw [Batch.step_self hi, List.count_cons_self]
      omega
    · rw [Batch.step_of_ne h, List.count_cons_of_ne (Ne.symm h)]

variable (ex) in
/-- The finishing schedule has enough segments of each task. -/
theorem ToolExecutor.count_finishing {i : ℕ} (hi : i < requests.length) :
    ex.segments ≤ (ex.finishing requests).count i := by
  obtain ⟨before, after, hrange⟩ := List.append_of_mem (List.mem_range.mpr hi)
  rw [ToolExecutor.finishing, hrange, List.flatMap_append, List.flatMap_cons, List.count_append,
    List.count_append, List.count_replicate_self]
  omega

variable (P ex reg outcomes) in
/-- When the batch returns, every task is done. -/
theorem Batch.tasks_done {i : ℕ} {req : ToolCallRequest} (hi : requests[i]? = some req)
    (cache : Cache) (schedule : List ℕ) :
    ∃ r, ((Batch.start cache).run P ex reg requests outcomes
      (schedule ++ ex.finishing requests)).tasks i = .done r := by
  obtain ⟨hlt, -⟩ := List.getElem?_eq_some_iff.mp hi
  have hcount := ex.count_finishing hlt
  -- A queued task has `segments` to go, and the finishing schedule alone holds that many.
  have hzero : (((Batch.start cache).run P ex reg requests outcomes
      (schedule ++ ex.finishing requests)).tasks i).remaining ex = 0 := by
    have hqueued : ((Batch.start cache).tasks i).remaining ex = ex.segments := rfl
    refine Nat.le_zero.mp ((Batch.remaining_run hi _ _).trans ?_)
    rw [hqueued, List.count_append]
    omega
  exact Task.done_of_remaining hzero

/-- From a batch in which a task follows an execution, it does so after every schedule. -/
theorem Batch.follows_run {i : ℕ} {req : ToolCallRequest} (hi : requests[i]? = some req)
    {E : Execution} {b : Batch} (h : (b.tasks i).Follows P ex req (outcomes i) E)
    (schedule : List ℕ) :
    ((b.run P ex reg requests outcomes schedule).tasks i).Follows P ex req (outcomes i) E := by
  induction schedule generalizing b with
  | nil => exact h
  | cons j schedule ih =>
    refine ih (b := b.step P ex reg requests outcomes j) ?_
    by_cases hij : i = j
    · subst hij
      rw [Batch.step_self hi]
      exact Task.follows_advance h _
    · rw [Batch.step_of_ne hij]
      exact h

/-- A task that is done stays as it is. -/
theorem Batch.done_run {i : ℕ} {req : ToolCallRequest} (hi : requests[i]? = some req)
    {r : Except Exn ExecutionResult} {b : Batch} (h : b.tasks i = .done r) (schedule : List ℕ) :
    (b.run P ex reg requests outcomes schedule).tasks i = .done r := by
  induction schedule generalizing b with
  | nil => exact h
  | cons j schedule ih =>
    refine ih (b := b.step P ex reg requests outcomes j) ?_
    by_cases hij : i = j
    · subst hij
      rw [Batch.step_self hi, h]
      rfl
    · rw [Batch.step_of_ne hij, h]

variable (P ex reg outcomes) in
/-- Under every schedule, a task that has not started is still queued, has the result that it found
in the cache, or follows the execution of its request. -/
theorem Batch.run_cases {i : ℕ} {req : ToolCallRequest} (hi : requests[i]? = some req)
    {b : Batch} (h : b.tasks i = .queued) (schedule : List ℕ) :
    match b.firstLookup P ex reg requests outcomes i schedule with
    | some cached => (b.run P ex reg requests outcomes schedule).tasks i =
        .done (.ok (req.cachedResult cached))
    | none => (b.run P ex reg requests outcomes schedule).tasks i = .queued ∨
        ((b.run P ex reg requests outcomes schedule).tasks i).Follows P ex req (outcomes i)
          (ex.execution P reg req (outcomes i)) := by
  induction schedule generalizing b with
  | nil => exact .inl h
  | cons j schedule ih =>
    rw [Batch.firstLookup]
    by_cases hij : j = i
    · -- The task starts here.
      subst hij
      have hstart :
          (b.step P ex reg requests outcomes j).tasks j = ex.startTask P reg b.cache req := by
        rw [Batch.step_self hi, h]
        rfl
      rw [if_pos rfl, hi, Option.bind_some]
      cases hlookup : ex.lookup P b.cache req with
      | some cached =>
        refine Batch.done_run hi (b := b.step P ex reg requests outcomes j) ?_ schedule
        rw [hstart, ToolExecutor.startTask, hlookup]
      | none =>
        refine .inr (Batch.follows_run hi (b := b.step P ex reg requests outcomes j) ?_ schedule)
        rw [hstart]
        exact Task.follows_startTask hlookup
    · -- Another task's segment leaves it queued, but may fill the cache.
      rw [if_neg hij]
      refine ih (b := b.step P ex reg requests outcomes j) ?_
      rw [Batch.step_of_ne (Ne.symm hij), h]

/-- A parallel batch gives each request the result of its own execution, or the one that it found in
the cache, under every schedule. -/
theorem executeParallel_results (schedule : List ℕ) (cache : Cache) :
    (ex.executeParallel P reg requests outcomes schedule cache).1 =
      requests.mapIdx fun i req =>
        match (Batch.start cache).firstLookup P ex reg requests outcomes i
            (schedule ++ ex.finishing requests) with
        | some cached => req.cachedResult cached
        | none => (ex.execution P reg req (outcomes i)).result P ex req := by
  refine List.mapIdx_eq_mapIdx_iff.mpr fun i hi => ?_
  have hreq : requests[i]? = some requests[i] := List.getElem?_eq_getElem hi
  have hcases := Batch.run_cases P ex reg outcomes hreq (b := Batch.start cache) rfl
    (schedule ++ ex.finishing requests)
  obtain ⟨r, hdone⟩ := Batch.tasks_done P ex reg outcomes hreq cache schedule
  rw [hdone] at hcases ⊢
  cases hlookup : (Batch.start cache).firstLookup P ex reg requests outcomes i
    (schedule ++ ex.finishing requests) with
  | some cached =>
    simp only [hlookup, Task.done.injEq] at hcases ⊢
    rw [hcases]
    rfl
  | none =>
    -- A task that is done is not queued, so that it has the outcome of its execution.
    simp only [hlookup, Task.Follows, reduceCtorEq, false_or] at hcases ⊢
    rw [hcases]
    rfl

end Batch

end YellowBull
