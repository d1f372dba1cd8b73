import YellowBull.Lib.Except
import YellowBull.ToolExecutor.Outcomes

/-!
# What the cache remembers

A `Success` is an attempt whose tool returned a successful `ToolResult`: the segments of a batch
have such successes (`Batch.successes`), and nothing else writes to the cache, so that the cache is
the log of the successes, later ones over earlier ones of the same key (`Batch.cache_run`). Each of
them is what the execution of its request comes to (`Batch.Sound.successes`).

A serial batch has the segments of its tasks one task after another (`serialSegments`), so that what
is shown of a run of segments holds of both modes (`ToolExecutor.executeBatch_collects`).
-/

namespace YellowBull

open Py

/-- An attempt that returned a `ToolResult` that is a success. -/
structure Success where
  req : ToolCallRequest
  tool : Tool
  attempt : ℕ
  returned : ToolResult
  succeeds : returned.success = true

/-- The result of the request. -/
def Success.result (su : Success) : {r : ExecutionResult // r.success = true} :=
  ⟨su.req.resultOf su.attempt su.returned, by
    simp [ExecutionResult.success, ToolCallRequest.resultOf, su.succeeds]⟩

/-- The content of the result is the tool's. -/
@[simp]
theorem Success.result_content (su : Success) : su.result.val.content = su.returned.content := by
  simp [result, ToolCallRequest.resultOf, su.succeeds]

/-- The item of the cache that it leaves. -/
def Success.item (P : Platform) (su : Success) : String × {r : ExecutionResult // r.success} :=
  (su.req.cacheKey P, su.result)

/-- The cache after a log of successes. -/
def ToolExecutor.remember (P : Platform) (ex : ToolExecutor) (cache : Cache) (log : List Success) :
    Cache :=
  if ex.enable_cache then cache.setAll (log.map (Success.item P)) else cache

/-- An empty log leaves the cache as it is. -/
@[simp]
theorem ToolExecutor.remember_nil (P : Platform) (ex : ToolExecutor) (cache : Cache) :
    ex.remember P cache [] = cache := by
  unfold remember
  split <;> rfl

/-- A log in two parts is remembered one part after the other. -/
theorem ToolExecutor.remember_append (P : Platform) (ex : ToolExecutor) (cache : Cache)
    (log log' : List Success) :
    ex.remember P cache (log ++ log') = ex.remember P (ex.remember P cache log) log' := by
  unfold remember
  split
  · rw [List.map_append, OrderedMap.setAll_append]
  · rfl

/-- The result of a request is a success just when the `ToolResult` was. -/
@[simp]
theorem ToolCallRequest.success_resultOf (req : ToolCallRequest) (attempt : ℕ) (r : ToolResult) :
    (req.resultOf attempt r).success = r.success := by
  cases h : r.success <;> simp [ExecutionResult.success, resultOf, h]

/-- What an attempt that returned leaves in the cache. -/
theorem ToolExecutor.store_eq (P : Platform) (ex : ToolExecutor) (cache : Cache)
    (req : ToolCallRequest) (tool : Tool) (attempt : ℕ) (r : ToolResult) :
    ex.store P cache req attempt r =
      ex.remember P cache
        (if h : r.success = true then [⟨req, tool, attempt, r, h⟩] else []) := by
  unfold store
  by_cases hr : r.success = true
  · by_cases hen : ex.enable_cache = true
    · simp [hr, hen, remember, OrderedMap.setAll, Success.item, Success.result]
    · simp [hr, hen, remember]
  · simp [hr]

/-! ## Calls -/

/-- The requests make one call: they have the same tool name, and arguments that are equal up to the
order of keys. -/
def ToolCallRequest.SameCall (req req' : ToolCallRequest) : Prop :=
  req.tool_name = req'.tool_name ∧ req.arguments.canonical = req'.arguments.canonical

instance (req req' : ToolCallRequest) : Decidable (req.SameCall req') :=
  inferInstanceAs (Decidable (_ ∧ _))

/-- Requests of one call have one text that is hashed. -/
theorem ToolCallRequest.SameCall.rawKey_eq {req req' : ToolCallRequest} (h : req.SameCall req')
    (P : Platform) : req.rawKey P = req'.rawKey P := by
  unfold rawKey
  rw [h.1, ← Val.dumps_canonical req.arguments, ← Val.dumps_canonical req'.arguments, h.2]

/-- Requests of one call have one cache key. -/
theorem ToolCallRequest.SameCall.cacheKey_eq {req req' : ToolCallRequest} (h : req.SameCall req')
    (P : Platform) : req.cacheKey P = req'.cacheKey P := by
  unfold cacheKey
  rw [h.rawKey_eq P]

/-! ## The successes of a batch -/

section Batch

variable (P : Platform) (ex : ToolExecutor) (reg : ToolRegistry)
variable (requests : List ToolCallRequest) (outcomes : ℕ → ℕ → Except Exn ToolResult)

/-- The success that a segment of the task at position `i` brings. -/
def Batch.success? (b : Batch) (i : ℕ) : Option Success :=
  match requests[i]?, b.tasks i with
  | some req, .calling tool attempt =>
    match ex.waitFor P tool req.arguments (outcomes i attempt) with
    | .ok r => if h : r.success = true then some ⟨req, tool, attempt, r, h⟩ else none
    | .error _ => none
  | _, _ => none

/-- The successes of the segments of a schedule, in order. -/
def Batch.successes : Batch → List ℕ → List Success
  | _, [] => []
  | b, i :: schedule =>
    (b.success? P ex requests outcomes i).toList ++
      successes (b.step P ex reg requests outcomes i) schedule

variable {P ex reg requests outcomes}

/-- A schedule begins with its first segment. -/
@[simp]
theorem Batch.run_cons (b : Batch) (i : ℕ) (schedule : List ℕ) :
    b.run P ex reg requests outcomes (i :: schedule) =
      (b.step P ex reg requests outcomes i).run P ex reg requests outcomes schedule := rfl

/-- A batch starts with the cache that it finds. -/
@[simp]
theorem Batch.cache_start (cache : Cache) : (Batch.start cache).cache = cache := rfl

/-- A schedule in two parts is run one part after the other. -/
theorem Batch.run_append (b : Batch) (schedule schedule' : List ℕ) :
    b.run P ex reg requests outcomes (schedule ++ schedule') =
      (b.run P ex reg requests outcomes schedule).run P ex reg requests outcomes schedule' :=
  List.foldl_append

/-- A segment writes its success to the cache, and nothing else. -/
theorem Batch.cache_step (b : Batch) (i : ℕ) :
    (b.step P ex reg requests outcomes i).cache =
      ex.remember P b.cache (b.success? P ex requests outcomes i).toList := by
  unfold Batch.step Batch.success?
  cases requests[i]? with
  | none => simp
  | some req =>
    cases b.tasks i with
    | calling tool attempt =>
      simp only [ToolExecutor.advance, ToolExecutor.finishAttempt]
      cases ex.waitFor P tool req.arguments (outcomes i attempt) with
      | ok r =>
        simp only [ex.store_eq P b.cache req tool]
        split <;> rfl
      | error e =>
        cases hlast : ex.lastError P req tool e <;> simp [hlast]
    | _ => simp [ToolExecutor.advance]

/-- The cache after a schedule is what it was, with the successes of the schedule. -/
theorem Batch.cache_run (b : Batch) (schedule : List ℕ) :
    (b.run P ex reg requests outcomes schedule).cache =
      ex.remember P b.cache (b.successes P ex reg requests outcomes schedule) := by
  induction schedule generalizing b with
  | nil => exact (ex.remember_nil P b.cache).symm
  | cons i schedule ih =>
    rw [Batch.run_cons, ih, Batch.cache_step, Batch.successes, ToolExecutor.remember_append]

/-! ## Successes are executions -/

/-- A task at an attempt has the registered tool, and is on the way of its execution. -/
def Task.Sound (P : Platform) (ex : ToolExecutor) (reg : ToolRegistry) (req : ToolCallRequest)
    (outcomes : ℕ → Except Exn ToolResult) (task : Task) : Prop :=
  match task with
  | .queued => True
  | .done _ => True
  | .calling tool _ => reg.get req.tool_name = .ok (some tool) ∧
      task.Follows P ex req outcomes (ex.execution P reg req outcomes)
  | .sleeping tool _ _ => reg.get req.tool_name = .ok (some tool) ∧
      task.Follows P ex req outcomes (ex.execution P reg req outcomes)

/-- A task on the way of its execution, at the head of the retry loop for the registered tool. -/
theorem Task.sound_retryLoop {req : ToolCallRequest} {outcomes : ℕ → Except Exn ToolResult}
    {tool : Tool} {attempt : ℕ} {last_error : String}
    (htool : reg.get req.tool_name = .ok (some tool))
    (h : (ex.retryLoop req tool attempt last_error).Follows P ex req outcomes
      (ex.execution P reg req outcomes)) :
    (ex.retryLoop req tool attempt last_error).Sound P ex reg req outcomes := by
  unfold ToolExecutor.retryLoop at h ⊢
  split_ifs at h ⊢
  · exact ⟨htool, h⟩
  · exact ⟨htool, h⟩
  · trivial

/-- A segment keeps a task sound. -/
theorem Task.sound_advance {req : ToolCallRequest} {outcomes : ℕ → Except Exn ToolResult}
    {task : Task} (h : task.Sound P ex reg req outcomes) (cache : Cache) :
    (ex.advance P reg req outcomes task cache).1.Sound P ex reg req outcomes := by
  cases task with
  | queued =>
    simp only [ToolExecutor.advance]
    -- A hit leaves the task with a result that is not its own execution's.
    cases hlookup : ex.lookup P cache req with
    | some cached =>
      simp only [ToolExecutor.startTask, hlookup]
      trivial
    | none =>
      -- From here on the task does what an execution does without the cache.
      have hfollows : (ex.startTask P reg cache req).Follows P ex req outcomes
          (ex.execution P reg req outcomes) := Task.follows_startTask hlookup
      simp only [ToolExecutor.startTask, hlookup] at hfollows ⊢
      cases hget : reg.get req.tool_name with
      | error e => trivial
      | ok found =>
        cases found with
        | none => trivial
        | some tool =>
          simp only [hget] at hfollows
          exact Task.sound_retryLoop hget hfollows
  | sleeping tool attempt wait_time => exact ⟨h.1, Task.follows_advance h.2 cache⟩
  | done r => trivial
  | calling tool attempt =>
    have hfollows : (ex.advance P reg req outcomes (.calling tool attempt) cache).1.Follows P ex req
        outcomes (ex.execution P reg req outcomes) := Task.follows_advance h.2 cache
    simp only [ToolExecutor.advance, ToolExecutor.finishAttempt] at hfollows ⊢
    cases hinvoke : ex.waitFor P tool req.arguments (outcomes attempt) with
    | ok r => trivial
    | error e =>
      simp only [hinvoke] at hfollows ⊢
      -- An exception that the loop does not catch is raised out of the task.
      cases hlast : ex.lastError P req tool e with
      | none => trivial
      | some last_error =>
        simp only [hlast] at hfollows
        exact Task.sound_retryLoop h.1 hfollows

/-- All tasks of a batch are sound. -/
def Batch.Sound (P : Platform) (ex : ToolExecutor) (reg : ToolRegistry)
    (requests : List ToolCallRequest) (outcomes : ℕ → ℕ → Except Exn ToolResult) (b : Batch) :
    Prop :=
  ∀ i req, requests[i]? = some req → (b.tasks i).Sound P ex reg req (outcomes i)

/-- The tasks of a batch that has not started are sound. -/
theorem Batch.sound_start (cache : Cache) :
    (Batch.start cache).Sound P ex reg requests outcomes :=
  fun _ _ _ => trivial

/-- A segment keeps all tasks sound. -/
theorem Batch.Sound.step {b : Batch} (h : b.Sound P ex reg requests outcomes) (i : ℕ) :
    (b.step P ex reg requests outcomes i).Sound P ex reg requests outcomes := by
  intro j req hj
  by_cases hij : j = i
  · subst hij
    rw [Batch.step_self hj]
    exact Task.sound_advance (h j req hj) b.cache
  · rw [Batch.step_of_ne hij]
    exact h j req hj

/-- So does a schedule. -/
theorem Batch.Sound.run {b : Batch} (h : b.Sound P ex reg requests outcomes)
    (schedule : List ℕ) :
    (b.run P ex reg requests outcomes schedule).Sound P ex reg requests outcomes := by
  induction schedule generalizing b with
  | nil => exact h
  | cons i schedule ih => exact ih (h.step i)

/-- The success of a request is what its execution comes to, with the registered tool. -/
structure Success.IsExecution (P : Platform) (ex : ToolExecutor) (reg : ToolRegistry)
    (outcomes : ℕ → Except Exn ToolResult) (su : Success) : Prop where
  registered : reg.get su.req.tool_name = .ok (some su.tool)
  returned : ex.execution P reg su.req outcomes = .returned su.attempt su.returned

/-- A segment of a sound batch brings only successes that are executions. -/
theorem Batch.Sound.success {b : Batch} (h : b.Sound P ex reg requests outcomes) {i : ℕ}
    {su : Success} (hsu : b.success? P ex requests outcomes i = some su) :
    requests[i]? = some su.req ∧ su.IsExecution P ex reg (outcomes i) := by
  unfold Batch.success? at hsu
  split at hsu
  next req tool attempt hreq htask =>
    split at hsu
    next r hinvoke =>
      split at hsu
      next hr =>
        cases hsu
        have hsound := h i req hreq
        rw [htask] at hsound
        obtain ⟨htool, hlt, hfollows⟩ := hsound
        refine ⟨hreq, htool, ?_⟩
        -- The attempt under way is the next one of the execution, and it returned.
        obtain ⟨n, hn⟩ : ∃ n, (ex.max_retries + 1 - attempt).toNat = n + 1 :=
          ⟨(ex.max_retries - attempt).toNat, by omega⟩
        rw [← hfollows "", hn, ToolExecutor.attemptsFrom]
        simp only [hinvoke]
      next => cases hsu
    next => cases hsu
  next => cases hsu

/-- So do the segments of a schedule, each of them the successes of the requests that it has. -/
theorem Batch.Sound.successes {b : Batch} (h : b.Sound P ex reg requests outcomes)
    {schedule : List ℕ} {su : Success}
    (hsu : su ∈ b.successes P ex reg requests outcomes schedule) :
    ∃ i ∈ schedule, requests[i]? = some su.req ∧ su.IsExecution P ex reg (outcomes i) := by
  induction schedule generalizing b with
  | nil => cases hsu
  | cons i schedule ih =>
    rw [Batch.successes, List.mem_append, Option.mem_toList] at hsu
    rcases hsu with hsu | hsu
    · exact ⟨i, List.mem_cons_self .., h.success hsu⟩
    · obtain ⟨j, hj, hexec⟩ := ih (h.step i) hsu
      exact ⟨j, List.mem_cons_of_mem i hj, hexec⟩

/-! ## The segments of both modes -/

/-- The positions other than `i` are left alone by the segments of its task. -/
theorem Batch.run_replicate {i : ℕ} {req : ToolCallRequest} (hi : requests[i]? = some req)
    (n : ℕ) (b : Batch) :
    b.run P ex reg requests outcomes (List.replicate n i) =
      ⟨Function.update b.tasks i
          (ex.runTask P reg req (outcomes i) n (b.tasks i) b.cache).1,
        (ex.runTask P reg req (outcomes i) n (b.tasks i) b.cache).2⟩ := by
  induction n generalizing b with
  | zero =>
    show b = ⟨Function.update b.tasks i (b.tasks i), b.cache⟩
    rw [Function.update_eq_self]
  | succ n ih =>
    have hstep : b.step P ex reg requests outcomes i =
        ⟨Function.update b.tasks i (ex.advance P reg req (outcomes i) (b.tasks i) b.cache).1,
          (ex.advance P reg req (outcomes i) (b.tasks i) b.cache).2⟩ := by
      simp [Batch.step, hi]
    rw [List.replicate_succ, Batch.run_cons, ih, hstep, ToolExecutor.runTask]
    simp only [Function.update_self, Function.update_idem]

/-- The batch `b₁` after all segments of the task at position `i`, which comes to `t`. -/
structure Batch.Finishes (P : Platform) (ex : ToolExecutor) (reg : ToolRegistry)
    (requests : List ToolCallRequest) (outcomes : ℕ → ℕ → Except Exn ToolResult) (b : Batch)
    (i : ℕ) (req : ToolCallRequest) (t : Except Exn ExecutionResult) (b₁ : Batch) : Prop where
  run : b.run P ex reg requests outcomes (List.replicate ex.segments i) = b₁
  runTask : ex.runTask P reg req (outcomes i) ex.segments .queued b.cache = (.done t, b₁.cache)
  done : b₁.tasks i = .done t
  others : ∀ j, j ≠ i → b₁.tasks j = b.tasks j

/-- A queued task with all its segments: it is done, and the others are left alone. -/
theorem Batch.run_segments {i : ℕ} {req : ToolCallRequest} (hi : requests[i]? = some req)
    {b : Batch} (hqueued : b.tasks i = .queued) :
    ∃ t b₁, b.Finishes P ex reg requests outcomes i req t b₁ := by
  have hle :=
    calc ((b.run P ex reg requests outcomes (List.replicate ex.segments i)).tasks i).remaining ex
        ≤ (b.tasks i).remaining ex - (List.replicate ex.segments i).count i :=
          Batch.remaining_run hi b _
      _ = ex.segments - ex.segments := by rw [hqueued, List.count_replicate_self]; rfl
      _ = 0 := Nat.sub_self _
  obtain ⟨t, ht⟩ := Task.done_of_remaining (Nat.le_zero.mp hle)
  rw [Batch.run_replicate hi] at ht
  simp only [hqueued, Function.update_self] at ht
  refine ⟨t, _, Batch.run_replicate hi _ _, ?_, ?_, fun j hj => Function.update_of_ne hj ..⟩
  · rw [hqueued, ← ht]
  · simp [hqueued, ht]

/-- The requests `rest` of a batch, from position `i` on, are still to be started. -/
structure Batch.Pending (requests : List ToolCallRequest) (i : ℕ) (rest : List ToolCallRequest)
    (b : Batch) : Prop where
  requested : ∀ k req, rest[k]? = some req → requests[i + k]? = some req
  queued : ∀ j, i ≤ j → b.tasks j = .queued

/-- Before the first segment, all requests are pending. -/
theorem Batch.pending_start (requests : List ToolCallRequest) (cache : Cache) :
    (Batch.start cache).Pending requests 0 requests where
  requested k req hk := by rwa [Nat.zero_add]
  queued _ _ := rfl

/-- The first of the pending requests, to its end: the later ones are pending still. -/
theorem Batch.Pending.first {i : ℕ} {req : ToolCallRequest} {rest : List ToolCallRequest}
    {b : Batch} (h : b.Pending requests i (req :: rest)) :
    requests[i]? = some req ∧ ∃ t b₁, b.Finishes P ex reg requests outcomes i req t b₁ ∧
      b₁.Pending requests (i + 1) rest := by
  have hi : requests[i]? = some req := h.requested 0 req rfl
  obtain ⟨t, b₁, hfinishes⟩ : ∃ t b₁, b.Finishes P ex reg requests outcomes i req t b₁ :=
    Batch.run_segments hi (h.queued i (Nat.le_refl i))
  refine ⟨hi, t, b₁, hfinishes, fun k req' hk => ?_, fun j hj => ?_⟩
  · rw [Nat.add_right_comm]
    exact h.requested (k + 1) req' hk
  · rw [hfinishes.others j (by omega), h.queued j (by omega)]

variable (P ex reg outcomes) in
/-- The segments of the serial branch, for the requests from position `i` on: each task to its end,
and no further than the first that raises. -/
def ToolExecutor.serialSegments : ℕ → List ToolCallRequest → Cache → List ℕ
  | _, [], _ => []
  | i, req :: rest, cache =>
    List.replicate ex.segments i ++
      match ex.runTask P reg req (outcomes i) ex.segments .queued cache with
      | (.done (.error _), _) => []
      | (_, cache) => serialSegments (i + 1) rest cache

variable (P ex reg requests outcomes) in
/-- The segments of a batch. -/
def ToolExecutor.batchSegments (schedule : List ℕ) (cache : Cache) : List ℕ :=
  if ex.parallel then schedule ++ ex.finishing requests
  else ex.serialSegments P reg outcomes 0 requests cache

variable (P ex reg requests outcomes) in
/-- What `execute_batch` has of the tasks that its segments leave behind. -/
structure ToolExecutor.Collects (i : ℕ) (rest : List ToolCallRequest)
    (out : Except Exn (List ExecutionResult) × Cache) (b : Batch) : Prop where
  cache : out.2 = b.cache
  ok : ∀ rs, out.1 = .ok rs → rs = rest.mapIdx (fun k req => req.gathered (b.tasks (i + k))) ∧
    ∀ k < rest.length, ∃ t, b.tasks (i + k) = .done t
  error : ∀ e, out.1 = .error e → ∃ k < rest.length, b.tasks (i + k) = .done (.error e)

/-- The serial branch, from a batch whose tasks from position `i` on are queued. -/
theorem ToolExecutor.executeSerial_collects {rest : List ToolCallRequest} {i : ℕ} {b : Batch}
    (hpending : b.Pending requests i rest) :
    (∀ j < i, (b.run P ex reg requests outcomes
        (ex.serialSegments P reg outcomes i rest b.cache)).tasks j = b.tasks j) ∧
      ToolExecutor.Collects i rest (ex.executeSerial P reg outcomes i rest b.cache)
        (b.run P ex reg requests outcomes
          (ex.serialSegments P reg outcomes i rest b.cache)) := by
  induction rest generalizing i b with
  | nil =>
    refine ⟨fun j hj => rfl, rfl, fun rs hrs => ?_, fun e he => ?_⟩
    · cases hrs
      exact ⟨rfl, fun k hk => absurd hk (Nat.not_lt_zero k)⟩
    · cases he
  | cons req rest ih =>
    obtain ⟨-, t, b₁, ⟨hb₁, hT, htask, hothers⟩, hpending₁⟩ :
        requests[i]? = some req ∧ ∃ t b₁, b.Finishes P ex reg requests outcomes i req t b₁ ∧
          b₁.Pending requests (i + 1) rest :=
      hpending.first
    cases t with
    | error e =>
      simp only [ToolExecutor.serialSegments, ToolExecutor.executeSerial, hT, List.append_nil, hb₁]
      refine ⟨fun j hj => hothers j (Nat.ne_of_lt hj), rfl, fun rs hrs => ?_, fun e' he => ?_⟩
      · cases hrs
      · cases he
        exact ⟨0, Nat.zero_lt_succ _, htask⟩
    | ok r =>
      simp only [ToolExecutor.serialSegments, ToolExecutor.executeSerial, hT, Batch.run_append,
        hb₁]
      obtain ⟨hbefore, hcache, hok, herror⟩ := ih hpending₁
      -- The later tasks leave the first one as it is.
      have hfirst := (hbefore i (Nat.lt_succ_self i)).trans htask
      generalize b₁.run P ex reg requests outcomes
        (ex.serialSegments P reg outcomes (i + 1) rest b₁.cache) = b₂ at *
      refine ⟨fun j hj => ?_, hcache, fun rs hrs => ?_, fun e he => ?_⟩
      · rw [hbefore j (by omega), hothers j (by omega)]
      · obtain ⟨rs', hserial, rfl⟩ := Except.map_eq_ok.mp hrs
        obtain ⟨rfl, hdone⟩ := hok rs' hserial
        constructor
        · have hshift : ∀ k, i + 1 + k = i + (k + 1) := fun k => by omega
          simp only [List.mapIdx_cons, Nat.add_zero, hfirst, hshift]
        · intro k hk
          cases k with
          | zero => exact ⟨_, hfirst⟩
          | succ k =>
            rw [show i + (k + 1) = i + 1 + k by omega]
            exact hdone k (Nat.lt_of_succ_lt_succ hk)
      · obtain ⟨k, hk, hraised⟩ := herror e (Except.map_eq_error.mp he)
        refine ⟨k + 1, Nat.succ_lt_succ hk, ?_⟩
        rw [show i + (k + 1) = i + 1 + k by omega]
        exact hraised

variable (P ex reg outcomes) in
/-- The batch in both modes is a run of its segments. -/
theorem ToolExecutor.executeBatch_collects (schedule : List ℕ) (cache : Cache) :
    ToolExecutor.Collects 0 requests
      (ex.executeBatch P reg requests outcomes schedule cache)
      ((Batch.start cache).run P ex reg requests outcomes
        (ex.batchSegments P reg requests outcomes schedule cache)) := by
  unfold ToolExecutor.executeBatch ToolExecutor.batchSegments
  by_cases hparallel : ex.parallel = true
  · rw [if_pos hparallel, if_pos hparallel]
    refine ⟨rfl, fun rs hrs => ⟨?_, fun k hk => ?_⟩, fun e he => nomatch he⟩
    · simp only [Nat.zero_add]
      exact (Except.ok.inj hrs).symm
    · rw [Nat.zero_add]
      exact Batch.tasks_done P ex reg outcomes (List.getElem?_eq_getElem hk) cache schedule
  · rw [if_neg hparallel, if_neg hparallel]
    exact (ToolExecutor.executeSerial_collects (Batch.pending_start requests cache)).2

/-- What a task first finds in the cache, it finds there at a moment before its first segment. -/
theorem Batch.firstLookup_some {i : ℕ} {req : ToolCallRequest} (hi : requests[i]? = some req)
    {b : Batch} {schedule : List ℕ} {cached : ExecutionResult}
    (h : b.firstLookup P ex reg requests outcomes i schedule = some cached) :
    ∃ pre, pre <+: schedule ∧
      ex.lookup P (b.run P ex reg requests outcomes pre).cache req = some cached := by
  induction schedule generalizing b with
  | nil => cases h
  | cons j schedule ih =>
    rw [Batch.firstLookup] at h
    by_cases hj : j = i
    · rw [if_pos hj, hi, Option.bind_some] at h
      exact ⟨[], List.nil_prefix, h⟩
    · rw [if_neg hj] at h
      obtain ⟨pre, hpre, hlookup⟩ := ih h
      exact ⟨j :: pre, List.cons_prefix_cons.mpr ⟨rfl, hpre⟩, hlookup⟩

/-- What a task of a batch came to, in both modes. -/
theorem ToolExecutor.outcome_of_done {i : ℕ} {req : ToolCallRequest}
    (hi : requests[i]? = some req) {cache : Cache} {segments : List ℕ}
    {t : Except Exn ExecutionResult}
    (ht : ((Batch.start cache).run P ex reg requests outcomes segments).tasks i = .done t) :
    t = match (Batch.start cache).firstLookup P ex reg requests outcomes i segments with
      | some cached => .ok (req.cachedResult cached)
      | none => (ex.execution P reg req (outcomes i)).outcome P ex req := by
  have hcases := Batch.run_cases P ex reg outcomes hi (b := Batch.start cache) rfl segments
  rw [ht] at hcases
  cases hlookup : (Batch.start cache).firstLookup P ex reg requests outcomes i segments with
  | some cached =>
    simp only [hlookup] at hcases
    exact Task.done.inj hcases
  | none =>
    -- A task that is done is not queued, so that it has the outcome of its execution.
    simp only [hlookup, Task.Follows, reduceCtorEq, false_or] at hcases
    exact hcases

/-- A batch that does not raise has for each request the result that it found in the cache, or that
of its own execution. -/
theorem ToolExecutor.executeBatch_result {schedule : List ℕ} {cache : Cache}
    {rs : List ExecutionResult}
    (hrs : (ex.executeBatch P reg requests outcomes schedule cache).1 = .ok rs) {i : ℕ}
    {req : ToolCallRequest} (hi : requests[i]? = some req) :
    rs[i]? = some (match (Batch.start cache).firstLookup P ex reg requests outcomes i
        (ex.batchSegments P reg requests outcomes schedule cache) with
      | some cached => req.cachedResult cached
      | none => (ex.execution P reg req (outcomes i)).result P ex req) := by
  obtain ⟨rfl, hdone⟩ :=
    (ToolExecutor.executeBatch_collects P ex reg outcomes schedule cache).ok rs hrs
  obtain ⟨t, ht⟩ := hdone i (List.getElem?_eq_some_iff.mp hi).1
  rw [Nat.zero_add] at ht
  rw [List.getElem?_mapIdx, hi, Option.map_some, Nat.zero_add, ht,
    ToolExecutor.outcome_of_done hi ht]
  split <;> rfl

end Batch

/-! ## Lookups -/

section Lookup

variable {P : Platform} {ex : ToolExecutor} {log : List Success} {req : ToolCallRequest}

/-- What is found in a cache that remembers a log is the result of a success with that key, and
caching is on. -/
theorem ToolExecutor.lookup_some {cached : ExecutionResult}
    (h : ex.lookup P (ex.remember P .empty log) req = some cached) :
    ex.enable_cache = true ∧
      ∃ su ∈ log, su.req.cacheKey P = req.cacheKey P ∧ cached = su.result.val := by
  unfold lookup remember at h
  by_cases hen : ex.enable_cache = true
  · rw [if_pos hen, if_pos hen, Option.map_eq_some_iff] at h
    obtain ⟨r, hget, rfl⟩ := h
    rcases OrderedMap.get?_setAll_some hget with hmem | hempty
    · obtain ⟨su, hsu, heq⟩ := List.mem_map.mp hmem
      obtain ⟨hkey, rfl⟩ := Prod.mk.inj heq
      exact ⟨hen, su, hsu, hkey, rfl⟩
    · cases hempty
  · rw [if_neg hen] at h
    cases h

/-- Nothing is found just when caching is off or no success has the key. -/
theorem ToolExecutor.lookup_none :
    ex.lookup P (ex.remember P .empty log) req = none ↔
      (ex.enable_cache = true → ∀ su ∈ log, su.req.cacheKey P ≠ req.cacheKey P) := by
  unfold lookup remember
  by_cases hen : ex.enable_cache = true
  · rw [if_pos hen, if_pos hen, Option.map_eq_none_iff, OrderedMap.get?_setAll_none]
    simp [hen, Success.item]
  · simp [hen]

end Lookup

end YellowBull
