import YellowBull.Lib.Machine
import YellowBull.ToolExecutor.Cache

/-!
# Runs of the executor

`State` is an executor over whole runs: its registry, its cache, and the log of the successes since
the last `clear_cache`, which the program does not keep. The cache is what it remembers of the log
(`cache_stateAfter`), so that at each moment of a batch a request finds a result exactly if the log
has a success with its cache key.
-/

namespace YellowBull

open Py

/-- One call of a tool's `execute`. -/
structure Invocation where
  tool : Tool
  arguments : Dict
  attempt : ℕ
  deriving DecidableEq

section Invocations

variable (P : Platform) (ex : ToolExecutor) (reg : ToolRegistry)
variable (requests : List ToolCallRequest) (outcomes : ℕ → ℕ → Except Exn ToolResult)

/-- The call of `execute` that a segment of the task at position `i` ends. An attempt whose limit
leaves it no time makes none. -/
def Batch.invocation? (b : Batch) (i : ℕ) : Option Invocation :=
  match requests[i]?, b.tasks i with
  | some ⟨_, .dict arguments⟩, .calling tool attempt =>
    if ex.startsCall P tool then some ⟨tool, arguments, attempt⟩ else none
  | _, _ => none

/-- The calls of `execute` in the segments of a schedule, in order. -/
def Batch.invocations : Batch → List ℕ → List Invocation
  | _, [] => []
  | b, i :: schedule =>
    (b.invocation? P ex requests i).toList ++
      invocations (b.step P ex reg requests outcomes i) schedule

end Invocations

namespace ToolExecutor

/-- An executor with its registry. -/
structure State where
  registry : ToolRegistry
  cache : Cache := .empty
  /-- The successes since the last `clear_cache`, which the program does not keep. -/
  log : List Success := []

/-- What is done to an executor and its registry, one operation after another. -/
inductive Op where
  | registry (op : ToolRegistry.Op)
  /-- `execute_batch(requests)`, with what the tools come back with, and the schedule of a parallel
  batch. -/
  | batch (requests : List ToolCallRequest) (outcomes : ℕ → ℕ → Except Exn ToolResult)
    (schedule : List ℕ)
  /-- `clear_cache()`. -/
  | clearCache

/-- The requests of an operation. -/
def Op.requests : Op → List ToolCallRequest
  | .batch requests _ _ => requests
  | _ => []

variable (P : Platform) (ex : ToolExecutor)

/-- An operation: the state, and what comes back, with the calls of `execute` on the way. -/
def step (s : State) : Op → State × Except Exn (List ExecutionResult) × List Invocation
  | .registry op => ({ s with registry := (s.registry.step op).1 }, .ok [], [])
  | .batch requests outcomes schedule =>
    let segments := ex.batchSegments P s.registry requests outcomes schedule s.cache
    let out := ex.executeBatch P s.registry requests outcomes schedule s.cache
    let start := Batch.start s.cache
    ({ s with
        cache := out.2
        log := s.log ++ start.successes P ex s.registry requests outcomes segments },
      out.1, start.invocations P ex s.registry requests outcomes segments)
  | .clearCache => ({ s with cache := .empty, log := [] }, .ok [], [])

/-- The state after a run that begins with an empty cache. -/
def stateAfter (reg : ToolRegistry) (ops : List Op) : State :=
  Machine.state (ex.step P) { registry := reg } ops

/-- The log at a moment of a batch, when the segments of `pre` are over. -/
def State.logAt (s : State) (requests : List ToolCallRequest)
    (outcomes : ℕ → ℕ → Except Exn ToolResult) (pre : List ℕ) : List Success :=
  s.log ++ (Batch.start s.cache).successes P ex s.registry requests outcomes pre

/-- The batch at a moment, when the segments of `pre` are over. -/
def State.batchAt (s : State) (requests : List ToolCallRequest)
    (outcomes : ℕ → ℕ → Except Exn ToolResult) (pre : List ℕ) : Batch :=
  (Batch.start s.cache).run P ex s.registry requests outcomes pre

/-- `_execute_single` from a miss in the cache up to its next await: the registry, and the first
attempt. -/
def missed (reg : ToolRegistry) (req : ToolCallRequest) : Task :=
  match reg.get req.tool_name with
  | .error e => .done (.error e)
  | .ok none => .done (.ok (req.unknownTool P))
  | .ok (some tool) => ex.retryLoop req tool 0 ""

variable {P ex}

/-- A moment of a batch and what comes after it. -/
theorem State.batchAt_append (s : State) (requests : List ToolCallRequest)
    (outcomes : ℕ → ℕ → Except Exn ToolResult) (pre rest : List ℕ) :
    s.batchAt P ex requests outcomes (pre ++ rest) =
      (s.batchAt P ex requests outcomes pre).run P ex s.registry requests outcomes rest :=
  Batch.run_append _ pre rest

/-- An operation that finds in the cache what the executor remembers of the log leaves it so. -/
theorem cache_step {s : State} (hs : s.cache = ex.remember P .empty s.log) (op : Op) :
    (ex.step P s op).1.cache = ex.remember P .empty (ex.step P s op).1.log := by
  cases op with
  | registry op => exact hs
  | batch requests outcomes schedule =>
    show (ex.executeBatch P s.registry requests outcomes schedule s.cache).2 = _
    rw [(ex.executeBatch_collects P s.registry outcomes schedule s.cache).cache, Batch.cache_run]
    show ex.remember P s.cache _ = ex.remember P .empty (s.log ++ _)
    rw [remember_append, ← hs]
  | clearCache => exact (ex.remember_nil P .empty).symm

/-- The cache is what the executor remembers of the log. -/
theorem cache_stateAfter (reg : ToolRegistry) (ops : List Op) :
    (ex.stateAfter P reg ops).cache = ex.remember P .empty (ex.stateAfter P reg ops).log :=
  Machine.state_invariant (fun s : State => s.cache = ex.remember P .empty s.log)
    (fun _ op hs => cache_step hs op) (ex.remember_nil P .empty).symm ops

/-- The cache at a moment of a batch, too. -/
theorem cache_batchAt {s : State} (hs : s.cache = ex.remember P .empty s.log)
    (requests : List ToolCallRequest) (outcomes : ℕ → ℕ → Except Exn ToolResult)
    (pre : List ℕ) :
    (s.batchAt P ex requests outcomes pre).cache =
      ex.remember P .empty (s.logAt P ex requests outcomes pre) := by
  rw [State.batchAt, Batch.cache_run, State.logAt, remember_append, ← hs]
  rfl

/-- The successes of a batch are executions of its requests. -/
theorem execution_of_mem_successes {s : State} {requests : List ToolCallRequest}
    {outcomes : ℕ → ℕ → Except Exn ToolResult} {pre : List ℕ} {su : Success}
    (hsu : su ∈ (Batch.start s.cache).successes P ex s.registry requests outcomes pre) :
    ∃ i, requests[i]? = some su.req ∧ su.IsExecution P ex s.registry (outcomes i) := by
  obtain ⟨i, -, hexec⟩ := (Batch.sound_start s.cache).successes hsu
  exact ⟨i, hexec⟩

/-- The log has successes of requests that were made. -/
theorem requested_of_mem_log {s : State} {ops : List Op} {su : Success}
    (hsu : su ∈ (Machine.state (ex.step P) s ops).log) :
    su ∈ s.log ∨ su.req ∈ ops.flatMap Op.requests := by
  induction ops generalizing s with
  | nil => exact Or.inl hsu
  | cons op ops ih =>
    rw [List.flatMap_cons, List.mem_append]
    rcases ih hsu with hmem | hmem
    · cases op with
      | registry op => exact Or.inl hmem
      | batch requests outcomes schedule =>
        rcases List.mem_append.mp hmem with hold | hnew
        · exact Or.inl hold
        · obtain ⟨i, hi, -⟩ := execution_of_mem_successes hnew
          exact Or.inr (Or.inl (List.mem_of_getElem? hi))
      | clearCache => cases hmem
    · exact Or.inr (Or.inr hmem)

/-- The log has successes of requests that were made, at a moment of a batch too. -/
theorem requested_of_mem_logAt {reg : ToolRegistry} {ops : List Op}
    {requests : List ToolCallRequest} {outcomes : ℕ → ℕ → Except Exn ToolResult} {pre : List ℕ}
    {su : Success} (hsu : su ∈ (ex.stateAfter P reg ops).logAt P ex requests outcomes pre) :
    su.req ∈ ops.flatMap Op.requests ++ requests := by
  rw [List.mem_append]
  rcases List.mem_append.mp hsu with hold | hnew
  · rcases requested_of_mem_log hold with hinit | hmem
    · cases hinit
    · exact Or.inl hmem
  · obtain ⟨i, hi, -⟩ := execution_of_mem_successes hnew
    exact Or.inr (List.mem_of_getElem? hi)

/-- The first segment of a task: it has the cached result of a success with its key, if the log has
one and caching is on, and else it goes on to the registry. -/
theorem tasks_start {s : State} (hs : s.cache = ex.remember P .empty s.log)
    {requests : List ToolCallRequest} {outcomes : ℕ → ℕ → Except Exn ToolResult}
    {pre : List ℕ} {i : ℕ} {req : ToolCallRequest} (hi : requests[i]? = some req)
    (hqueued : (s.batchAt P ex requests outcomes pre).tasks i = .queued) :
    (ex.enable_cache = true ∧ ∃ su ∈ s.logAt P ex requests outcomes pre,
        su.req.cacheKey P = req.cacheKey P ∧
        (s.batchAt P ex requests outcomes (pre ++ [i])).tasks i =
          .done (.ok (req.cachedResult su.result))) ∨
      ((ex.enable_cache = true → ∀ su ∈ s.logAt P ex requests outcomes pre,
          su.req.cacheKey P ≠ req.cacheKey P) ∧
        (s.batchAt P ex requests outcomes (pre ++ [i])).tasks i = ex.missed P s.registry req) := by
  -- The segment is the task's start, which reads the cache as the log has filled it.
  have hstart : (s.batchAt P ex requests outcomes (pre ++ [i])).tasks i =
      ex.startTask P s.registry (s.batchAt P ex requests outcomes pre).cache req := by
    rw [State.batchAt_append]
    show ((s.batchAt P ex requests outcomes pre).step P ex s.registry requests outcomes i).tasks i
      = _
    rw [Batch.step_self hi, hqueued]
    rfl
  rw [hstart, cache_batchAt hs]
  unfold startTask
  -- A hit is one of the logged successes under this key; a miss says that there is none.
  cases hlookup : ex.lookup P (ex.remember P .empty (s.logAt P ex requests outcomes pre)) req with
  | some cached =>
    obtain ⟨hen, su, hsu, hkey, rfl⟩ := lookup_some hlookup
    exact Or.inl ⟨hen, su, hsu, hkey, rfl⟩
  | none => exact Or.inr ⟨lookup_none.mp hlookup, rfl⟩

/-! ## Runs of one tool -/

/-- A tool without arguments. -/
def read : Tool := { info := ⟨"read", "", []⟩ }

/-- A request for it. -/
def readRequest : ToolCallRequest := { tool_name := .str "read" }

/-- An executor with a cache. -/
def caching : ToolExecutor where
  default_timeout := .int 30
  max_retries := 0
  backoff_factor := 1
  parallel := true
  enable_cache := true

/-- A batch of one request, for which the tool returns a success. -/
def readBatch : Op := .batch [readRequest] (fun _ _ => .ok { content := "one" }) []

/-- The result of that request when it is answered from the cache. -/
def cachedRead : ExecutionResult :=
  { tool_name := .str "read", status := .success, content := "one" }

end ToolExecutor

end YellowBull
