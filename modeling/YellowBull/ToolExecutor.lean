import Mathlib.Algebra.Field.Rat
import YellowBull.Registry

/-!
# The tool executor

`ToolExecutor` of `core/tool_executor.py`. One call of `_execute_single` is a `Task`, which runs
from one of its awaits to the next; `advance` is one such segment. A batch interleaves the segments
of its tasks, which share the cache. In parallel mode the order of the segments is an input, the
schedule, after which every task that is not done runs to its end; so the schedules cover exactly
the interleavings. In serial mode the tasks run one after another.

What the awaited `execute` of a tool comes back with is an input too: for each request of the batch
and each attempt, a `ToolResult` or an exception, where a timeout of `asyncio.wait_for` is the
exception `TimeoutError`. A limit that is not positive is over before the call has started
(`ToolExecutor.waitFor`). The registry does not change during a batch. Durations, which are only
logged, are left out.

Three things are taken as given here. The tools leave the lists and dicts inside their arguments as
they are: the executor hands them out by reference, and computes `cache_key` once more after the
call. The key can be computed; `KeyErrors.lean` is about the executor where that may raise. And the
powers of the backoff factor are exact, where Python raises an `OverflowError` for one beyond the
range of floats.
-/

namespace YellowBull

open Py

/-- `ExecutionStatus`. -/
inductive ExecutionStatus where
  | success
  | failed
  | timeout
  | retryExhausted
  deriving DecidableEq

/-- `ToolCallRequest`. The agent passes on whatever the decoded tool call holds, so that the name
need not be a string and the arguments need not be a dict. -/
structure ToolCallRequest where
  tool_name : Val
  arguments : Val := .dict []
  deriving DecidableEq

/-- The text that `ToolCallRequest.cache_key` hashes, of a request on which `json.dumps` does not
raise. -/
def ToolCallRequest.rawKey (P : Platform) (req : ToolCallRequest) : String :=
  P.fmt req.tool_name ++ ":" ++ req.arguments.dumps true

/-- `ToolCallRequest.cache_key`, of a request whose text can be encoded too. What may be raised is
in `ToolCallRequest.keyError`. -/
def ToolCallRequest.cacheKey (P : Platform) (req : ToolCallRequest) : String :=
  String.ofList ((P.sha256 (req.rawKey P)).toList.take 16)

/-- `ExecutionResult`. -/
structure ExecutionResult where
  tool_name : Val
  status : ExecutionStatus
  content : String := ""
  error : String := ""
  retry_count : ℕ := 0
  deriving DecidableEq

/-- `ExecutionResult.success`. -/
def ExecutionResult.success (r : ExecutionResult) : Bool := r.status = .success

/-- `ToolExecutor._cache`. Only successful results are ever stored in it. -/
abbrev Cache := OrderedMap String {r : ExecutionResult // r.success = true}

/-- What a `ToolExecutor` is configured with. -/
structure ToolExecutor where
  default_timeout : Val
  max_retries : ℤ
  backoff_factor : ℚ
  parallel : Bool
  enable_cache : Bool

/-- One call of `_execute_single`, at one of its awaits or at its end. -/
inductive Task where
  /-- Created by `gather`, not started. -/
  | queued
  /-- Awaits `wait_for(_invoke_tool(..))` for the attempt. -/
  | calling (tool : Tool) (attempt : ℕ)
  /-- Awaits `asyncio.sleep` before the attempt. -/
  | sleeping (tool : Tool) (attempt : ℕ) (wait_time : ℚ)
  /-- Returned a result or raised. -/
  | done (r : Except Exn ExecutionResult)
  deriving DecidableEq

section Single

variable (P : Platform) (ex : ToolExecutor) (reg : ToolRegistry)

/-- `getattr(tool, "timeout", None) or self._default_timeout`. -/
def ToolExecutor.effectiveTimeout (tool : Tool) : Val :=
  if tool.timeout.truthy then tool.timeout else ex.default_timeout

/-- The limit that `asyncio.wait_for` reads from its `timeout`, none for no limit. The comparison of
a value that is no number raises. -/
def waitLimit (seconds : String → Option ℚ) : Val → Except Exn (Option ℚ)
  | .none => .ok none
  | .int n => .ok (some n)
  | .bool b => .ok (some b.toNat)
  | .float r => .ok (seconds r)
  | v => .error ⟨.typeError,
      "'<=' not supported between instances of '" ++ v.typeName ++ "' and 'int'"⟩

/-- `wait_for` with this limit does not even start what it awaits. -/
def startsNothing : Option ℚ → Bool
  | none => false
  | some limit => limit ≤ 0

/-- `_invoke_tool`, where `attempt` is what the tool's `execute` comes back with. Unpacking
arguments that are not a mapping raises before `execute` is entered. -/
def invokeTool (tool : Tool) (arguments : Val) (attempt : Except Exn ToolResult) :
    Except Exn ToolResult :=
  match arguments with
  | .dict _ => attempt
  | v => .error ⟨.typeError,
      tool.execute_name ++ "() argument after ** must be a mapping, not " ++ v.typeName⟩

/-- `wait_for(self._invoke_tool(tool, arguments), timeout)`. -/
def ToolExecutor.waitFor (tool : Tool) (arguments : Val) (attempt : Except Exn ToolResult) :
    Except Exn ToolResult :=
  match waitLimit P.seconds (ex.effectiveTimeout tool) with
  | .error e => .error e
  | .ok limit =>
    if startsNothing limit then .error ⟨.timeoutError, ""⟩ else invokeTool tool arguments attempt

/-- It starts the call of the tool: its limit is none, or a number above zero. -/
def ToolExecutor.startsCall (tool : Tool) : Bool :=
  match waitLimit P.seconds (ex.effectiveTimeout tool) with
  | .error _ => false
  | .ok limit => !startsNothing limit

/-- The result of a request whose tool returned `r` on the attempt. -/
def ToolCallRequest.resultOf (req : ToolCallRequest) (attempt : ℕ) (r : ToolResult) :
    ExecutionResult where
  tool_name := req.tool_name
  status := if r.success then .success else .failed
  content := if r.success then r.content else ""
  error := if r.success then "" else if r.error ≠ "" then r.error else "Unknown error"
  retry_count := attempt

/-- The result of a request that is answered from the cache. -/
def ToolCallRequest.cachedResult (req : ToolCallRequest) (cached : ExecutionResult) :
    ExecutionResult where
  tool_name := req.tool_name
  status := cached.status
  content := cached.content
  error := cached.error

/-- The result of a request whose tool is not registered. -/
def ToolCallRequest.unknownTool (req : ToolCallRequest) : ExecutionResult where
  tool_name := req.tool_name
  status := .failed
  error := "Unknown tool: " ++ P.fmt req.tool_name

/-- The result of a request whose attempts are used up. -/
def ToolExecutor.exhausted (req : ToolCallRequest) (last_error : String) : ExecutionResult where
  tool_name := req.tool_name
  status := if 0 < ex.max_retries then .retryExhausted else .failed
  error := "Failed after " ++ toString ex.max_retries ++ " retries: " ++ last_error

/-- The result that `execute_batch` puts in the place of an exception. -/
def ToolCallRequest.unexpectedError (req : ToolCallRequest) (e : Exn) : ExecutionResult where
  tool_name := req.tool_name
  status := .failed
  error := "Unexpected error: " ++ e.text

/-- The `except` clauses of the retry loop: the `last_error` that they set, none for an exception
that they let through. -/
def ToolExecutor.lastError (req : ToolCallRequest) (tool : Tool) (e : Exn) : Option String :=
  match e.cls with
  | .timeoutError => some ("Tool '" ++ P.fmt req.tool_name ++ "' timed out after " ++
      P.fmt (ex.effectiveTimeout tool) ++ "s")
  -- A `BaseException`, which `except Exception` does not catch.
  | .cancelledError => none
  | _ => some e.text

/-- The head of the retry loop, at the attempt of that number: it sleeps before every attempt but
the first, and returns when `range(max_retries + 1)` is used up. -/
def ToolExecutor.retryLoop (req : ToolCallRequest) (tool : Tool) (attempt : ℕ)
    (last_error : String) : Task :=
  if (attempt : ℤ) < ex.max_retries + 1 then
    if 0 < attempt then .sleeping tool attempt (ex.backoff_factor ^ attempt)
    else .calling tool attempt
  else .done (.ok (ex.exhausted req last_error))

/-- The cache lookup of `_execute_single`. -/
def ToolExecutor.lookup (cache : Cache) (req : ToolCallRequest) : Option ExecutionResult :=
  if ex.enable_cache then (cache.get? (req.cacheKey P)).map Subtype.val else none

/-- The cache after a tool returned `r` on the attempt. -/
def ToolExecutor.store (cache : Cache) (req : ToolCallRequest) (attempt : ℕ) (r : ToolResult) :
    Cache :=
  if h : (req.resultOf attempt r).success = true ∧ ex.enable_cache = true then
    cache.set (req.cacheKey P) ⟨req.resultOf attempt r, h.1⟩
  else cache

/-- `_execute_single` up to its first await: the cache, the registry, the first attempt. -/
def ToolExecutor.startTask (cache : Cache) (req : ToolCallRequest) : Task :=
  match ex.lookup P cache req with
  | some cached => .done (.ok (req.cachedResult cached))
  | none =>
    match reg.get req.tool_name with
    | .error e => .done (.error e)
    | .ok none => .done (.ok (req.unknownTool P))
    | .ok (some tool) => ex.retryLoop req tool 0 ""

/-- The rest of an attempt once the awaited call has ended. -/
def ToolExecutor.finishAttempt (cache : Cache) (req : ToolCallRequest) (tool : Tool) (attempt : ℕ)
    (outcome : Except Exn ToolResult) : Task × Cache :=
  match ex.waitFor P tool req.arguments outcome with
  -- A failing `ToolResult` ends the loop too: only an exception is retried.
  | .ok r => (.done (.ok (req.resultOf attempt r)), ex.store P cache req attempt r)
  | .error e =>
    match ex.lastError P req tool e with
    | some last_error => (ex.retryLoop req tool (attempt + 1) last_error, cache)
    | none => (.done (.error e), cache)

/-- One segment of `_execute_single`, from one await to the next. -/
def ToolExecutor.advance (req : ToolCallRequest) (outcomes : ℕ → Except Exn ToolResult) :
    Task → Cache → Task × Cache
  | .queued, cache => (ex.startTask P reg cache req, cache)
  | .sleeping tool attempt _, cache => (.calling tool attempt, cache)
  | .calling tool attempt, cache => ex.finishAttempt P cache req tool attempt (outcomes attempt)
  | .done r, cache => (.done r, cache)

/-- The number of segments within which a task is done: the start, and a call and a sleep for each
attempt. -/
def ToolExecutor.segments : ℕ := 2 * (ex.max_retries.toNat + 1)

/-- `n` segments of a task with no other task in between. -/
def ToolExecutor.runTask (req : ToolCallRequest) (outcomes : ℕ → Except Exn ToolResult) :
    ℕ → Task → Cache → Task × Cache
  | 0, task, cache => (task, cache)
  | n + 1, task, cache =>
    let next := ex.advance P reg req outcomes task cache
    runTask req outcomes n next.1 next.2

end Single

/-- A batch under way: its tasks by the position of their request, and the cache. -/
structure Batch where
  tasks : ℕ → Task
  cache : Cache

section Batch

variable (P : Platform) (ex : ToolExecutor) (reg : ToolRegistry)
variable (requests : List ToolCallRequest) (outcomes : ℕ → ℕ → Except Exn ToolResult)

/-- The batch right after `gather` has created its tasks. -/
def Batch.start (cache : Cache) : Batch := ⟨fun _ => .queued, cache⟩

/-- One segment of the task at position `i`. -/
def Batch.step (b : Batch) (i : ℕ) : Batch :=
  match requests[i]? with
  | none => b
  | some req =>
    let next := ex.advance P reg req (outcomes i) (b.tasks i) b.cache
    ⟨Function.update b.tasks i next.1, next.2⟩

/-- The segments of a schedule, one after another. -/
def Batch.run (b : Batch) (schedule : List ℕ) : Batch :=
  schedule.foldl (Batch.step P ex reg requests outcomes) b

/-- Each task to its end, in the order of the requests. -/
def ToolExecutor.finishing : List ℕ :=
  (List.range requests.length).flatMap fun i => List.replicate ex.segments i

/-- What `execute_batch` makes of a gathered task. A task is done when `gather` returns
(`Batch.tasks_done`), so that the last line is not reached. -/
def ToolCallRequest.gathered (req : ToolCallRequest) : Task → ExecutionResult
  | .done (.ok r) => r
  | .done (.error e) => req.unexpectedError e
  | _ => req.unexpectedError ⟨.other, ""⟩

/-- The parallel branch of `execute_batch`, under a schedule. -/
def ToolExecutor.executeParallel (schedule : List ℕ) (cache : Cache) :
    List ExecutionResult × Cache :=
  let b := (Batch.start cache).run P ex reg requests outcomes (schedule ++ ex.finishing requests)
  (requests.mapIdx fun i req => req.gathered (b.tasks i), b.cache)

/-- The serial branch of `execute_batch`, for the requests from position `i` on. An exception that
leaves `_execute_single` leaves `execute_batch` too. -/
def ToolExecutor.executeSerial : ℕ → List ToolCallRequest → Cache →
    Except Exn (List ExecutionResult) × Cache
  | _, [], cache => (.ok [], cache)
  | i, req :: rest, cache =>
    match ex.runTask P reg req (outcomes i) ex.segments .queued cache with
    | (.done (.error e), cache) => (.error e, cache)
    | (task, cache) =>
      let tail := executeSerial (i + 1) rest cache
      (tail.1.map (req.gathered task :: ·), tail.2)

/-- `ToolExecutor.execute_batch`: the results, and the cache afterwards. -/
def ToolExecutor.executeBatch (schedule : List ℕ) (cache : Cache) :
    Except Exn (List ExecutionResult) × Cache :=
  if ex.parallel then
    let r := ex.executeParallel P reg requests outcomes schedule cache
    (.ok r.1, r.2)
  else ex.executeSerial P reg outcomes 0 requests cache

end Batch

end YellowBull
