import YellowBull.ToolExecutor.Runs

/-!
# Parallel and serial batches

`ToolBehaviour` is what the tools do when an attempt depends on the tool, the arguments and the
number of the attempt alone. Then each request has one answer, that of its execution on its own, and
a batch gives each request its answer, in parallel under every schedule, one after another, and from
every cache that was filled under the same tools (`executeBatch_answers`). The two modes differ in
what they do with an exception that leaves `_execute_single`; as long as the cache keys can be
computed there is none (`ToolBehaviour.execution_ne_raised`).
-/

namespace YellowBull

open Py

/-- The request has what the annotations of `ToolCallRequest` say: a string and a dict. -/
structure ToolCallRequest.WellTyped (req : ToolCallRequest) : Prop where
  name : ∃ name, req.tool_name = .str name
  arguments : ∃ items, req.arguments = .dict items

/-- What the attempts of the tools come back with: a `ToolResult`, a timeout or an `Exception`, one
for each tool, arguments and number of the attempt. -/
structure ToolBehaviour where
  outcome : Tool → Dict → ℕ → Except Exn ToolResult
  /-- Equal arguments have equal outcomes, in whatever order their keys are. -/
  outcome_congr : ∀ tool items items' attempt,
    (Val.dict items).canonical = (Val.dict items').canonical →
      outcome tool items attempt = outcome tool items' attempt
  isException : ∀ tool items attempt e, outcome tool items attempt = .error e → e.IsException

/-- What the attempts for a request come back with. Without a registered tool or a mapping of
arguments no attempt is made, and the last line is not read. -/
def ToolBehaviour.attempts (β : ToolBehaviour) (reg : ToolRegistry) (req : ToolCallRequest) :
    ℕ → Except Exn ToolResult :=
  match reg.get req.tool_name, req.arguments with
  | .ok (some tool), .dict items => β.outcome tool items
  | _, _ => fun _ => .ok {}

/-- What the attempts for the requests of a batch come back with. -/
def ToolBehaviour.outcomes (β : ToolBehaviour) (reg : ToolRegistry)
    (requests : List ToolCallRequest) (i : ℕ) : ℕ → Except Exn ToolResult :=
  (requests[i]?).elim (fun _ => .ok {}) (β.attempts reg)

/-- The part of a result that the modes agree on: all but the number of retries. -/
structure Answer where
  tool_name : Val
  status : ExecutionStatus
  content : String
  error : String
  deriving DecidableEq

/-- The answer of a result. -/
def ExecutionResult.answer (r : ExecutionResult) : Answer :=
  ⟨r.tool_name, r.status, r.content, r.error⟩

/-! ## Executions of one call -/

section Executions

variable {P : Platform} {ex : ToolExecutor} {reg : ToolRegistry}

/-- Requests of one call whose attempts come back with the same have the same execution. -/
theorem ToolExecutor.attemptsFrom_congr {req req' : ToolCallRequest} (hcall : req.SameCall req')
    {items : Dict} (hitems : req.arguments = .dict items) (tool : Tool)
    (outcomes : ℕ → Except Exn ToolResult) (n attempt : ℕ) (last_error : String) :
    ex.attemptsFrom P req tool outcomes n attempt last_error =
      ex.attemptsFrom P req' tool outcomes n attempt last_error := by
  obtain ⟨items', hitems'⟩ := Val.eq_dict_of_canonical (hitems ▸ hcall.2.symm)
  have hlast : ∀ e, ex.lastError P req tool e = ex.lastError P req' tool e := by
    intro e
    rw [lastError, lastError, hcall.1]
  induction n generalizing attempt last_error with
  | zero => rfl
  | succ n ih =>
    simp only [attemptsFrom, waitFor, hitems, hitems', invokeTool, hlast, ih]

/-- Requests of one call have the same attempts. -/
theorem ToolBehaviour.attempts_congr (β : ToolBehaviour) {req req' : ToolCallRequest}
    (hcall : req.SameCall req') {items : Dict} (hitems : req.arguments = .dict items) :
    β.attempts reg req = β.attempts reg req' := by
  obtain ⟨items', hitems'⟩ := Val.eq_dict_of_canonical (hitems ▸ hcall.2.symm)
  have hcanonical : (Val.dict items).canonical = (Val.dict items').canonical := by
    rw [← hitems, ← hitems', hcall.2]
  unfold attempts
  rw [hcall.1, hitems, hitems']
  cases reg.get req'.tool_name with
  | error e => rfl
  | ok found =>
    cases found with
    | none => rfl
    | some tool => exact funext fun n => β.outcome_congr tool items items' n hcanonical

/-- Requests of one call have the same execution. -/
theorem ToolBehaviour.execution_congr (β : ToolBehaviour) {req req' : ToolCallRequest}
    (hcall : req.SameCall req') {items : Dict} (hitems : req.arguments = .dict items) :
    ex.execution P reg req (β.attempts reg req) =
      ex.execution P reg req' (β.attempts reg req') := by
  unfold ToolExecutor.execution
  rw [β.attempts_congr hcall hitems, hcall.1]
  cases reg.get req'.tool_name with
  | error e => rfl
  | ok found =>
    cases found with
    | none => rfl
    | some tool => exact ToolExecutor.attemptsFrom_congr hcall hitems tool _ _ _ _

/-- Attempts that come back with a `ToolResult` or an exception that is caught do not raise. -/
theorem ToolExecutor.attemptsFrom_ne_raised {req : ToolCallRequest} {tool : Tool}
    {outcomes : ℕ → Except Exn ToolResult}
    (h : ∀ n e, outcomes n = .error e → e.IsException) (n attempt : ℕ) (last_error : String)
    (e : Exn) : ex.attemptsFrom P req tool outcomes n attempt last_error ≠ .raised e := by
  induction n generalizing attempt last_error with
  | zero => simp [attemptsFrom]
  | succ n ih =>
    simp only [attemptsFrom]
    cases hwait : ex.waitFor P tool req.arguments (outcomes attempt) with
    | ok r => simp
    | error e' =>
      -- An attempt that raises an `Exception` is caught, for a timeout as for any other.
      obtain ⟨last_error', hlast⟩ : ∃ last_error',
          ex.lastError P req tool e' = some last_error' := by
        unfold lastError
        split
        · exact ⟨_, rfl⟩
        next hcls => exact absurd hcls (isException_waitFor (h attempt) hwait)
        · exact ⟨_, rfl⟩
      simp only [hlast]
      exact ih (attempt + 1) last_error'

/-- No exception leaves `_execute_single`. -/
theorem ToolBehaviour.execution_ne_raised (β : ToolBehaviour) {req : ToolCallRequest}
    (h : req.WellTyped) (e : Exn) : ex.execution P reg req (β.attempts reg req) ≠ .raised e := by
  obtain ⟨⟨name, hname⟩, items, hitems⟩ := h
  unfold ToolExecutor.execution
  cases hget : reg.get req.tool_name with
  | error e' =>
    rw [hname] at hget
    cases hget
  | ok found =>
    cases found with
    | none => exact fun heq => nomatch heq
    | some tool =>
      refine ToolExecutor.attemptsFrom_ne_raised (fun n e' he => ?_) _ _ _ e
      simp only [attempts, hget, hitems] at he
      exact β.isException tool items n e' he

end Executions

/-! ## Batches -/

section Batches

variable {P : Platform} {ex : ToolExecutor} {reg : ToolRegistry} {β : ToolBehaviour}

/-- The answer of a request that is executed on its own. -/
def ToolBehaviour.answer (P : Platform) (ex : ToolExecutor) (reg : ToolRegistry) (β : ToolBehaviour)
    (req : ToolCallRequest) : Answer :=
  ((ex.execution P reg req (β.attempts reg req)).result P ex req).answer

/-- The attempts for a request of a batch are those of the request. -/
theorem ToolBehaviour.outcomes_of_mem (β : ToolBehaviour) {requests : List ToolCallRequest} {i : ℕ}
    {req : ToolCallRequest} (hi : requests[i]? = some req) :
    β.outcomes reg requests i = β.attempts reg req := by
  rw [outcomes, hi, Option.elim_some]

/-- The successes of a log are what the tools of the registry do. -/
def ToolBehaviour.Explains (β : ToolBehaviour) (P : Platform) (ex : ToolExecutor)
    (reg : ToolRegistry) (log : List Success) : Prop :=
  ∀ su ∈ log, su.IsExecution P ex reg (β.attempts reg su.req)

/-- The successes of a batch are what the tools do for its requests. -/
theorem ToolBehaviour.explains_successes {requests : List ToolCallRequest} {cache : Cache}
    {segments : List ℕ} {su : Success}
    (hsu : su ∈ (Batch.start cache).successes P ex reg requests (β.outcomes reg requests)
      segments) : su.req ∈ requests ∧ su.IsExecution P ex reg (β.attempts reg su.req) := by
  obtain ⟨i, -, hi, hexec⟩ := (Batch.sound_start cache).successes hsu
  rw [β.outcomes_of_mem hi] at hexec
  exact ⟨List.mem_of_getElem? hi, hexec⟩

/-- A success of the same call, answered from the cache, is the answer of the execution. -/
theorem ToolBehaviour.answer_cachedResult {req : ToolCallRequest} (htyped : req.WellTyped)
    {su : Success} (hcall : su.req.SameCall req)
    (hexec : su.IsExecution P ex reg (β.attempts reg su.req)) :
    (req.cachedResult su.result.val).answer = β.answer P ex reg req := by
  obtain ⟨-, items, hitems⟩ := htyped
  obtain ⟨items', hitems'⟩ : ∃ items', su.req.arguments = .dict items' :=
    Val.eq_dict_of_canonical (hitems ▸ hcall.2)
  unfold ToolBehaviour.answer
  rw [← β.execution_congr hcall hitems', hexec.returned]
  simp [ExecutionResult.answer, ToolCallRequest.cachedResult, Success.result,
    ToolCallRequest.resultOf, Execution.result, Execution.outcome, ToolCallRequest.gathered,
    su.succeeds]

/-- A batch over a cache that remembers successes of the same tools does not raise, and gives each
request its answer, if calls with one cache key are the same wherever there is a cache. -/
theorem ToolExecutor.executeBatch_answers {log : List Success} (hlog : β.Explains P ex reg log)
    {requests : List ToolCallRequest} (htyped : ∀ req ∈ requests, req.WellTyped)
    (hkeys : ex.enable_cache = true → ∀ r ∈ log.map Success.req ++ requests, ∀ r' ∈ requests,
      r.cacheKey P = r'.cacheKey P → r.SameCall r') (schedule : List ℕ) :
    ∃ rs, (ex.executeBatch P reg requests (β.outcomes reg requests) schedule
        (ex.remember P .empty log)).1 = .ok rs ∧
      rs.map ExecutionResult.answer = requests.map (β.answer P ex reg) := by
  have hcollects : Collects 0 requests (ex.executeBatch P reg requests (β.outcomes reg requests)
      schedule (ex.remember P .empty log)) _ :=
    executeBatch_collects P ex reg (β.outcomes reg requests) schedule (ex.remember P .empty log)
  cases hrs : (ex.executeBatch P reg requests (β.outcomes reg requests) schedule
    (ex.remember P .empty log)).1 with
  | error e =>
    -- A task that raised has the outcome of its execution, which does not raise.
    obtain ⟨i, hlt, hraised⟩ := hcollects.error e hrs
    have hi : requests[i]? = some requests[i] := List.getElem?_eq_getElem hlt
    rw [Nat.zero_add] at hraised
    have houtcome := outcome_of_done hi hraised
    split at houtcome
    next => cases houtcome
    next =>
      rw [β.outcomes_of_mem hi] at houtcome
      cases hexec : ex.execution P reg requests[i] (β.attempts reg requests[i]) with
      | raised e' =>
        exact absurd hexec (β.execution_ne_raised (htyped _ (List.getElem_mem hlt)) e')
      | unknown => simp [hexec, Execution.outcome] at houtcome
      | returned attempt r => simp [hexec, Execution.outcome] at houtcome
      | exhausted last_error => simp [hexec, Execution.outcome] at houtcome
  | ok rs =>
    have hlength : rs.length = requests.length := by
      rw [(hcollects.ok rs hrs).1, List.length_mapIdx]
    refine ⟨rs, rfl, List.ext_getElem? fun i => ?_⟩
    cases hi : requests[i]? with
    | none =>
      have hnone : rs[i]? = none := by
        rw [List.getElem?_eq_none_iff] at hi ⊢
        omega
      rw [List.getElem?_map, List.getElem?_map, hi, hnone]
      rfl
    | some req =>
      have hreq : req ∈ requests := List.mem_of_getElem? hi
      rw [List.getElem?_map, List.getElem?_map, hi, executeBatch_result hrs hi, Option.map_some,
        Option.map_some, Option.some.injEq]
      split
      next cached hlookup =>
        obtain ⟨pre, -, hfound⟩ := Batch.firstLookup_some hi hlookup
        rw [Batch.cache_run, Batch.cache_start, ← remember_append] at hfound
        obtain ⟨hen, su, hsu, hkey, rfl⟩ := lookup_some hfound
        obtain ⟨hmem, hexec⟩ : su.req ∈ log.map Success.req ++ requests ∧
            su.IsExecution P ex reg (β.attempts reg su.req) := by
          rcases List.mem_append.mp hsu with hold | hnew
          · exact ⟨List.mem_append_left _ (List.mem_map_of_mem hold), hlog su hold⟩
          · obtain ⟨hmem, hexec⟩ := ToolBehaviour.explains_successes hnew
            exact ⟨List.mem_append_right _ hmem, hexec⟩
        exact β.answer_cachedResult (htyped req hreq) (hkeys hen _ hmem req hreq hkey) hexec
      next => rw [β.outcomes_of_mem hi, ToolBehaviour.answer]

end Batches

/-! ## Modes -/

namespace ToolExecutor

/-- The executor in parallel mode or in serial mode. -/
def mode (ex : ToolExecutor) (parallel : Bool) : ToolExecutor := { ex with parallel := parallel }

/-- A `clear_cache`, or a batch under the tools of a registry. -/
def Op.Under (β : ToolBehaviour) (reg : ToolRegistry) : Op → Prop
  | .registry _ => False
  | .batch requests outcomes _ => outcomes = β.outcomes reg requests
  | .clearCache => True

section Modes

variable {P : Platform} {ex : ToolExecutor} {reg : ToolRegistry} {β : ToolBehaviour}

/-- What a request comes to on its own does not depend on the mode. -/
theorem execution_mode (parallel : Bool) (req : ToolCallRequest)
    (outcomes : ℕ → Except Exn ToolResult) :
    (ex.mode parallel).execution P reg req outcomes = ex.execution P reg req outcomes := by
  have hattempts : ∀ tool n attempt last_error,
      (ex.mode parallel).attemptsFrom P req tool outcomes n attempt last_error =
        ex.attemptsFrom P req tool outcomes n attempt last_error := by
    intro tool n
    have hlast : (ex.mode parallel).lastError P req tool = ex.lastError P req tool := rfl
    have hwait : (ex.mode parallel).waitFor P tool = ex.waitFor P tool := rfl
    induction n with
    | zero => exact fun _ _ => rfl
    | succ n ih =>
      intro attempt last_error
      simp only [attemptsFrom, hlast, hwait, ih]
  simp only [execution, hattempts]
  rfl

/-- The answer of a request does not depend on the mode. -/
theorem answer_mode (parallel : Bool) (req : ToolCallRequest) :
    β.answer P (ex.mode parallel) reg req = β.answer P ex reg req := by
  rw [ToolBehaviour.answer, execution_mode]
  rfl

end Modes

/-- A tool that always returns the same. -/
def steady : ToolBehaviour where
  outcome _ _ _ := .ok { content := "one" }
  outcome_congr _ _ _ _ _ := rfl
  isException _ _ _ _ h := nomatch h

end ToolExecutor

end YellowBull
