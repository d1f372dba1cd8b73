import YellowBull.ToolExecutor.Runs

/-!
# What a cached answer is worth

Over whole runs, a request is answered from the cache exactly if the call has succeeded since the
last `clear_cache`, and then with what an execution of the call returned (`cache_honest`). Nothing
ties the cache to the registry: a request is answered by the tool now registered under its name as
long as the successes logged for its key are that tool's (`registry_respected`), and a tool that is
unregistered or replaced goes on answering from the cache (`unregistered_answers`).
-/

namespace YellowBull

open Py

namespace ToolExecutor

variable {P : Platform} {ex : ToolExecutor}

/-- Cached results are honest, at every moment of every batch, whatever came before. Every entry of
the cache is the result of a success of the log. A request whose call has a success in the log is
answered with such a result, and any other goes on to the registry and to the attempts. And after
`clear_cache` the log is empty. -/
theorem cache_honest (reg : ToolRegistry) (ops : List Op) (requests : List ToolCallRequest)
    (outcomes : ℕ → ℕ → Except Exn ToolResult) (pre : List ℕ) (hen : ex.enable_cache = true)
    (hkeys : ∀ r ∈ ops.flatMap Op.requests ++ requests,
      ∀ r' ∈ ops.flatMap Op.requests ++ requests, r.cacheKey P = r'.cacheKey P → r.SameCall r') :
    let s := ex.stateAfter P reg ops
    let log := s.logAt P ex requests outcomes pre
    let b := s.batchAt P ex requests outcomes pre
    (∀ key entry, b.cache.get? key = some entry →
        ∃ su ∈ log, key = su.req.cacheKey P ∧ entry = su.result) ∧
      (∀ i req, requests[i]? = some req → b.tasks i = .queued →
        ((∃ su ∈ log, su.req.SameCall req) → ∃ su ∈ log, su.req.SameCall req ∧
          (s.batchAt P ex requests outcomes (pre ++ [i])).tasks i =
            .done (.ok (req.cachedResult su.result))) ∧
        ((∀ su ∈ log, ¬ su.req.SameCall req) →
          (s.batchAt P ex requests outcomes (pre ++ [i])).tasks i = ex.missed P s.registry req)) ∧
      (ex.stateAfter P reg (ops ++ [.clearCache])).log = [] := by
  intro s log b
  have hcache : s.cache = ex.remember P .empty s.log := cache_stateAfter reg ops
  refine ⟨fun key entry hentry => ?_, fun i req hi hqueued => ?_, ?_⟩
  · rw [show b.cache = _ from cache_batchAt hcache requests outcomes pre, remember, if_pos hen]
      at hentry
    rcases OrderedMap.get?_setAll_some hentry with hmem | hempty
    · obtain ⟨su, hsu, heq⟩ := List.mem_map.mp hmem
      obtain ⟨rfl, rfl⟩ := Prod.mk.inj heq
      exact ⟨su, hsu, rfl, rfl⟩
    · cases hempty
  · -- A success with the key of the request is one of its call.
    have hcall : ∀ su ∈ log, su.req.cacheKey P = req.cacheKey P → su.req.SameCall req :=
      fun su hsu => hkeys _ (requested_of_mem_logAt hsu) _
        (List.mem_append_right _ (List.mem_of_getElem? hi))
    rcases tasks_start hcache hi hqueued with ⟨-, su, hsu, hkey, htask⟩ | ⟨hmiss, htask⟩
    · refine ⟨fun _ => ⟨su, hsu, hcall su hsu hkey, htask⟩, fun hnone => ?_⟩
      exact absurd (hcall su hsu hkey) (hnone su hsu)
    · refine ⟨?_, fun _ => htask⟩
      rintro ⟨su, hsu, hsame⟩
      exact absurd (hsame.cacheKey_eq P) (hmiss hen su hsu)
  · rw [stateAfter, Machine.state_append]
    rfl

/-- After `clear_cache` a request runs its tool again. -/
theorem cache_honest_cleared :
    ((caching.stateAfter .bare (ToolRegistry.empty.register read)
        [readBatch, .clearCache]).batchAt .bare caching [readRequest] (fun _ _ => .ok {})
        [0]).tasks 0 = .calling read 0 :=
  ((cache_honest (ToolRegistry.empty.register read) [readBatch, .clearCache] [readRequest]
      (fun _ _ => .ok {}) [] rfl (by decide)).2.1 0 readRequest rfl rfl).2 (by decide)

/-- Two requests of one call in flight, of which one succeeds and the other fails: the next request
of the failed call is answered from the cache, and the tool is not run. -/
theorem failed_call_not_run_again :
    Machine.outputs (caching.step .bare) { registry := ToolRegistry.empty.register read }
        [.batch [readRequest, readRequest]
          (fun i _ => if i = 0 then .ok { content := "one" } else
            .ok { success := false, error := "busy" }) [0, 1],
          .batch [readRequest] (fun _ _ => .ok { content := "two" }) []] =
      [(.ok [cachedRead, { tool_name := .str "read", status := .failed, error := "busy" }],
          [⟨read, [], 0⟩, ⟨read, [], 0⟩]),
        (.ok [cachedRead], [])] := by
  decide

/-! ## The live registry -/

/-- The successes that are logged for the keys of the requests are those of the tools now registered
under their names, and requests with one key name one tool. -/
def State.Live (P : Platform) (s : State) (requests : List ToolCallRequest) : Prop :=
  (∀ req ∈ requests, ∀ su ∈ s.log, su.req.cacheKey P = req.cacheKey P →
      s.registry.get req.tool_name = .ok (some su.tool)) ∧
    ∀ req ∈ requests, ∀ req' ∈ requests, req.cacheKey P = req'.cacheKey P →
      req.tool_name = req'.tool_name

instance (s : State) (requests : List ToolCallRequest) : Decidable (s.Live P requests) :=
  inferInstanceAs (Decidable (_ ∧ _))

/-- The result of an execution is a success only where the tool returned one. -/
theorem returned_of_success {req : ToolCallRequest} {E : Execution}
    (h : (E.result P ex req).status = .success) :
    ∃ attempt r, E = .returned attempt r ∧ r.success = true := by
  cases E with
  | raised e => cases h
  | unknown => cases h
  | exhausted last_error =>
    simp only [Execution.result, Execution.outcome, ToolCallRequest.gathered, exhausted] at h
    split at h <;> cases h
  | returned attempt r =>
    refine ⟨attempt, r, rfl, ?_⟩
    rw [← ToolCallRequest.success_resultOf req attempt r]
    exact decide_eq_true h

/-- The executor respects the live registry, in a state reached by any operations: where caching is
off, or the batch is live, a request whose tool is not registered is told so, and the content of a
success is what the registered tool returned, in this batch or at a success of the log. -/
theorem registry_respected (reg : ToolRegistry) (ops : List Op) {requests : List ToolCallRequest}
    {outcomes : ℕ → ℕ → Except Exn ToolResult} {schedule : List ℕ} {rs : List ExecutionResult}
    (hlive : ex.enable_cache = true → (ex.stateAfter P reg ops).Live P requests)
    (hrs : (ex.executeBatch P (ex.stateAfter P reg ops).registry requests outcomes schedule
      (ex.stateAfter P reg ops).cache).1 = .ok rs)
    {i : ℕ} {req : ToolCallRequest} (hi : requests[i]? = some req) :
    let s := ex.stateAfter P reg ops
    ∃ r, rs[i]? = some r ∧ (s.registry.get req.tool_name = .ok none → r = req.unknownTool P) ∧
      ∀ tool, s.registry.get req.tool_name = .ok (some tool) → r.status = .success →
        ∃ su : Success, su.tool = tool ∧ r.content = su.returned.content ∧
          (su ∈ s.log ∨
            ∃ j, requests[j]? = some su.req ∧ su.IsExecution P ex s.registry (outcomes j)) := by
  intro s
  have hcache : s.cache = ex.remember P .empty s.log := cache_stateAfter reg ops
  refine ⟨_, executeBatch_result hrs hi, ?_⟩
  split
  next cached hlookup =>
    -- The cached result is that of a success whose tool is registered under the name.
    obtain ⟨pre, -, hfound⟩ := Batch.firstLookup_some hi hlookup
    rw [← State.batchAt, cache_batchAt hcache] at hfound
    obtain ⟨hen, su, hsu, hkey, rfl⟩ := lookup_some hfound
    obtain ⟨hlog, hnames⟩ := hlive hen
    have hreq : req ∈ requests := List.mem_of_getElem? hi
    obtain ⟨htool, hfrom⟩ : s.registry.get req.tool_name = .ok (some su.tool) ∧
        (su ∈ s.log ∨
          ∃ j, requests[j]? = some su.req ∧ su.IsExecution P ex s.registry (outcomes j)) := by
      rcases List.mem_append.mp hsu with hold | hnew
      · exact ⟨hlog req hreq su hold hkey, Or.inl hold⟩
      · obtain ⟨j, hj, hexec⟩ := execution_of_mem_successes hnew
        rw [← hnames su.req (List.mem_of_getElem? hj) req hreq hkey]
        exact ⟨hexec.registered, Or.inr ⟨j, hj, hexec⟩⟩
    refine ⟨fun hnone => ?_, fun tool hget _ => ?_⟩
    · rw [htool] at hnone
      cases hnone
    · rw [htool] at hget
      cases hget
      exact ⟨su, rfl, su.result_content, hfrom⟩
  next hlookup =>
    refine ⟨fun hnone => ?_, fun tool hget hsuccess => ?_⟩
    · rw [execution, hnone]
      rfl
    · obtain ⟨attempt, r, hexec, hr⟩ := returned_of_success hsuccess
      refine ⟨⟨req, tool, attempt, r, hr⟩, rfl, ?_, Or.inr ⟨i, hi, hget, hexec⟩⟩
      rw [hexec]
      exact if_pos hr

/-- A tool that answers again from the cache, still registered. -/
theorem registry_respected_hit :
    ∃ r, [cachedRead][0]? = some r ∧
      ∀ tool, (ToolRegistry.empty.register read).get readRequest.tool_name = .ok (some tool) →
        r.status = .success → ∃ su : Success, su.tool = tool ∧ r.content = su.returned.content := by
  have hrs : (caching.executeBatch .bare
      (caching.stateAfter .bare (ToolRegistry.empty.register read) [readBatch]).registry
      [readRequest] (fun _ _ => .ok {}) []
      (caching.stateAfter .bare (ToolRegistry.empty.register read) [readBatch]).cache).1 =
      .ok [cachedRead] := by decide
  obtain ⟨r, hr, -, hsuccess⟩ :=
    registry_respected (ToolRegistry.empty.register read) [readBatch] (by decide) hrs
      (show [readRequest][0]? = some readRequest from rfl)
  refine ⟨r, hr, fun tool htool hstatus => ?_⟩
  obtain ⟨su, hsu, hcontent, -⟩ := hsuccess tool htool hstatus
  exact ⟨su, hsu, hcontent⟩

/-- A tool that is unregistered after a success goes on answering. -/
theorem unregistered_answers :
    (caching.stateAfter .bare (ToolRegistry.empty.register read)
        [readBatch, .registry (.unregister "read")]).registry.get readRequest.tool_name =
      .ok none ∧
    (caching.executeBatch .bare
      (caching.stateAfter .bare (ToolRegistry.empty.register read)
        [readBatch, .registry (.unregister "read")]).registry
      [readRequest] (fun _ _ => .ok {}) []
      (caching.stateAfter .bare (ToolRegistry.empty.register read)
        [readBatch, .registry (.unregister "read")]).cache).1 = .ok [cachedRead] := by
  decide

end ToolExecutor

end YellowBull
