import YellowBull.ToolExecutor.Calls

/-!
# Tools that may not be answered from the cache

No line of the executor reads whether a tool is idempotent. A request runs the `execute` of its
tool, where its limits allow it any time at all, unless a success with its cache key is in the log,
whatever the tool declares. And where no request starts after such a success, the executor with a
cache and the one without give the same results and make the same calls of `execute` in the same
order, so that whatever the calls do to the world, they do the same (`executed_iff_fresh`).
-/

namespace YellowBull

open Py

/-- The executor with its cache switched off. -/
def ToolExecutor.cacheless (ex : ToolExecutor) : ToolExecutor := { ex with enable_cache := false }

/-! ## Two executors in lockstep -/

section Lockstep

variable {P : Platform} {ex : ToolExecutor} {reg : ToolRegistry}
variable {requests : List ToolCallRequest} {outcomes : ℕ → ℕ → Except Exn ToolResult}

/-- A task that does not start, or misses the cache, goes on without regard to the cache. -/
theorem ToolExecutor.advance_cacheless {req : ToolCallRequest}
    {outcomes : ℕ → Except Exn ToolResult} {task : Task} {cache : Cache}
    (hmiss : task = .queued → ex.lookup P cache req = none) (cache' : Cache) :
    (ex.cacheless.advance P reg req outcomes task cache').1 =
      (ex.advance P reg req outcomes task cache).1 := by
  cases task with
  | queued =>
    simp only [advance, startTask, hmiss rfl]
    rfl
  | sleeping tool attempt wait_time => rfl
  | done r => rfl
  | calling tool attempt =>
    -- Neither the limit nor the handling of an exception looks at the cache.
    have hwait : ex.cacheless.waitFor P tool req.arguments (outcomes attempt) =
        ex.waitFor P tool req.arguments (outcomes attempt) := rfl
    simp only [advance, finishAttempt, hwait]
    cases ex.waitFor P tool req.arguments (outcomes attempt) with
    | ok r => rfl
    | error e =>
      have hlast : ex.cacheless.lastError P req tool e = ex.lastError P req tool e := rfl
      dsimp only
      rw [hlast]
      cases ex.lastError P req tool e <;> rfl

variable (P ex reg requests outcomes) in
/-- Every task that starts in the segments misses the cache. -/
def Batch.Misses : Batch → List ℕ → Prop
  | _, [] => True
  | b, i :: segments =>
    (∀ req, requests[i]? = some req → b.tasks i = .queued → ex.lookup P b.cache req = none) ∧
      Misses (b.step P ex reg requests outcomes i) segments

/-- All of a schedule miss if those of both parts do. -/
theorem Batch.misses_append {b : Batch} {segments segments' : List ℕ} :
    b.Misses P ex reg requests outcomes (segments ++ segments') ↔
      b.Misses P ex reg requests outcomes segments ∧
        (b.run P ex reg requests outcomes segments).Misses P ex reg requests outcomes
          segments' := by
  induction segments generalizing b with
  | nil => exact (and_iff_right trivial).symm
  | cons i segments ih => rw [List.cons_append, Misses, Misses, ih, and_assoc, Batch.run_cons]

/-- Batches with the same tasks, in a segment that misses the cache. -/
theorem Batch.step_cacheless {b b' : Batch} (htasks : b'.tasks = b.tasks) {i : ℕ}
    (hmiss : ∀ req, requests[i]? = some req → b.tasks i = .queued →
      ex.lookup P b.cache req = none) :
    (b'.step P ex.cacheless reg requests outcomes i).tasks =
      (b.step P ex reg requests outcomes i).tasks := by
  unfold Batch.step
  cases hi : requests[i]? with
  | none => exact htasks
  | some req =>
    simp only [htasks]
    rw [ToolExecutor.advance_cacheless (hmiss req hi)]

/-- Segments that miss the cache do the same with the cache and without. -/
theorem Batch.run_cacheless {b b' : Batch} (htasks : b'.tasks = b.tasks) {segments : List ℕ}
    (hmiss : b.Misses P ex reg requests outcomes segments) :
    (b'.run P ex.cacheless reg requests outcomes segments).tasks =
        (b.run P ex reg requests outcomes segments).tasks ∧
      b'.invocations P ex.cacheless reg requests outcomes segments =
        b.invocations P ex reg requests outcomes segments := by
  induction segments generalizing b b' with
  | nil => exact ⟨htasks, rfl⟩
  | cons i segments ih =>
    obtain ⟨hrun, hinvocations⟩ := ih (Batch.step_cacheless htasks hmiss.1) hmiss.2
    refine ⟨hrun, ?_⟩
    have hstarts : ex.cacheless.startsCall P = ex.startsCall P := rfl
    rw [invocations, invocations, hinvocations, invocation?, invocation?, htasks, hstarts]

/-- A serial batch whose segments miss the cache: the same segments, and the same results or the
same exception. -/
theorem ToolExecutor.executeSerial_cacheless {rest : List ToolCallRequest} {i : ℕ} {b b' : Batch}
    (htasks : b'.tasks = b.tasks) (hpending : b.Pending requests i rest)
    (hmiss : b.Misses P ex reg requests outcomes
      (ex.serialSegments P reg outcomes i rest b.cache)) :
    ex.cacheless.serialSegments P reg outcomes i rest b'.cache =
        ex.serialSegments P reg outcomes i rest b.cache ∧
      (ex.cacheless.executeSerial P reg outcomes i rest b'.cache).1 =
        (ex.executeSerial P reg outcomes i rest b.cache).1 := by
  induction rest generalizing i b b' with
  | nil => exact ⟨rfl, rfl⟩
  | cons req rest ih =>
    obtain ⟨hreq, t, b₁, ⟨hb₁, hT, htask, -⟩, hpending₁⟩ :
        requests[i]? = some req ∧ ∃ t b₁, b.Finishes P ex reg requests outcomes i req t b₁ ∧
          b₁.Pending requests (i + 1) rest :=
      hpending.first
    have hqueued : b'.tasks i = .queued := by
      rw [htasks]
      exact hpending.queued i (Nat.le_refl i)
    obtain ⟨t', b₁', hb₁', hT', htask', -⟩ :
        ∃ t b₁, b'.Finishes P ex.cacheless reg requests outcomes i req t b₁ :=
      Batch.run_segments hreq hqueued
    -- The first task comes to the same with the cache and without.
    rw [serialSegments, Batch.misses_append, hb₁] at hmiss
    have htasks₁ : b₁'.tasks = b₁.tasks := by
      rw [← hb₁, ← hb₁']
      exact (Batch.run_cacheless htasks hmiss.1).1
    obtain rfl : t' = t := by
      rw [htasks₁, htask] at htask'
      exact (Task.done.inj htask').symm
    cases t' with
    | error e =>
      simp only [serialSegments, executeSerial, hT, hT']
      exact ⟨rfl, trivial⟩
    | ok r =>
      simp only [hT] at hmiss
      have hrest' := ih htasks₁ hpending₁ hmiss.2
      simp only [serialSegments, executeSerial, hT, hT', hrest'.1, hrest'.2]
      exact ⟨rfl, trivial⟩

/-- Segments in which no task finds a result when it starts. -/
theorem Batch.misses_of_lookups {b : Batch} {segments : List ℕ}
    (h : ∀ pre i req, pre ++ [i] <+: segments → requests[i]? = some req →
      (b.run P ex reg requests outcomes pre).tasks i = .queued →
      ex.lookup P (b.run P ex reg requests outcomes pre).cache req = none) :
    b.Misses P ex reg requests outcomes segments := by
  induction segments generalizing b with
  | nil => trivial
  | cons i segments ih =>
    refine ⟨fun req hi => h [] i req ⟨segments, rfl⟩ hi, ih fun pre j req hpre hj => ?_⟩
    exact h (i :: pre) j req (List.cons_prefix_cons.mpr ⟨rfl, hpre⟩) hj

end Lockstep

namespace ToolExecutor

variable {P : Platform} {ex : ToolExecutor}

/-! ## Runs with the cache and without -/

variable (P ex) in
/-- No request of the operation starts after a success with its cache key in the log. -/
def State.StartsFresh (s : State) : Op → Prop
  | .batch requests outcomes schedule => ∀ pre i req,
      pre ++ [i] <+: ex.batchSegments P s.registry requests outcomes schedule s.cache →
      requests[i]? = some req → (s.batchAt P ex requests outcomes pre).tasks i = .queued →
      ex.enable_cache = true → ∀ su ∈ s.logAt P ex requests outcomes pre,
        su.req.cacheKey P ≠ req.cacheKey P
  | _ => True

/-- An operation in which every request starts fresh comes to the same with the cache and without:
the same results, or the same exception, and the same calls in the same order. -/
theorem State.step_cacheless {s t : State} (hs : s.cache = ex.remember P .empty s.log)
    (hreg : t.registry = s.registry) {op : Op} (hfresh : s.StartsFresh P ex op) :
    (ex.step P s op).2 = (ex.cacheless.step P t op).2 := by
  cases op with
  | registry op => rfl
  | clearCache => rfl
  | batch requests outcomes schedule =>
    -- Every task that starts in this batch misses the cache, as all its calls are fresh.
    have hmiss : (Batch.start s.cache).Misses P ex s.registry requests outcomes
        (ex.batchSegments P s.registry requests outcomes schedule s.cache) :=
      Batch.misses_of_lookups fun pre i req hpre hi hqueued => by
        rw [← State.batchAt, cache_batchAt hs]
        exact lookup_none.mpr (hfresh pre i req hpre hi hqueued)
    have htasks : (Batch.start t.cache).tasks = (Batch.start s.cache).tasks := rfl
    have hout : (ex.cacheless.executeBatch P s.registry requests outcomes schedule t.cache).1 =
          (ex.executeBatch P s.registry requests outcomes schedule s.cache).1 ∧
        ex.cacheless.batchSegments P s.registry requests outcomes schedule t.cache =
          ex.batchSegments P s.registry requests outcomes schedule s.cache := by
      -- The mode is the same without a cache, and so are the tasks in it.
      have hmode : ex.cacheless.parallel = ex.parallel := rfl
      cases hparallel : ex.parallel with
      | true =>
        simp only [batchSegments, hparallel, if_true] at hmiss
        simp only [executeBatch, batchSegments, hmode, hparallel, if_true]
        refine ⟨?_, rfl⟩
        have htasks' : ((Batch.start t.cache).run P ex.cacheless s.registry requests outcomes
            (schedule ++ ex.cacheless.finishing requests)).tasks = _ :=
          (Batch.run_cacheless htasks hmiss).1
        rw [executeParallel, executeParallel, htasks']
      | false =>
        simp only [batchSegments, hparallel, Bool.false_eq_true, if_false] at hmiss
        simp only [executeBatch, batchSegments, hmode, hparallel, Bool.false_eq_true, if_false]
        exact (executeSerial_cacheless htasks (Batch.pending_start requests s.cache) hmiss).symm
    simp only [step, hreg, hout.1, hout.2, (Batch.run_cacheless htasks hmiss).2]

/-- Only requests whose call has not succeeded run their tool, whatever the tool declares: a request
of a registered tool that is not idempotent runs the tool's `execute` if and only if an attempt is
allowed, the limit of an attempt leaves it time, and, with the cache on, no success since the last
`clear_cache` has its cache key. In a run in which every request starts so, switching the cache on
changes neither the results nor the calls of `execute` and their order, whatever the calls do to the
world. -/
theorem executed_iff_fresh (idempotent : Tool → Bool) (reg : ToolRegistry) (ops : List Op) :
    (∀ requests outcomes schedule pre i name arguments tool,
      let s := ex.stateAfter P reg ops
      let segments := ex.batchSegments P s.registry requests outcomes schedule s.cache
      requests[i]? = some ⟨name, .dict arguments⟩ → pre ++ [i] <+: segments →
      (s.batchAt P ex requests outcomes pre).tasks i = .queued →
      s.registry.get name = .ok (some tool) → idempotent tool = false →
      (s.Executes P ex requests outcomes segments pre i ⟨tool, arguments, 0⟩ ↔
        (0 ≤ ex.max_retries ∧ ex.startsCall P tool = true) ∧ (ex.enable_cache = true →
          ∀ su ∈ s.logAt P ex requests outcomes pre,
            su.req.cacheKey P ≠ (⟨name, .dict arguments⟩ : ToolCallRequest).cacheKey P))) ∧
    (Machine.EveryStep (ex.step P) (State.StartsFresh P ex) { registry := reg } ops →
      Machine.outputs (ex.step P) { registry := reg } ops =
        Machine.outputs (ex.cacheless.step P) { registry := reg } ops) := by
  refine ⟨fun requests outcomes schedule pre i name arguments tool hi hpre hqueued htool _ => ?_,
    fun hfresh => ?_⟩
  -- The first part is about one task at its start.
  · exact State.executes_iff (cache_stateAfter reg ops) hi hpre hqueued htool
  -- The two executors are kept together by their registry, and the cache by its log of successes.
  · let R (s t : State) : Prop := t.registry = s.registry ∧ s.cache = ex.remember P .empty s.log
    have hstep : ∀ s t op, R s t → s.StartsFresh P ex op →
        (ex.step P s op).2 = (ex.cacheless.step P t op).2 ∧
          R (ex.step P s op).1 (ex.cacheless.step P t op).1 := by
      rintro s t op ⟨hreg, hs⟩ hop
      refine ⟨State.step_cacheless hs hreg hop, ?_, cache_step hs op⟩
      cases op with
      | registry op => exact congrArg (fun reg => (ToolRegistry.step reg op).1) hreg
      | batch requests outcomes schedule => exact hreg
      | clearCache => exact hreg
    exact Machine.outputs_eq_of_simulation hstep ⟨rfl, (ex.remember_nil P .empty).symm⟩ hfresh

/-- A tool that is run, and once more after `clear_cache`. -/
theorem executed_iff_fresh_cleared :
    (caching.stateAfter .bare (ToolRegistry.empty.register read) []).Executes .bare caching
        [readRequest] (fun _ _ => .ok {}) [0, 0] [] 0 ⟨read, [], 0⟩ ∧
      Machine.outputs (caching.step .bare) { registry := ToolRegistry.empty.register read }
          [readBatch, .clearCache, readBatch] =
        Machine.outputs (caching.cacheless.step .bare)
          { registry := ToolRegistry.empty.register read } [readBatch, .clearCache, readBatch] := by
  -- In a batch of one request, the request starts with the first of its two segments.
  have hfresh : ({ registry := ToolRegistry.empty.register read } : State).StartsFresh .bare caching
      readBatch := by
    intro pre i req hpre hi hqueued _
    have hsegments : pre ++ [i] <+: [0, 0] := hpre
    obtain ⟨rfl, rfl⟩ | ⟨rfl, rfl⟩ : (pre = [] ∧ i = 0) ∨ (pre = [0] ∧ i = 0) := by
      rcases pre with _ | ⟨a, _ | ⟨b, pre⟩⟩ <;> simp_all [List.cons_prefix_cons]
    · exact fun su hsu => nomatch hsu
    · cases hqueued
  have hmain := fun ops => @executed_iff_fresh .bare caching (fun _ => false)
    (ToolRegistry.empty.register read) ops
  constructor
  · exact ((hmain []).1 [readRequest] _ [] [] 0 _ [] read rfl ⟨[0], rfl⟩ rfl rfl rfl).mpr
      (by decide)
  · exact (hmain _).2 ⟨hfresh, trivial, hfresh, trivial⟩

/-- A tool that is called twice and run once: the second call has the answer of the first, while
without the cache it has its own. -/
theorem second_call_not_run :
    Machine.outputs (caching.step .bare) { registry := ToolRegistry.empty.register read }
        [readBatch, .batch [readRequest] (fun _ _ => .ok { content := "two" }) []] =
      [(.ok [cachedRead], [⟨read, [], 0⟩]), (.ok [cachedRead], [])] ∧
    Machine.outputs (caching.cacheless.step .bare) { registry := ToolRegistry.empty.register read }
        [readBatch, .batch [readRequest] (fun _ _ => .ok { content := "two" }) []] =
      [(.ok [cachedRead], [⟨read, [], 0⟩]),
        (.ok [{ cachedRead with content := "two" }], [⟨read, [], 0⟩])] := by
  decide

end ToolExecutor

end YellowBull
