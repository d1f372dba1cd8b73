import YellowBull.ToolExecutor.Runs

/-!
# Which requests run their tool

A request whose task has started is done when the batch returns, in both modes
(`ToolExecutor.tasks_batchSegments`), and it runs the `execute` of its tool unless a success with
its cache key is in the log when it starts, no attempt is allowed, or the limit of an attempt leaves
it no time (`State.executes_iff`).
-/

namespace YellowBull

open Py

/-! ## From the start of a task to its call -/

section Calls

variable {P : Platform} {ex : ToolExecutor} {reg : ToolRegistry}
variable {requests : List ToolCallRequest} {outcomes : ℕ → ℕ → Except Exn ToolResult}

/-- A serial batch leaves a task as it was, or done. -/
theorem ToolExecutor.tasks_serialSegments {rest : List ToolCallRequest} {i : ℕ} {b : Batch}
    (hpending : b.Pending requests i rest) (j : ℕ) :
    (b.run P ex reg requests outcomes
        (ex.serialSegments P reg outcomes i rest b.cache)).tasks j = b.tasks j ∨
      ∃ t, (b.run P ex reg requests outcomes
        (ex.serialSegments P reg outcomes i rest b.cache)).tasks j = .done t := by
  induction rest generalizing i b with
  | nil => exact Or.inl rfl
  | cons req rest ih =>
    obtain ⟨-, t, b₁, ⟨hb₁, hT, htask, hothers⟩, hpending₁⟩ :
        requests[i]? = some req ∧ ∃ t b₁, b.Finishes P ex reg requests outcomes i req t b₁ ∧
          b₁.Pending requests (i + 1) rest :=
      hpending.first
    -- The first request finishes its own task and leaves all others.
    have hfirst : b₁.tasks j = b.tasks j ∨ ∃ t, b₁.tasks j = .done t := by
      by_cases hj : j = i
      · exact Or.inr ⟨t, by rw [hj, htask]⟩
      · exact Or.inl (hothers j hj)
    -- An exception ends the batch there, with the tasks behind it still queued.
    cases t with
    | error e =>
      simp only [serialSegments, hT, List.append_nil, hb₁]
      exact hfirst
    | ok r =>
      simp only [serialSegments, hT, Batch.run_append, hb₁]
      rcases ih hpending₁ with hsame | hdone
      · rw [hsame]
        exact hfirst
      · exact Or.inr hdone

variable (P ex reg requests outcomes) in
/-- At the end of a batch, a task of it is done or has not started. -/
theorem ToolExecutor.tasks_batchSegments {i : ℕ} {req : ToolCallRequest}
    (hi : requests[i]? = some req) (schedule : List ℕ) (cache : Cache) :
    ((Batch.start cache).run P ex reg requests outcomes
        (ex.batchSegments P reg requests outcomes schedule cache)).tasks i = .queued ∨
      ∃ t, ((Batch.start cache).run P ex reg requests outcomes
        (ex.batchSegments P reg requests outcomes schedule cache)).tasks i = .done t := by
  unfold batchSegments
  by_cases hparallel : ex.parallel = true
  · rw [if_pos hparallel]
    exact Or.inr (Batch.tasks_done P ex reg outcomes hi cache schedule)
  · rw [if_neg hparallel]
    exact ToolExecutor.tasks_serialSegments (Batch.pending_start requests cache) i

/-- A call ends where its task awaits it, under a limit that lets it start. -/
theorem Batch.tasks_of_invocation {b : Batch} {i : ℕ} {call : Invocation}
    (h : b.invocation? P ex requests i = some call) :
    b.tasks i = .calling call.tool call.attempt ∧ ex.startsCall P call.tool = true := by
  unfold Batch.invocation? at h
  split at h
  next htask =>
    split at h
    next hstarts =>
      obtain rfl := Option.some.inj h
      exact ⟨htask, hstarts⟩
    next => cases h
  next => cases h

/-- A task that is not done, but is in the end, has a segment at which it is still where it was. -/
theorem Batch.exists_segment {i : ℕ} {b : Batch} {task : Task} (htask : b.tasks i = task)
    {segments : List ℕ} {t : Except Exn ExecutionResult} (hne : task ≠ .done t)
    (hdone : (b.run P ex reg requests outcomes segments).tasks i = .done t) :
    ∃ pre, pre ++ [i] <+: segments ∧ (b.run P ex reg requests outcomes pre).tasks i = task := by
  induction segments generalizing b with
  | nil => exact absurd (htask.symm.trans hdone) hne
  | cons j segments ih =>
    by_cases hj : i = j
    · subst hj
      exact ⟨[], ⟨segments, rfl⟩, htask⟩
    · obtain ⟨pre, hpre, hat⟩ := ih (by rw [Batch.step_of_ne hj, htask]) hdone
      exact ⟨j :: pre, List.cons_prefix_cons.mpr ⟨rfl, hpre⟩, hat⟩

end Calls

namespace ToolExecutor

variable {P : Platform} {ex : ToolExecutor}

variable (P ex) in
/-- From the moment `pre` of a batch on, a segment of the task at position `i` ends the call. -/
def State.Executes (s : State) (requests : List ToolCallRequest)
    (outcomes : ℕ → ℕ → Except Exn ToolResult) (segments pre : List ℕ) (i : ℕ)
    (call : Invocation) : Prop :=
  ∃ pre', pre <+: pre' ∧ pre' ++ [i] <+: segments ∧
    (s.batchAt P ex requests outcomes pre').invocation? P ex requests i = some call

section Executes

variable {s : State} {requests : List ToolCallRequest} {outcomes : ℕ → ℕ → Except Exn ToolResult}
variable {segments pre : List ℕ} {i : ℕ} {name : Val} {arguments : Dict} {tool : Tool}

/-- A task that is done stays as it is for the rest of the batch. -/
theorem State.done_append {req : ToolCallRequest} (hi : requests[i]? = some req)
    {t : Except Exn ExecutionResult}
    (hdone : (s.batchAt P ex requests outcomes pre).tasks i = .done t) (rest : List ℕ) :
    (s.batchAt P ex requests outcomes (pre ++ rest)).tasks i = .done t := by
  rw [State.batchAt_append]
  exact Batch.done_run hi hdone rest

/-- A task that its first segment ends makes no call. -/
theorem State.not_executes_of_done (hi : requests[i]? = some ⟨name, .dict arguments⟩)
    (hpre : pre ++ [i] <+: segments)
    (hqueued : (s.batchAt P ex requests outcomes pre).tasks i = .queued)
    {t : Except Exn ExecutionResult}
    (hdone : (s.batchAt P ex requests outcomes (pre ++ [i])).tasks i = .done t)
    (call : Invocation) : ¬ s.Executes P ex requests outcomes segments pre i call := by
  rintro ⟨pre', hle, hpre', hcall⟩
  have hne : pre ≠ pre' := by
    rintro rfl
    rw [(Batch.tasks_of_invocation hcall).1] at hqueued
    cases hqueued
  -- The call ends after the first segment, at which the task is done.
  have hlt : pre.length < pre'.length := by
    refine Nat.lt_of_le_of_ne hle.length_le fun hlen => hne ?_
    exact hle.eq_of_length hlen
  obtain ⟨rest, rfl⟩ : pre ++ [i] <+: pre' := by
    refine List.prefix_of_prefix_length_le hpre ((List.prefix_append pre' [i]).trans hpre') ?_
    rw [List.length_append, List.length_singleton]
    exact hlt
  have hstays : (s.batchAt P ex requests outcomes (pre ++ [i] ++ rest)).tasks i = .done t :=
    State.done_append hi hdone rest
  rw [(Batch.tasks_of_invocation hcall).1] at hstays
  cases hstays

/-- A task that its first segment brings to an attempt makes the call of it, under a limit that lets
it start. -/
theorem State.executes_of_calling {schedule : List ℕ} (hstarts : ex.startsCall P tool = true)
    (hi : requests[i]? = some ⟨name, .dict arguments⟩)
    (hpre : pre ++ [i] <+: ex.batchSegments P s.registry requests outcomes schedule s.cache)
    (hcalling : (s.batchAt P ex requests outcomes (pre ++ [i])).tasks i = .calling tool 0) :
    s.Executes P ex requests outcomes
      (ex.batchSegments P s.registry requests outcomes schedule s.cache) pre i
      ⟨tool, arguments, 0⟩ := by
  obtain ⟨rest, hrest⟩ := hpre
  -- A task that was started does not return to the queue.
  have hsound : (s.batchAt P ex requests outcomes (pre ++ [i])).Sound P ex s.registry requests
      outcomes := (Batch.sound_start s.cache).run (pre ++ [i])
  have hcall : ((s.batchAt P ex requests outcomes (pre ++ [i])).tasks i).Sound P ex s.registry
      ⟨name, .dict arguments⟩ (outcomes i) := hsound i _ hi
  rw [hcalling] at hcall
  have hfollows : (((s.batchAt P ex requests outcomes (pre ++ [i])).run P ex s.registry requests
      outcomes rest).tasks i).Follows P ex ⟨name, .dict arguments⟩ (outcomes i)
        (ex.execution P s.registry ⟨name, .dict arguments⟩ (outcomes i)) :=
    Batch.follows_run hi (by rw [hcalling]; exact hcall.2) rest
  have hend : (s.batchAt P ex requests outcomes (pre ++ [i])).run P ex s.registry requests outcomes
      rest = (Batch.start s.cache).run P ex s.registry requests outcomes
        (ex.batchSegments P s.registry requests outcomes schedule s.cache) := by
    rw [← hrest, ← State.batchAt_append]
    rfl
  obtain ⟨t, ht⟩ : ∃ t, ((s.batchAt P ex requests outcomes (pre ++ [i])).run P ex s.registry
      requests outcomes rest).tasks i = .done t := by
    rw [hend] at hfollows ⊢
    rcases tasks_batchSegments P ex s.registry requests outcomes hi schedule s.cache with h | h
    · rw [h] at hfollows
      exact hfollows.elim
    · exact h
  obtain ⟨mid, hmid, hat⟩ := Batch.exists_segment hcalling (by simp) ht
  refine ⟨pre ++ [i] ++ mid, ?_, ?_, ?_⟩
  · rw [List.append_assoc]
    exact List.prefix_append pre _
  · rw [← hrest, List.append_assoc (pre ++ [i])]
    exact (List.prefix_append_right_inj _).mpr hmid
  · rw [State.batchAt_append]
    simp only [Batch.invocation?, hi, hat, hstarts, if_true]

/-- A request of a registered tool runs the tool's `execute` unless no attempt is allowed, the limit
of an attempt leaves it no time, or the log has a success with its cache key when the request
starts. -/
theorem State.executes_iff (hs : s.cache = ex.remember P .empty s.log) {schedule : List ℕ}
    (hi : requests[i]? = some ⟨name, .dict arguments⟩)
    (hpre : pre ++ [i] <+: ex.batchSegments P s.registry requests outcomes schedule s.cache)
    (hqueued : (s.batchAt P ex requests outcomes pre).tasks i = .queued)
    (htool : s.registry.get name = .ok (some tool)) :
    s.Executes P ex requests outcomes
        (ex.batchSegments P s.registry requests outcomes schedule s.cache) pre i
        ⟨tool, arguments, 0⟩ ↔
      (0 ≤ ex.max_retries ∧ ex.startsCall P tool = true) ∧
        (ex.enable_cache = true → ∀ su ∈ s.logAt P ex requests outcomes pre,
          su.req.cacheKey P ≠ (⟨name, .dict arguments⟩ : ToolCallRequest).cacheKey P) := by
  cases hstarts : ex.startsCall P tool with
  | false =>
    -- No attempt of the tool is ever started.
    refine iff_of_false ?_ fun h => Bool.false_ne_true h.1.2
    rintro ⟨pre', -, -, hcall⟩
    have hstarted := (Batch.tasks_of_invocation hcall).2
    rw [hstarts] at hstarted
    cases hstarted
  | true =>
    rcases tasks_start hs hi hqueued with ⟨hen, su, hsu, hkey, hdone⟩ | ⟨hfresh, htask⟩
    · refine ⟨fun h => absurd h (not_executes_of_done hi hpre hqueued hdone _), fun h => ?_⟩
      exact absurd hkey (h.2 hen su hsu)
    · simp only [missed, htool, retryLoop, Nat.lt_irrefl, if_false, Nat.cast_zero] at htask
      split at htask
      next hlt =>
        exact iff_of_true (executes_of_calling hstarts hi hpre htask) ⟨⟨by omega, rfl⟩, hfresh⟩
      next hlt =>
        refine iff_of_false (not_executes_of_done hi hpre hqueued htask _) fun h => hlt ?_
        omega

end Executes

end ToolExecutor

end YellowBull
