import YellowBull.TaskQueue.Lifecycle

/-!
# The pool of workers

How many workers there are, and which of them still serve the queue. A worker looks at `_running`
only between two tasks, and `start` does not look at the workers of an earlier `start`, so that at
most `max_workers` functions are in execution as long as each `start` of a stopped queue finds the
earlier workers over (`executing_le`). A worker whose task ends in an exception that is no
`Exception` is lost, and the task keeps the status `RUNNING`; without such tasks the workers of a
`start` serve the queue until the next `stop` (`serves_until_stop`).
-/

namespace YellowBull

open Py

namespace TaskQueue

variable {φ α : Type}

/-! ## The concurrency bound -/

/-- The number of task functions in execution. -/
def executing (q : TaskQueue φ α) : ℕ := q.workers.countP Worker.isExecuting

/-- The number of worker loops that are not over. -/
def alive (q : TaskQueue φ α) : ℕ := q.workers.countP fun s => ¬ s.Over

/-- A stopped queue is started only when all its worker loops are over. -/
def StartsClean (q : TaskQueue φ α) : Event φ α → Prop
  | .start => q.running = false → ∀ s ∈ q.workers, s.Over
  | _ => True

instance (q : TaskQueue φ α) : DecidablePred q.StartsClean
  | .start => inferInstanceAs (Decidable (q.running = false → ∀ s ∈ q.workers, s.Over))
  | .stop _ | .stopped _ | .submit _ _ _ _ | .begin _ | .take _ _ | .timeout _ | .finish _ _ _ =>
    .isTrue trivial

/-- A function in execution has a worker. -/
theorem executing_le_alive (q : TaskQueue φ α) : q.executing ≤ q.alive := by
  refine List.countP_mono_left fun s _ hs => ?_
  cases s with
  | executing item k => simp [Worker.Over]
  | _ => cases hs

/-- A step of a worker that is not over makes no other worker. -/
theorem alive_set_le {q q' : TaskQueue φ α} {w : ℕ} {s s' : Worker φ}
    (hw : q.workers[w]? = some s) (hs : ¬ s.Over) (hq' : q'.workers = q.workers.set w s') :
    q'.alive ≤ q.alive := by
  obtain ⟨hlt, hget⟩ := List.getElem?_eq_some_iff.mp hw
  unfold alive
  rw [hq', List.countP_set hlt, hget]
  have hpos : 0 < q.workers.countP fun s => ¬ s.Over :=
    List.countP_pos_iff.mpr ⟨s, List.mem_of_getElem? hw, by simpa using hs⟩
  simp only [hs, not_false_eq_true, decide_true, if_true]
  split <;> omega

/-- A step that starts cleanly keeps the bound on the workers. -/
theorem alive_step {q q' : TaskQueue φ α} {e : Event φ α} (hok : q.StartsClean e)
    (hstep : q.step e = some q') (hle : q.alive ≤ q.max_workers.toNat) :
    q'.max_workers = q.max_workers ∧ q'.alive ≤ q.max_workers.toNat := by
  cases step_cases hstep with
  | start =>
    unfold start
    by_cases hrunning : q.running = true
    · rw [if_pos hrunning]
      exact ⟨rfl, hle⟩
    · rw [if_neg hrunning]
      refine ⟨rfl, ?_⟩
      -- No earlier worker is left beside the new ones.
      have hover : q.workers.countP (fun s => ¬ s.Over) = 0 := by
        refine List.countP_eq_zero.mpr fun s hs => ?_
        simpa using hok (by simpa using hrunning) s hs
      have hnew : (List.replicate q.max_workers.toNat (Worker.created : Worker φ)).countP
          (fun s => ¬ s.Over) ≤ q.max_workers.toNat := List.countP_le_length.trans (by simp)
      rw [alive, List.countP_append, hover, Nat.zero_add]
      exact hnew
  | begin hw => exact ⟨rfl, (alive_set_le hw (by simp [Worker.Over]) rfl).trans hle⟩
  | timeout hw => exact ⟨rfl, (alive_set_le hw (by simp [Worker.Over]) rfl).trans hle⟩
  | take now hw => exact ⟨rfl, (alive_set_le hw (by simp [Worker.Over]) rfl).trans hle⟩
  | unknown now hw => exact ⟨rfl, (alive_set_le hw (by simp [Worker.Over]) rfl).trans hle⟩
  | finish now hw => exact ⟨rfl, (alive_set_le hw (by simp [Worker.Over]) rfl).trans hle⟩
  | lost now hw => exact ⟨rfl, (alive_set_le hw (by simp [Worker.Over]) rfl).trans hle⟩
  | _ => exact ⟨rfl, hle⟩

/-- The concurrency bound, for runs in which a stopped queue is started only when its earlier
workers are over. -/
theorem executing_le {n : ℤ} {es : List (Event φ α)} {q : TaskQueue φ α}
    (hrun : run (init n) es = some q)
    (hok : Machine.EveryRunStep step StartsClean (init n) es) :
    (q.executing : ℤ) ≤ max n 0 := by
  have hinv : q.max_workers = n ∧ q.alive ≤ n.toNat := by
    refine Machine.run_invariant (fun q => q.max_workers = n ∧ q.alive ≤ n.toNat) ?_ ?_ hok hrun
    · rintro s e s' ⟨rfl, hle⟩ hok hstep
      exact alive_step hok hstep hle
    · exact ⟨rfl, Nat.zero_le _⟩
  have hle := q.executing_le_alive.trans hinv.2
  omega

/-- When a `stop(wait=True)` returns that gathers all workers, a `start` is clean. -/
theorem over_of_stopped {q q' : TaskQueue φ α}
    (hstep : q.step (.stopped q.workers.length) = some q') : ∀ s ∈ q'.workers, s.Over := by
  simp only [step, List.take_length] at hstep
  split at hstep
  next h =>
    cases hstep
    exact h.2
  next => cases hstep

/-- A `stop(wait=True)` that has returned before the next `start`. -/
def cleanRun : List (Event ℕ ℕ) :=
  [.start, .begin 0, .submit 7 none "a" 0, .submit 8 none "b" 0, .take 0 1, .stop true,
    .finish 0 (.ok 3) 2, .stopped 1, .start, .begin 1, .take 1 3]

/-- The bound holds in its last state. -/
theorem executing_le_cleanRun :
    ∃ q, run (init 1) cleanRun = some q ∧ (q.executing : ℤ) ≤ max 1 0 :=
  ⟨_, rfl, executing_le (show run (init 1) cleanRun = some _ from rfl) (by decide)⟩

/-- A `stop(wait=False)` during a task: the next `start` adds a worker to the one at work. -/
theorem executing_gt_of_unclean :
    ∃ q : TaskQueue ℕ ℕ, run (init 1) [.start, .begin 0, .submit 7 none "a" 0, .take 0 1,
      .stop false, .start, .begin 1, .submit 8 none "b" 2, .take 1 3] = some q ∧
      ¬ (q.executing : ℤ) ≤ max 1 0 :=
  ⟨_, rfl, by decide⟩

/-! ## Workers that serve the queue -/

/-- The worker awaits the next item, and takes it if there is one. -/
def CanTake (q : TaskQueue φ α) (w : ℕ) : Prop :=
  q.workers[w]? = some .getting ∧ ∀ item rest now, q.queue = item :: rest →
    ∃ q' k, q.step (.take w now) = some q' ∧ q'.Executes w item k

/-- The worker can take the next item, now or after the next step of its own, whatever way its
function ends that is no loss. -/
inductive Serves (q : TaskQueue φ α) (w : ℕ) : Prop
  | getting (h : q.CanTake w)
  | created (q' : TaskQueue φ α) (hstep : q.step (.begin w) = some q') (h : q'.CanTake w)
  | executing (item : QueueItem φ) (k : Ref) (hexec : q.Executes w item k)
    (h : ∀ outcome now, (Event.finish w outcome now : Event φ α).Catchable →
      ∃ q', q.step (.finish w outcome now) = some q' ∧ q'.CanTake w)

/-- Each id that waits in the queue has a `TaskResult`. -/
def Registered (q : TaskQueue φ α) : Prop :=
  ∀ item ∈ q.queue, ∃ k, q.results.get? item.tid = some k

/-- The table only grows. -/
theorem results_step {q q' : TaskQueue φ α} {e : Event φ α} (hstep : q.step e = some q')
    {tid : String} (h : ∃ k, q.results.get? tid = some k) :
    ∃ k, q'.results.get? tid = some k := by
  cases step_cases hstep with
  | start =>
    unfold start
    split <;> exact h
  | submit fn task_id uuid now =>
    show ∃ k, (q.results.set _ q.heap.next).get? tid = some k
    rw [OrderedMap.get?_set, Function.update_apply]
    split
    · exact ⟨_, rfl⟩
    · exact h
  | _ => exact h

/-- An event leaves the queued ids registered. -/
theorem registered_step {q q' : TaskQueue φ α} {e : Event φ α} (hstep : q.step e = some q')
    (h : q.Registered) : q'.Registered := by
  intro item hitem
  -- An item of the queue was there before, or is submitted with its `TaskResult`.
  obtain ⟨taken, htaken⟩ := queue_step hstep
  have hmem : item ∈ q.queue ++ e.submission?.toList := by
    rw [← htaken]
    exact List.mem_append_right taken hitem
  rcases List.mem_append.mp hmem with hold | hnew
  · exact results_step hstep (h item hold)
  · cases e with
    | submit fn task_id uuid now =>
      cases hstep
      obtain rfl : item = ⟨(truthy? task_id).getD uuid, fn⟩ := by
        simpa [Event.submission?] using hnew
      exact ⟨_, OrderedMap.get?_set_self ..⟩
    | _ => simp [Event.submission?] at hnew

/-- A worker that awaits an item takes the next one, which is registered. -/
theorem Registered.canTake {q : TaskQueue φ α} (h : q.Registered) {w : ℕ}
    (hw : q.workers[w]? = some .getting) : q.CanTake w := by
  refine ⟨hw, fun item rest now hqueue => ?_⟩
  have hlt : w < q.workers.length := (List.getElem?_eq_some_iff.mp hw).1
  obtain ⟨k, hk⟩ := h item (by simp [hqueue])
  have hstep : q.step (.take w now) = some ({ q with queue := rest }.beginTask w item now) := by
    simp only [step, hw, hqueue]
  simp only [beginTask, hk] at hstep
  refine ⟨_, k, hstep, ?_⟩
  exact List.getElem?_set_self hlt

/-- A worker that is in the loop of a running queue serves it. -/
theorem Registered.serves {q : TaskQueue φ α} (h : q.Registered) (hrunning : q.running = true)
    {w : ℕ} {s : Worker φ} (hw : q.workers[w]? = some s) (hs : ¬ s.Over) : q.Serves w := by
  have hlt : w < q.workers.length := (List.getElem?_eq_some_iff.mp hw).1
  -- While the flag is on, the head of the loop leads to the queue again.
  have hhead : (q.workers.set w q.loopHead)[w]? = some .getting := by
    rw [List.getElem?_set_self hlt, loopHead, if_pos hrunning]
  cases s with
  | created =>
    have hstep : q.step (.begin w) = some (q.setWorker w q.loopHead) := by simp only [step, hw]
    exact .created _ hstep ((registered_step hstep h).canTake hhead)
  | getting => exact .getting (h.canTake hw)
  -- A task has to end in a way that the handler catches, else the worker is lost.
  | executing item k =>
    refine .executing item k hw fun outcome now hcatch => ?_
    have hstep : q.step (.finish w outcome now) = some (q.endTask w k outcome now) := by
      simp only [step, hw]
    have hworkers : (q.endTask w k outcome now).workers = q.workers.set w q.loopHead := by
      cases outcome with
      | ok value => rfl
      | error e =>
        rw [endTask, if_pos (show e.IsException from hcatch)]
        rfl
    exact ⟨_, hstep, (registered_step hstep h).canTake (hworkers ▸ hhead)⟩
  | ended => exact absurd True.intro hs
  | raised cls => exact absurd True.intro hs

/-- No event changes the number of workers to start. -/
theorem max_workers_step {q q' : TaskQueue φ α} {e : Event φ α} (hstep : q.step e = some q') :
    q'.max_workers = q.max_workers := by
  cases step_cases hstep with
  | start =>
    unfold start
    split <;> rfl
  | _ => rfl

/-- The workers from position `k` on, `n` of them, are in the loop of a running queue. -/
structure Staffed (k n : ℕ) (q : TaskQueue φ α) : Prop where
  running : q.running = true
  registered : q.Registered
  alive : ∀ w, k ≤ w → w < k + n → ∃ s, q.workers[w]? = some s ∧ ¬ s.Over

/-- The new workers of a `start`. -/
theorem staffed_start {q : TaskQueue φ α} (h : q.Registered) (hstopped : q.running = false) :
    q.start.Staffed q.workers.length q.max_workers.toNat := by
  unfold start
  rw [hstopped, if_neg Bool.false_ne_true]
  refine ⟨rfl, h, fun w hk hlt => ⟨.created, ?_, not_false⟩⟩
  show (q.workers ++ List.replicate q.max_workers.toNat .created)[w]? = _
  rw [List.getElem?_append_right hk, List.getElem?_replicate, if_pos (by omega)]

/-- A worker stays in the loop unless it leaves it in this step. -/
theorem alive_set {q q' : TaskQueue φ α} {v w : ℕ} {s' : Worker φ}
    (hq' : q'.workers = q.workers.set v s') (hs' : ¬ s'.Over)
    (h : ∃ s, q.workers[w]? = some s ∧ ¬ s.Over) : ∃ s, q'.workers[w]? = some s ∧ ¬ s.Over := by
  obtain ⟨s, hw, hs⟩ := h
  have hlt : w < q.workers.length := (List.getElem?_eq_some_iff.mp hw).1
  rw [hq']
  by_cases hv : v = w
  · subst hv
    exact ⟨s', List.getElem?_set_self hlt, hs'⟩
  · exact ⟨s, (List.getElem?_set_ne hv).trans hw, hs⟩

/-- A queue stays staffed while it is not stopped and no function ends in an exception that is no
`Exception`. -/
theorem Staffed.step {k n : ℕ} {q q' : TaskQueue φ α} {e : Event φ α} (h : q.Staffed k n)
    (hstop : ∀ wait, e ≠ .stop wait) (hcatch : e.Catchable) (hstep : q.step e = some q') :
    q'.Staffed k n := by
  have hregistered := registered_step hstep h.registered
  have hhead : ¬ q.loopHead.Over := by
    rw [loopHead, if_pos h.running]
    exact not_false
  cases step_cases hstep with
  | start =>
    -- The queue runs already.
    rw [start, if_pos h.running]
    exact h
  | stop wait => exact absurd rfl (hstop wait)
  | stopped => exact ⟨h.running, hregistered, h.alive⟩
  | submit => exact ⟨h.running, hregistered, h.alive⟩
  | begin hw =>
    exact ⟨h.running, hregistered, fun w hk hlt => alive_set rfl hhead (h.alive w hk hlt)⟩
  | timeout hw =>
    exact ⟨h.running, hregistered, fun w hk hlt => alive_set rfl hhead (h.alive w hk hlt)⟩
  | @take w item rest result now hw hqueue hresult =>
    have hexec : ¬ (Worker.executing item result).Over := not_false
    exact ⟨h.running, hregistered, fun w hk hlt => alive_set rfl hexec (h.alive w hk hlt)⟩
  | @unknown w item rest now hw hqueue hresult =>
    obtain ⟨r, hr⟩ := h.registered item (by simp [hqueue])
    rw [hresult] at hr
    cases hr
  | finish now hw =>
    exact ⟨h.running, hregistered, fun w hk hlt => alive_set rfl hhead (h.alive w hk hlt)⟩
  | lost now hw he => exact absurd hcatch he

/-- Where no function ends in an exception that is no `Exception`, a task whose function has ended
did so in a way that the worker records. -/
theorem isException_of_ended {n : ℤ} {es : List (Event φ α)} (hends : ∀ e ∈ es, e.Catchable)
    (hops : JobPool.Orderly (history (init n) es)) {k : ℕ} {item : QueueItem φ}
    {outcome : Except Exn α}
    (hk : (JobPool.replay (history (init n) es)).jobs[k]? = some (item, .begun (.ended outcome))) :
    ∀ e, outcome = .error e → e.IsException := by
  rintro e rfl
  have hmem := hops.mem_finished_iff.mpr (List.mem_of_getElem? (JobPool.jobs_begun_iff.mp hk))
  obtain ⟨w, now, hmem⟩ := exists_finish_of_mem_finished hmem
  exact hends _ hmem

/-- A task cannot kill the pool. From a `start` of a stopped queue on, until the next `stop`, the
workers that it made serve the queue, if no function ends in an exception that is no `Exception`.
If, besides, workers take only latest items, every task whose function has ended has a terminal
status, and the statuses with `completed_at` are the terminal ones. -/
theorem serves_until_stop {n : ℤ} {pre post : List (Event φ α)} {q₀ q : TaskQueue φ α}
    (hpre : run (init n) pre = some q₀) (hstopped : q₀.running = false)
    (hpost : run q₀.start post = some q) (hstop : ∀ e ∈ post, ∀ wait, e ≠ .stop wait)
    (hends : ∀ e ∈ pre ++ .start :: post, e.Catchable) :
    (∀ w, q₀.workers.length ≤ w → w < q₀.workers.length + n.toNat → q.Serves w) ∧
      (Machine.EveryRunStep step TakesLatest (init n) (pre ++ .start :: post) →
        (∀ k item outcome,
          (JobPool.replay (history (init n) (pre ++ .start :: post))).jobs[k]? =
              some (item, .begun (.ended outcome)) →
            (q.heap.read k).status.Terminal) ∧
        ∀ tid record, q.getStatus tid = some record →
          (record.completed_at.isSome ↔ record.status.Terminal)) := by
  constructor
  -- A worker of this start stays alive through every step, since no stop comes in between.
  · intro w hk hlt
    obtain ⟨hregistered, rfl⟩ : q₀.Registered ∧ q₀.max_workers = n := by
      refine Machine.run_invariant (fun q => q.Registered ∧ q.max_workers = n) ?_ ?_
        (.trivial step _ _) hpre
      · rintro s e s' ⟨hs, hn⟩ - hstep
        exact ⟨registered_step hstep hs, (max_workers_step hstep).trans hn⟩
      · exact ⟨fun item hitem => (List.not_mem_nil hitem).elim, rfl⟩
    have hstaffed : q.Staffed q₀.workers.length q₀.max_workers.toNat := by
      have hok : Machine.EveryRunStep step
          (fun _ e => (∀ wait, e ≠ .stop wait) ∧ e.Catchable) q₀.start post :=
        .of_forall step (fun e he => ⟨hstop e he, hends e (by simp [he])⟩) _
      exact Machine.run_invariant _ (fun s e s' hs hok hstep => hs.step hok.1 hok.2 hstep)
        (staffed_start hregistered hstopped) hok hpost
    obtain ⟨s, hw, hs⟩ := hstaffed.alive w hk hlt
    exact hstaffed.registered.serves hstaffed.running hw hs
  -- The second part is the refinement's: a job that has ended shows a terminal record.
  · intro hok
    have hrun : run (init n) (pre ++ .start :: post) = some q := by
      rw [run, Machine.run_append, show Machine.run step (init n) pre = some q₀ from hpre]
      exact hpost
    obtain ⟨hops, h⟩ := refines_run hok hrun
    refine ⟨fun k item outcome hk => ?_, fun tid record hget => ?_⟩
    · exact (h.shows k item _ hk).terminal (isException_of_ended hends hops hk)
    · obtain ⟨k, item, stage, -, hk, hshows⟩ := h.exists_job hget
      rw [hshows.completed_iff]
      constructor
      · rintro ⟨outcome, rfl⟩
        exact hshows.terminal (isException_of_ended hends hops hk)
      · exact hshows.ended_of_terminal

/-- A task that fails, and one at work, after a restart. -/
def servedRun : List (Event ℕ ℕ) :=
  [.begin 1, .submit 7 none "a" 0, .take 1 1, .finish 1 (.error ⟨.other, "boom"⟩) 2,
    .submit 8 none "b" 3, .take 1 4]

/-- The queue serves in its last state. -/
theorem serves_until_stop_servedRun :
    ∃ q₀ q : TaskQueue ℕ ℕ, run (init 1) [.start, .stop true] = some q₀ ∧
      run q₀.start servedRun = some q ∧ q.Serves 1 ∧
      ∀ tid record, q.getStatus tid = some record →
        (record.completed_at.isSome ↔ record.status.Terminal) := by
  have hpre : run (init 1 : TaskQueue ℕ ℕ) [.start, .stop true] =
      some ((init 1).start.stop true) := rfl
  have hpost : run ((init 1).start.stop true).start servedRun = some _ := rfl
  obtain ⟨hserves, hrecords⟩ := serves_until_stop hpre rfl hpost (by simp [servedRun]) (by decide)
  exact ⟨_, _, hpre, hpost, hserves 1 (by decide) (by decide), (hrecords (by decide)).2⟩

/-- A task whose function ends in a `CancelledError` takes its worker with it, and keeps the status
`RUNNING`. -/
theorem not_serves_of_cancelled :
    ∃ q : TaskQueue ℕ ℕ, run (init 1) [.start, .begin 0, .submit 7 none "a" 0, .take 0 1,
        .finish 0 (.error ⟨.cancelledError, ""⟩) 2] = some q ∧ q.running = true ∧
      ¬ q.Serves 0 ∧ ∃ record, q.getStatus "a" = some record ∧
        record.completed_at.isSome ∧ ¬ record.status.Terminal := by
  refine ⟨_, rfl, rfl, ?_, _, rfl, rfl, by decide⟩
  rintro (h | ⟨q', hstep, -⟩ | ⟨item, k, hexec, -⟩)
  · cases h.1
  · cases hstep
  · cases hexec

end TaskQueue

end YellowBull
