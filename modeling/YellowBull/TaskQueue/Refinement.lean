import YellowBull.TaskQueue

/-!
# The task queue refines a pool of jobs

The `k`-th call of `submit` makes the `k`-th `TaskResult` object and the `k`-th job of the pool, and
`Refines` says that the object shows the stage of the job, that the table leads from an id to the
object of its latest submission, and that a worker holds just the job that it executes. A worker
finds its `TaskResult` through the table, by id, so that a step keeps the relation only if the item
it takes is the latest of its id (`TakesLatest`).
-/

namespace YellowBull

open Py

/-- What the `TaskResult` of a task shows when the task is at a stage. An exception that is no
`Exception` leaves the status behind. -/
def TaskResult.Shows {φ α : Type} (record : TaskResult α) (item : QueueItem φ)
    (stage : Stage ℕ (Except Exn α)) : Prop :=
  record.task_id = item.tid ∧
  match stage with
  | .waiting =>
    record.status = .pending ∧ record.started_at = none ∧ record.completed_at = none ∧
      record.result = none ∧ record.error = none
  | .begun (.held _) =>
    record.status = .running ∧ record.started_at.isSome ∧ record.completed_at = none ∧
      record.result = none ∧ record.error = none
  | .begun (.ended (.ok value)) =>
    record.status = .completed ∧ record.started_at.isSome ∧ record.completed_at.isSome ∧
      record.result = some value ∧ record.error = none
  | .begun (.ended (.error e)) =>
    record.status = (if e.IsException then .failed else .running) ∧ record.started_at.isSome ∧
      record.completed_at.isSome ∧ record.result = none ∧
      record.error = if e.IsException then some e.text else none

section Shows

variable {φ α : Type} {record : TaskResult α} {item : QueueItem φ}

/-- The start of the function. -/
theorem TaskResult.Shows.start (h : record.Shows item .waiting) (w : ℕ) (now : Time) :
    ({ record with status := .running, started_at := some now } : TaskResult α).Shows item
      (.begun (.held w)) := by
  obtain ⟨hid, -, -, hcompleted, hresult, herror⟩ := h
  exact ⟨hid, rfl, rfl, hcompleted, hresult, herror⟩

/-- The end of the function. -/
theorem TaskResult.Shows.finish {w : ℕ} (h : record.Shows item (.begun (.held w)))
    (outcome : Except Exn α) (now : Time) :
    (record.finish outcome now).Shows item (.begun (.ended outcome)) := by
  obtain ⟨hid, hstatus, hstarted, -, hresult, herror⟩ := h
  cases outcome with
  | ok value => exact ⟨hid, rfl, hstarted, rfl, rfl, herror⟩
  | error e =>
    by_cases he : e.IsException
    · simp [Shows, TaskResult.finish, he, hid, hstarted, hresult]
    · simp [Shows, TaskResult.finish, he, hid, hstatus, hstarted, hresult, herror]

/-- A terminal status is shown only by a task whose function has ended, in a way that the worker
records. -/
theorem TaskResult.Shows.ended_of_terminal {stage : Stage ℕ (Except Exn α)}
    (h : record.Shows item stage) (hterminal : record.status.Terminal) :
    ∃ outcome, stage = .begun (.ended outcome) := by
  obtain ⟨-, h⟩ := h
  cases stage with
  | waiting => simp [TaskStatus.Terminal, h.1] at hterminal
  | begun progress =>
    cases progress with
    | held w => simp [TaskStatus.Terminal, h.1] at hterminal
    | ended outcome => exact ⟨outcome, rfl⟩

/-- `completed_at` is set when the function has ended. -/
theorem TaskResult.Shows.completed_iff {stage : Stage ℕ (Except Exn α)}
    (h : record.Shows item stage) :
    record.completed_at.isSome ↔ ∃ outcome, stage = .begun (.ended outcome) := by
  obtain ⟨-, h⟩ := h
  rcases stage with _ | _ | _ | _ <;> simp [h.2.2.1]

/-- A function that returned or raised an `Exception` leaves a terminal status. -/
theorem TaskResult.Shows.terminal {outcome : Except Exn α}
    (h : record.Shows item (.begun (.ended outcome)))
    (hcaught : ∀ e, outcome = .error e → e.IsException) : record.status.Terminal := by
  obtain ⟨-, hstatus⟩ := h
  cases outcome with
  | ok value => exact Or.inl hstatus.1
  | error e => exact Or.inr (hstatus.1.trans (if_pos (hcaught e rfl)))

/-- The `TaskResult`s of two tasks at one stage agree on the status and on what the function left.
-/
theorem TaskResult.Shows.agree {record' : TaskResult α} {item' : QueueItem φ}
    {stage : Stage ℕ (Except Exn α)} (h : record.Shows item stage)
    (h' : record'.Shows item' stage) :
    record'.status = record.status ∧ record'.result = record.result ∧
      record'.error = record.error := by
  obtain ⟨-, h⟩ := h
  obtain ⟨-, h'⟩ := h'
  -- Each stage says what the three fields are.
  rcases stage with _ | _ | _ | _ <;>
    exact ⟨h'.1.trans h.1.symm, h'.2.2.2.1.trans h.2.2.2.1.symm, h'.2.2.2.2.trans h.2.2.2.2.symm⟩

end Shows

namespace TaskQueue

variable {φ α : Type}

/-! ## The latest submission of an id -/

/-- The item at position `k` is the latest of its id. -/
def Latest (items : List (QueueItem φ)) (tid : String) (k : ℕ) : Prop :=
  (∃ item, items[k]? = some item ∧ item.tid = tid) ∧
    ∀ j item, k < j → items[j]? = some item → item.tid ≠ tid

/-- A further item is the latest of its id, and changes nothing for the others. -/
theorem latest_concat {items : List (QueueItem φ)} {item : QueueItem φ} {tid : String} {k : ℕ} :
    Latest (items ++ [item]) tid k ↔
      if item.tid = tid then k = items.length else Latest items tid k := by
  have hlast : (items ++ [item])[items.length]? = some item := List.getElem?_concat_length
  have hlt {j : ℕ} (hj : j < items.length) : (items ++ [item])[j]? = items[j]? :=
    List.getElem?_append_left hj
  have hle {j : ℕ} {x : QueueItem φ} (hj : (items ++ [item])[j]? = some x) : j ≤ items.length := by
    have := (List.getElem?_eq_some_iff.mp hj).1
    simp only [List.length_append, List.length_singleton] at this
    omega
  -- If the last item has the id, its index is the latest; if not, it changes nothing.
  by_cases hitem : item.tid = tid
  · rw [if_pos hitem]
    constructor
    · rintro ⟨⟨x, hx, -⟩, hlater⟩
      by_contra hne
      have hk := hle hx
      exact hlater items.length item (by omega) hlast hitem
    · rintro rfl
      refine ⟨⟨item, hlast, hitem⟩, fun j x hj hx => ?_⟩
      have := hle hx
      omega
  · rw [if_neg hitem]
    constructor
    · rintro ⟨⟨x, hx, hxt⟩, hlater⟩
      have hk : k ≠ items.length := by
        rintro rfl
        rw [hlast] at hx
        cases hx
        exact hitem hxt
      have hk' := hle hx
      rw [hlt (by omega)] at hx
      refine ⟨⟨x, hx, hxt⟩, fun j y hj hy => hlater j y hj ?_⟩
      rw [hlt (List.getElem?_eq_some_iff.mp hy).1, hy]
    · rintro ⟨⟨x, hx, hxt⟩, hlater⟩
      refine ⟨⟨x, ?_, hxt⟩, fun j y hj hy => ?_⟩
      · rw [hlt (List.getElem?_eq_some_iff.mp hx).1, hx]
      -- A later index is one of the old items, or the last, which has another id.
      · by_cases hjl : j < items.length
        · rw [hlt hjl] at hy
          exact hlater j y hj hy
        · obtain rfl : j = items.length := by
            have := hle hy
            omega
          rw [hlast] at hy
          cases hy
          exact hitem

/-- The head of a queue without a later item of its id is the latest. -/
theorem latest_head {items rest : List (QueueItem φ)} {item : QueueItem φ}
    (h : ∀ later ∈ rest, later.tid ≠ item.tid) :
    Latest (items ++ item :: rest) item.tid items.length := by
  refine ⟨⟨item, by simp, rfl⟩, fun j later hj hlater => h later ?_⟩
  rw [List.getElem?_append_right (Nat.le_of_lt hj)] at hlater
  obtain ⟨d, hd⟩ : ∃ d, j - items.length = d + 1 := ⟨j - items.length - 1, by omega⟩
  rw [hd, List.getElem?_cons_succ] at hlater
  exact List.mem_of_getElem? hlater

/-! ## The queue refines a pool of jobs -/

/-- A worker takes an item only when no later submission of its id waits behind it. -/
def TakesLatest (q : TaskQueue φ α) : Event φ α → Prop
  | .take _ _ => ∀ item ∈ q.queue.head?, ∀ later ∈ q.queue.tail, later.tid ≠ item.tid
  | _ => True

instance (q : TaskQueue φ α) : DecidablePred q.TakesLatest
  | .take _ _ => inferInstanceAs
      (Decidable (∀ item ∈ q.queue.head?, ∀ later ∈ q.queue.tail, later.tid ≠ item.tid))
  | .start | .stop _ | .stopped _ | .submit _ _ _ _ | .begin _ | .timeout _ | .finish _ _ _ =>
    .isTrue trivial

/-- The worker executes the item and writes to that `TaskResult`. -/
def Executes (q : TaskQueue φ α) (w : ℕ) (item : QueueItem φ) (k : Ref) : Prop :=
  q.workers[w]? = some (.executing item k)

/-- The queue has the jobs of the pool: its `k`-th `TaskResult` is that of the `k`-th job. -/
structure Refines (q : TaskQueue φ α) (pool : JobPool (QueueItem φ) ℕ (Except Exn α)) : Prop where
  queue_eq : q.queue = pool.waiting
  next_eq : q.heap.next = pool.payloads.length
  results_iff : ∀ tid (k : ℕ), q.results.get? tid = some k ↔ Latest pool.payloads tid k
  shows : ∀ (k : ℕ) item stage, pool.jobs[k]? = some (item, stage) →
    (q.heap.read k).Shows item stage
  executes_iff : ∀ w item (k : ℕ), q.Executes w item k ↔ pool.started[k]? = some (item, .held w)

/-- What the relation speaks of is all that it needs. -/
theorem Refines.of_frame {q q' : TaskQueue φ α} {pool : JobPool (QueueItem φ) ℕ (Except Exn α)}
    (h : q.Refines pool) (hqueue : q'.queue = q.queue) (hresults : q'.results = q.results)
    (hheap : q'.heap = q.heap) (hexec : ∀ w item k, q'.Executes w item k ↔ q.Executes w item k) :
    q'.Refines pool where
  queue_eq := hqueue.trans h.queue_eq
  next_eq := by rw [hheap, h.next_eq]
  results_iff := by rw [hresults]; exact h.results_iff
  shows := by rw [hheap]; exact h.shows
  executes_iff w item k := (hexec w item k).trans (h.executes_iff w item k)

/-- A new queue refines the empty pool. -/
theorem refines_init (n : ℤ) : (init n : TaskQueue φ α).Refines {} where
  queue_eq := rfl
  next_eq := rfl
  results_iff tid k := by simp [init, Latest, JobPool.payloads]
  shows k item stage h := by simp [JobPool.jobs] at h
  executes_iff w item k := by simp [Executes, init]

/-- A step of one worker leaves the others where they are. -/
theorem executes_set {q q' : TaskQueue φ α} {w : ℕ} {s s' : Worker φ}
    (hw : q.workers[w]? = some s) (hq' : q'.workers = q.workers.set w s') {v : ℕ}
    {item : QueueItem φ} {k : Ref} :
    q'.Executes v item k ↔ if v = w then s' = .executing item k else q.Executes v item k := by
  have hlt := (List.getElem?_eq_some_iff.mp hw).1
  unfold Executes
  rw [hq']
  by_cases hv : v = w
  · subst hv
    simp [hlt]
  · simp [hv, List.getElem?_set_ne (Ne.symm hv)]

/-- A worker that executes nothing, before and after. -/
theorem Refines.setWorker {q : TaskQueue φ α} {pool : JobPool (QueueItem φ) ℕ (Except Exn α)}
    (h : q.Refines pool) {w : ℕ} {s s' : Worker φ} (hw : q.workers[w]? = some s)
    (hs : s.isExecuting = false) (hs' : s'.isExecuting = false) :
    (q.setWorker w s').Refines pool := by
  refine h.of_frame rfl rfl rfl fun v item k => ?_
  refine (executes_set hw rfl).trans ?_
  by_cases hv : v = w
  · subst hv
    rw [if_pos rfl, Executes, hw]
    constructor
    · rintro rfl
      cases hs'
    · rintro heq
      cases heq
      cases hs
  · rw [if_neg hv]

/-- A worker at the head of its loop executes nothing. -/
@[simp]
theorem isExecuting_loopHead (q : TaskQueue φ α) : q.loopHead.isExecuting = false := by
  unfold loopHead
  split <;> rfl

section Step

variable {q : TaskQueue φ α} {pool : JobPool (QueueItem φ) ℕ (Except Exn α)}

/-- A job has a position below the next reference. -/
theorem Refines.lt_next (h : q.Refines pool) {k : ℕ} {job : QueueItem φ × Stage ℕ (Except Exn α)}
    (hk : pool.jobs[k]? = some job) : k < q.heap.next := by
  rw [h.next_eq, ← pool.length_jobs]
  exact (List.getElem?_eq_some_iff.mp hk).1

/-- A start changes nothing about the jobs. -/
theorem Refines.start (h : q.Refines pool) : q.start.Refines pool := by
  unfold TaskQueue.start
  split
  · exact h
  · refine h.of_frame rfl rfl rfl fun w item k => ?_
    unfold Executes
    simp only [List.getElem?_append, List.getElem?_replicate]
    by_cases hw : w < q.workers.length
    · rw [if_pos hw]
    · -- The new workers execute nothing yet.
      rw [if_neg hw, List.getElem?_eq_none (Nat.le_of_not_lt hw)]
      split <;> simp

/-- A submission is one of the pool. -/
theorem Refines.submit (h : q.Refines pool) (fn : φ) (task_id : Option String) (uuid : String)
    (now : Time) :
    (q.submit fn task_id uuid now).2.Refines
      (pool.apply (.submitted ⟨(truthy? task_id).getD uuid, fn⟩)) := by
  have hpayloads : (pool.apply (.submitted ⟨(truthy? task_id).getD uuid, fn⟩)).payloads =
      pool.payloads ++ [⟨(truthy? task_id).getD uuid, fn⟩] := JobPool.payloads_apply trivial
  constructor
  case queue_eq =>
    show q.queue ++ _ = pool.waiting ++ _
    rw [h.queue_eq]
  case next_eq =>
    show q.heap.next + 1 = _
    rw [hpayloads, List.length_append, h.next_eq]
    rfl
  case results_iff =>
    intro tid k
    show (q.results.set _ q.heap.next).get? tid = some k ↔ _
    rw [hpayloads, latest_concat, OrderedMap.get?_set, Function.update_apply]
    -- The new record is the latest of its id; other ids keep theirs.
    by_cases htid : (truthy? task_id).getD uuid = tid
    · rw [if_pos htid.symm, if_pos htid, h.next_eq, Option.some_inj]
      exact eq_comm
    · rw [if_neg (Ne.symm htid), if_neg htid]
      exact h.results_iff tid k
  case shows =>
    intro k item stage hk
    show (Function.update q.heap.read q.heap.next _ k).Shows item stage
    rw [JobPool.jobs_submitted, List.getElem?_append] at hk
    -- The old jobs keep their records, and the new one gets a pending record.
    by_cases hlt : k < pool.jobs.length
    · rw [if_pos hlt] at hk
      rw [Function.update_of_ne (Nat.ne_of_lt (h.lt_next hk))]
      exact h.shows k item stage hk
    · rw [if_neg hlt, List.getElem?_singleton] at hk
      split at hk
      next hzero =>
        cases hk
        have hlen : pool.jobs.length = q.heap.next := by rw [h.next_eq, ← pool.length_jobs]
        obtain rfl : k = q.heap.next := hlen ▸ (by omega : k = pool.jobs.length)
        rw [Function.update_self]
        exact ⟨rfl, rfl, rfl, rfl, rfl, rfl⟩
      next => cases hk
  case executes_iff => exact h.executes_iff

/-- The table leads from the head of the queue, if it is the latest of its id, to its own
`TaskResult`. -/
theorem Refines.results_head (h : q.Refines pool) {item : QueueItem φ}
    {rest : List (QueueItem φ)} (hqueue : q.queue = item :: rest)
    (hlatest : ∀ later ∈ rest, later.tid ≠ item.tid) :
    q.results.get? item.tid = some pool.started.length := by
  have hpayloads : pool.payloads = pool.started.map Prod.fst ++ item :: rest := by
    rw [← hqueue, h.queue_eq]
    rfl
  rw [h.results_iff, hpayloads, ← List.length_map (f := Prod.fst)]
  exact latest_head hlatest

/-- A worker that waits for an item holds no job. -/
theorem Refines.not_held (h : q.Refines pool) {w : ℕ} (hw : q.workers[w]? = some .getting) :
    ∀ job ∈ pool.started, job.2 ≠ .held w := by
  rintro ⟨x, p⟩ hmem rfl
  obtain ⟨k, hk⟩ := List.getElem?_of_mem hmem
  have hexec : q.workers[w]? = some (.executing x k) := (h.executes_iff w x k).mpr hk
  rw [hw] at hexec
  cases hexec

/-- The jobs that are executed when a worker has taken the next one. -/
theorem Refines.executes_take (h : q.Refines pool) {w : ℕ} (hw : q.workers[w]? = some .getting)
    {item : QueueItem φ} {q' : TaskQueue φ α}
    (hq' : q'.workers = q.workers.set w (.executing item pool.started.length)) (v : ℕ)
    (x : QueueItem φ) (k : ℕ) :
    q'.Executes v x k ↔ (pool.started ++ [(item, .held w)])[k]? = some (x, .held v) := by
  refine (executes_set hw hq').trans ?_
  have hold : pool.started[k]? = some (x, .held v) ↔ q.Executes v x k :=
    (h.executes_iff v x k).symm
  rw [List.getElem?_append]
  by_cases hk : k < pool.started.length
  · rw [if_pos hk, hold]
    by_cases hv : v = w
    · -- The worker held nothing before, and now it holds a later job.
      subst hv
      rw [if_pos rfl, Executes, hw]
      constructor
      · intro heq
        cases heq
        omega
      · intro heq
        cases heq
    · rw [if_neg hv]
  · -- The job is the new one, or none is at the position.
    rw [if_neg hk, List.getElem?_singleton]
    rw [List.getElem?_eq_none (Nat.le_of_not_lt hk)] at hold
    grind

/-- A worker that is free takes the item at the head of the queue, the latest of its id. -/
theorem Refines.take (h : q.Refines pool) {w : ℕ} (hw : q.workers[w]? = some .getting)
    {item : QueueItem φ} {rest : List (QueueItem φ)} (hqueue : q.queue = item :: rest)
    (now : Time) :
    pool.Enabled (.began w item) ∧
      TaskQueue.Refines { q with
        queue := rest
        heap := q.heap.write pool.started.length
          { q.heap.read pool.started.length with status := .running, started_at := some now }
        workers := q.workers.set w (.executing item pool.started.length) }
        (pool.apply (.began w item)) := by
  have hwaiting : pool.waiting = item :: rest := h.queue_eq.symm.trans hqueue
  have hhead : pool.waiting.head? = some item := by rw [hwaiting]; rfl
  have henabled : pool.Enabled (.began w item) := ⟨hhead, h.not_held hw⟩
  refine ⟨henabled, ?_⟩
  have hpayloads : (pool.apply (.began w item)).payloads = pool.payloads :=
    JobPool.payloads_apply_of_none henabled rfl
  have hlen : pool.started.length < pool.jobs.length :=
    (List.getElem?_eq_some_iff.mp (JobPool.jobs_head hhead)).1
  constructor
  case queue_eq =>
    show rest = pool.waiting.tail
    rw [hwaiting]
    rfl
  case next_eq =>
    rw [hpayloads]
    exact h.next_eq
  case results_iff =>
    rw [hpayloads]
    exact h.results_iff
  case shows =>
    intro k x stage hk
    show ((q.heap.write pool.started.length _).read k).Shows x stage
    rw [JobPool.jobs_began hhead] at hk
    -- Only the job that is taken gets another stage, and its record is the one written to.
    by_cases hkn : k = pool.started.length
    · subst hkn
      rw [List.getElem?_set_self hlen] at hk
      cases hk
      rw [Heap.read_write_self]
      exact (h.shows _ item _ (JobPool.jobs_head hhead)).start w now
    · rw [List.getElem?_set_ne (Ne.symm hkn)] at hk
      rw [Heap.read_write_of_ne _ hkn]
      exact h.shows k x stage hk
  case executes_iff => exact h.executes_take hw rfl

/-- The function of a worker ends, and the worker executes nothing afterwards. -/
theorem Refines.finish (h : q.Refines pool) {w : ℕ} {item : QueueItem φ} {r : Ref}
    (hw : q.workers[w]? = some (.executing item r)) (outcome : Except Exn α) (now : Time)
    {s' : Worker φ} (hs' : s'.isExecuting = false) :
    pool.Enabled (.finished w item outcome) ∧
      TaskQueue.Refines { q with
        heap := q.heap.write r ((q.heap.read r).finish outcome now)
        workers := q.workers.set w s' } (pool.apply (.finished w item outcome)) := by
  have hr : pool.started[(r : ℕ)]? = some (item, .held w) := (h.executes_iff w item r).mp hw
  have henabled : pool.Enabled (.finished w item outcome) := List.mem_of_getElem? hr
  refine ⟨henabled, ?_⟩
  have hpayloads : (pool.apply (.finished w item outcome)).payloads = pool.payloads :=
    JobPool.payloads_apply_of_none henabled rfl
  constructor
  case queue_eq => exact h.queue_eq
  case next_eq =>
    rw [hpayloads]
    exact h.next_eq
  case results_iff =>
    rw [hpayloads]
    exact h.results_iff
  case shows =>
    intro k x stage hk
    show ((q.heap.write r _).read k).Shows x stage
    rw [JobPool.jobs_finished, List.getElem?_map, Option.map_eq_some_iff] at hk
    obtain ⟨⟨y, old⟩, hk, heq⟩ := hk
    cases heq
    have hold := h.shows k y old hk
    by_cases hkr : k = r
    · subst hkr
      rw [JobPool.jobs_begun_iff.mpr hr] at hk
      cases hk
      rw [Heap.read_write_self, Stage.finish, Progress.finish_held_self]
      exact hold.finish outcome now
    · -- The worker holds no other job.
      have hother : old ≠ .begun (.held w) := by
        rintro rfl
        have hexec := (h.executes_iff w y k).mpr (JobPool.jobs_begun_iff.mp hk)
        rw [Executes, hw] at hexec
        cases hexec
        exact hkr rfl
      rw [Heap.read_write_of_ne _ hkr, Stage.finish_of_ne hother]
      exact hold
  case executes_iff =>
    intro v x k
    refine (executes_set hw rfl).trans ?_
    rw [JobPool.started_finished_held_iff, ← h.executes_iff]
    by_cases hv : v = w
    · rw [if_pos hv]
      constructor
      · rintro rfl
        cases hs'
      · rintro ⟨hne, -⟩
        exact absurd hv hne
    · rw [if_neg hv]
      exact (and_iff_right hv).symm

/-- One step of the queue is none or one of the pool, in order. -/
theorem Refines.step {ops : List (JobPool.Op (QueueItem φ) ℕ (Except Exn α))}
    (h : q.Refines (JobPool.replay ops)) (hops : JobPool.Orderly ops) {e : Event φ α}
    (hok : q.TakesLatest e) {q' : TaskQueue φ α} (hstep : q.step e = some q') :
    JobPool.Orderly (ops ++ q.observe e) ∧ q'.Refines (JobPool.replay (ops ++ q.observe e)) := by
  cases step_cases hstep with
  | start =>
    simp only [observe, List.append_nil]
    exact ⟨hops, h.start⟩
  | stop wait =>
    simp only [observe, List.append_nil]
    exact ⟨hops, h.of_frame rfl rfl rfl fun _ _ _ => Iff.rfl⟩
  | stopped k stopping =>
    simp only [observe, List.append_nil]
    exact ⟨hops, h.of_frame rfl rfl rfl fun _ _ _ => Iff.rfl⟩
  | submit fn task_id uuid now =>
    simp only [observe, JobPool.replay_concat]
    exact ⟨hops.concat trivial, h.submit fn task_id uuid now⟩
  | begin hw =>
    simp only [observe, List.append_nil]
    exact ⟨hops, h.setWorker hw rfl (isExecuting_loopHead q)⟩
  | timeout hw =>
    simp only [observe, List.append_nil]
    exact ⟨hops, h.setWorker hw rfl (isExecuting_loopHead q)⟩
  | @take w item rest result now hw hqueue hresult =>
    -- The table leads to the `TaskResult` of the item itself.
    have hown := h.results_head hqueue (by simpa [TakesLatest, hqueue] using hok)
    obtain rfl : result = _ := Option.some.inj (hresult.symm.trans hown)
    obtain ⟨henabled, hrefines⟩ := h.take hw hqueue now
    rw [observe_take hqueue, JobPool.replay_concat]
    exact ⟨hops.concat henabled, hrefines⟩
  | @unknown w item rest now hw hqueue hresult =>
    have hown := h.results_head hqueue (by simpa [TakesLatest, hqueue] using hok)
    rw [hresult] at hown
    cases hown
  | @finish w item result outcome now hw hcatch =>
    obtain ⟨henabled, hrefines⟩ := h.finish hw outcome now (isExecuting_loopHead q)
    rw [observe_finish hw, JobPool.replay_concat]
    exact ⟨hops.concat henabled, hrefines⟩
  | @lost w item result e now hw he =>
    have hraised : (Worker.raised e.cls : Worker φ).isExecuting = false := rfl
    obtain ⟨henabled, hrefines⟩ := h.finish hw (.error e) now hraised
    rw [observe_finish hw, JobPool.replay_concat]
    exact ⟨hops.concat henabled, hrefines⟩

end Step

section Observe

variable {q q' : TaskQueue φ α} {e : Event φ α}

/-- An event is at most one operation on the tasks, and submits what the operation submits. -/
theorem observe_cases (hstep : q.step e = some q') :
    (q.observe e = [] ∧ e.submission? = none) ∨
      ∃ op, q.observe e = [op] ∧ op.submission? = e.submission? := by
  cases step_cases hstep with
  | submit fn task_id uuid now => exact Or.inr ⟨_, rfl, rfl⟩
  | take now hw hqueue hresult => exact Or.inr ⟨_, observe_take hqueue _ now, rfl⟩
  | unknown now hw hqueue hresult => exact Or.inr ⟨_, observe_take hqueue _ now, rfl⟩
  | finish now hw hcatch => exact Or.inr ⟨_, observe_finish hw _ now, rfl⟩
  | lost now hw he => exact Or.inr ⟨_, observe_finish hw _ now, rfl⟩
  | _ => exact Or.inl ⟨rfl, rfl⟩

variable {ops : List (JobPool.Op (QueueItem φ) ℕ (Except Exn α))}

/-- What a step submits is the only new job. -/
theorem payloads_step (hops : JobPool.Orderly (ops ++ q.observe e)) (hstep : q.step e = some q') :
    (JobPool.replay (ops ++ q.observe e)).payloads =
      (JobPool.replay ops).payloads ++ e.submission?.toList := by
  rcases observe_cases hstep with ⟨hnone, hsub⟩ | ⟨op, hop, hsub⟩
  · rw [hnone, hsub, List.append_nil, Option.toList_none, List.append_nil]
  · rw [hop] at hops ⊢
    rw [JobPool.replay_concat, JobPool.payloads_apply hops.enabled, hsub]

/-- What a step does to the latest task of an id that it does not submit. -/
theorem latest_step (hops : JobPool.Orderly (ops ++ q.observe e)) (hstep : q.step e = some q')
    {tid : String} (htid : ∀ new ∈ e.submission?, new.tid ≠ tid) {k : ℕ} {item : QueueItem φ}
    {stage : Stage ℕ (Except Exn α)} (hlatest : Latest (JobPool.replay ops).payloads tid k)
    (hk : (JobPool.replay ops).jobs[k]? = some (item, stage)) :
    Latest (JobPool.replay (ops ++ q.observe e)).payloads tid k ∧
      ∃ stage', (JobPool.replay (ops ++ q.observe e)).jobs[k]? = some (item, stage') ∧
        (stage' = stage ∨ stage.Next stage') := by
  -- No submission is of this id, so the latest index stays.
  constructor
  · rw [payloads_step hops hstep]
    cases hnew : e.submission? with
    | none => simpa using hlatest
    | some new =>
      rw [Option.toList_some, latest_concat, if_neg (htid new hnew)]
      exact hlatest
  · rcases observe_cases hstep with ⟨hnone, -⟩ | ⟨op, hop, -⟩
    · rw [hnone, List.append_nil]
      exact ⟨stage, hk, Or.inl rfl⟩
    · rw [hop] at hops ⊢
      rw [JobPool.replay_concat]
      exact JobPool.jobs_apply hops.enabled hk

/-- The latest task of an id waits if it was not the latest before the step. -/
theorem waiting_step (hops : JobPool.Orderly (ops ++ q.observe e)) (hstep : q.step e = some q')
    {tid : String} {k : ℕ} (hlatest : Latest (JobPool.replay (ops ++ q.observe e)).payloads tid k)
    (hnew : ¬ Latest (JobPool.replay ops).payloads tid k) :
    ∃ item, (JobPool.replay (ops ++ q.observe e)).jobs[k]? = some (item, .waiting) := by
  rw [payloads_step hops hstep] at hlatest
  -- What has become the latest is the item that has just been submitted, which waits.
  rcases observe_cases hstep with ⟨-, hsub⟩ | ⟨op, hop, hsub⟩
  · rw [hsub, Option.toList_none, List.append_nil] at hlatest
    exact absurd hlatest hnew
  · rw [← hsub] at hlatest
    cases op with
    | submitted new =>
      rw [JobPool.Op.submission?, Option.toList_some, latest_concat] at hlatest
      by_cases htid : new.tid = tid
      · rw [if_pos htid, ← JobPool.length_jobs] at hlatest
        refine ⟨new, ?_⟩
        rw [hop, JobPool.replay_concat, JobPool.jobs_submitted, hlatest]
        exact List.getElem?_concat_length
      · rw [if_neg htid] at hlatest
        exact absurd hlatest hnew
    | began w item => exact absurd (by simpa [JobPool.Op.submission?] using hlatest) hnew
    | finished w item outcome =>
      exact absurd (by simpa [JobPool.Op.submission?] using hlatest) hnew

end Observe

/-- A run in which workers take only latest items refines the pool that its history leaves. -/
theorem refines_run {n : ℤ} {es : List (Event φ α)} {q : TaskQueue φ α}
    (hok : Machine.EveryRunStep step TakesLatest (init n) es) (hrun : run (init n) es = some q) :
    JobPool.Orderly (history (init n) es) ∧
      q.Refines (JobPool.replay (history (init n) es)) := by
  refine Machine.run_trace_invariant
    (fun q ops => JobPool.Orderly ops ∧ q.Refines (JobPool.replay ops))
    (fun q ops e q' h hok hstep => h.2.step h.1 hok hstep) (l := []) ?_ hok hrun
  exact ⟨.nil, refines_init n⟩

end TaskQueue

end YellowBull
