import YellowBull.Lib.Heap
import YellowBull.Lib.JobPool
import YellowBull.Lib.Machine
import YellowBull.Lib.OrderedMap
import YellowBull.Models

/-!
# The task queue

`TaskQueue` of `core/task_queue/queue.py`. A `TaskResult` is an object, which the table `_results`
and the worker that runs the task reach by reference. Each worker loop is a state, and an event is
what happens between two awaits: a call of `start`, `stop` or `submit`, or one segment of a worker
loop. An event that the state does not allow has no step.

A `get` that times out takes nothing from the queue, and a `get` that returns an item goes on to the
start of the item's function in the same segment. What a task function comes back with is an input,
as are the clock and `uuid4`. `task_done`, whose count nothing reads, is left out.
-/

namespace YellowBull

open Py

/-- `TaskStatus`. -/
inductive TaskStatus where
  | pending
  | running
  | completed
  | failed
  deriving DecidableEq

/-- The statuses for which `wait_for` waits. -/
def TaskStatus.Terminal (s : TaskStatus) : Prop := s = .completed ∨ s = .failed

instance : DecidablePred TaskStatus.Terminal :=
  fun s => inferInstanceAs (Decidable (s = .completed ∨ s = .failed))

/-- `TaskResult`. A `result` that was never set is none. -/
structure TaskResult (α : Type) where
  task_id : String
  status : TaskStatus
  result : Option α := none
  error : Option String := none
  created_at : Time
  started_at : Option Time := none
  completed_at : Option Time := none
  deriving DecidableEq

instance {α : Type} : Inhabited (TaskResult α) :=
  ⟨{ task_id := "", status := .pending, created_at := 0 }⟩

/-- What the `try` statement of `_worker_loop` makes of the `TaskResult` once the function is over:
its body, its `except Exception` and its `finally`. -/
def TaskResult.finish {α : Type} (record : TaskResult α) (outcome : Except Exn α) (now : Time) :
    TaskResult α :=
  let record :=
    match outcome with
    | .ok value => { record with result := some value, status := .completed }
    | .error e =>
      if e.IsException then { record with status := .failed, error := some e.text } else record
  { record with completed_at := some now }

/-- An item of `_queue`: the id, and the function with its arguments. -/
structure QueueItem (φ : Type) where
  tid : String
  fn : φ
  deriving DecidableEq

/-- A worker loop, at one of its awaits or at its end. -/
inductive Worker (φ : Type) where
  /-- Created by `create_task`, not started. -/
  | created
  /-- Awaits `wait_for(self._queue.get(), ..)`. -/
  | getting
  /-- Awaits the function of the item. `result` is the `TaskResult` that it found for the id. -/
  | executing (item : QueueItem φ) (result : Ref)
  /-- Left the loop. -/
  | ended
  /-- An exception left the loop, of that class. -/
  | raised (cls : ExnClass)
  deriving DecidableEq

/-- The worker loop is over. -/
def Worker.Over {φ : Type} : Worker φ → Prop
  | .ended => True
  | .raised _ => True
  | _ => False

instance {φ : Type} : DecidablePred (Worker.Over (φ := φ)) := fun s => by
  cases s <;> unfold Worker.Over <;> infer_instance

/-- A task function is in execution. -/
def Worker.isExecuting {φ : Type} : Worker φ → Bool
  | .executing _ _ => true
  | _ => false

/-- `TaskQueue`, with the objects that it shares with its callers. -/
structure TaskQueue (φ α : Type) where
  max_workers : ℤ
  queue : List (QueueItem φ) := []
  results : OrderedMap String Ref := .empty
  heap : Heap (TaskResult α) := .empty
  workers : List (Worker φ) := []
  running : Bool := false
  /-- For each `stop(wait=True)` that has not returned, the number of workers it gathers. -/
  stopping : List ℕ := []

namespace TaskQueue

variable {φ α : Type}

/-- `TaskQueue(max_workers)`. -/
def init (max_workers : ℤ) : TaskQueue φ α := { max_workers }

/-- `TaskQueue.start`. -/
def start (q : TaskQueue φ α) : TaskQueue φ α :=
  if q.running then q
  else
    { q with
      running := true
      workers := q.workers ++ List.replicate q.max_workers.toNat .created }

/-- `TaskQueue.stop`, up to the `gather`. -/
def stop (q : TaskQueue φ α) (wait : Bool) : TaskQueue φ α :=
  { q with
    running := false
    stopping := if wait then q.workers.length :: q.stopping else q.stopping }

/-- `TaskQueue.submit`: the id, and the queue. -/
def submit (q : TaskQueue φ α) (fn : φ) (task_id : Option String) (uuid : String) (now : Time) :
    String × TaskQueue φ α :=
  let tid := (truthy? task_id).getD uuid
  let (result, heap) := q.heap.alloc { task_id := tid, status := .pending, created_at := now }
  (tid, { q with
    results := q.results.set tid result
    heap
    queue := q.queue ++ [⟨tid, fn⟩] })

/-- `TaskQueue.get_status`. -/
def getStatus (q : TaskQueue φ α) (task_id : String) : Option (TaskResult α) :=
  (q.results.get? task_id).map q.heap.read

/-! ## The worker loop -/

/-- A worker goes on to another state. -/
def setWorker (q : TaskQueue φ α) (w : ℕ) (s : Worker φ) : TaskQueue φ α :=
  { q with workers := q.workers.set w s }

/-- The head of `_worker_loop`. -/
def loopHead (q : TaskQueue φ α) : Worker φ := if q.running then .getting else .ended

/-- `_worker_loop` once `get` has returned an item: up to the await of its function. -/
def beginTask (q : TaskQueue φ α) (w : ℕ) (item : QueueItem φ) (now : Time) : TaskQueue φ α :=
  match q.results.get? item.tid with
  | none => q.setWorker w (.raised .keyError)
  | some result =>
    let record := { q.heap.read result with status := .running, started_at := some now }
    { q with heap := q.heap.write result record }.setWorker w (.executing item result)

/-- `_worker_loop` once the function of its item has ended: the `except` clause, the `finally`
clause, and the head of the loop. -/
def endTask (q : TaskQueue φ α) (w : ℕ) (result : Ref) (outcome : Except Exn α) (now : Time) :
    TaskQueue φ α :=
  let record := (q.heap.read result).finish outcome now
  let q' := { q with heap := q.heap.write result record }
  match outcome with
  | .ok _ => q'.setWorker w q.loopHead
  | .error e =>
    -- What `except Exception` does not catch goes through `finally` and leaves the loop.
    if e.IsException then q'.setWorker w q.loopHead else q'.setWorker w (.raised e.cls)

/-! ## Runs -/

/-- What happens to a queue from outside, or in one of its workers. -/
inductive Event (φ α : Type) where
  /-- `start()`. -/
  | start
  /-- `stop(wait)`, up to its `gather`. -/
  | stop (wait : Bool)
  /-- The `gather` of a `stop(wait=True)` over `workers` workers returns. -/
  | stopped (workers : ℕ)
  /-- `submit(fn, task_id=task_id)`. -/
  | submit (fn : φ) (task_id : Option String) (uuid : String) (now : Time)
  /-- The loop of a worker begins. -/
  | begin (w : ℕ)
  /-- The `get` of a worker times out. -/
  | timeout (w : ℕ)
  /-- The `get` of a worker returns an item. -/
  | take (w : ℕ) (now : Time)
  /-- The function that a worker awaits ends. -/
  | finish (w : ℕ) (outcome : Except Exn α) (now : Time)

/-- A function that ends returns or raises an `Exception`. -/
def Event.Catchable : Event φ α → Prop
  | .finish _ (.error e) _ => e.IsException
  | _ => True

instance : DecidablePred (Event.Catchable (φ := φ) (α := α)) := fun e => by
  unfold Event.Catchable
  split <;> infer_instance

/-- The queue after an event, none where the state does not allow it. -/
def step (q : TaskQueue φ α) : Event φ α → Option (TaskQueue φ α)
  | .start => some q.start
  | .stop wait => some (q.stop wait)
  | .stopped k =>
    if k ∈ q.stopping ∧ ∀ s ∈ q.workers.take k, s.Over then
      some { q with stopping := q.stopping.erase k }
    else none
  | .submit fn task_id uuid now => some (q.submit fn task_id uuid now).2
  | .begin w =>
    match q.workers[w]? with
    | some .created => some (q.setWorker w q.loopHead)
    | _ => none
  | .timeout w =>
    match q.workers[w]? with
    | some .getting => some (q.setWorker w q.loopHead)
    | _ => none
  | .take w now =>
    match q.workers[w]?, q.queue with
    | some .getting, item :: rest => some ({ q with queue := rest }.beginTask w item now)
    | _, _ => none
  | .finish w outcome now =>
    match q.workers[w]? with
    | some (.executing _ result) => some (q.endTask w result outcome now)
    | _ => none

/-- What a step can do, by the event and the state of the worker. -/
inductive Steps (q : TaskQueue φ α) : Event φ α → TaskQueue φ α → Prop
  | start : Steps q .start q.start
  | stop (wait : Bool) : Steps q (.stop wait) (q.stop wait)
  | stopped (k : ℕ) (stopping : List ℕ) : Steps q (.stopped k) { q with stopping }
  | submit (fn : φ) (task_id : Option String) (uuid : String) (now : Time) :
    Steps q (.submit fn task_id uuid now) (q.submit fn task_id uuid now).2
  | begin {w : ℕ} (hw : q.workers[w]? = some .created) :
    Steps q (.begin w) (q.setWorker w q.loopHead)
  | timeout {w : ℕ} (hw : q.workers[w]? = some .getting) :
    Steps q (.timeout w) (q.setWorker w q.loopHead)
  | take {w : ℕ} {item : QueueItem φ} {rest : List (QueueItem φ)} {result : Ref} (now : Time)
    (hw : q.workers[w]? = some .getting) (hqueue : q.queue = item :: rest)
    (hresult : q.results.get? item.tid = some result) :
    Steps q (.take w now)
      { q with
        queue := rest
        heap := q.heap.write result
          { q.heap.read result with status := .running, started_at := some now }
        workers := q.workers.set w (.executing item result) }
  | unknown {w : ℕ} {item : QueueItem φ} {rest : List (QueueItem φ)} (now : Time)
    (hw : q.workers[w]? = some .getting) (hqueue : q.queue = item :: rest)
    (hresult : q.results.get? item.tid = none) :
    Steps q (.take w now)
      { q with queue := rest, workers := q.workers.set w (.raised .keyError) }
  | finish {w : ℕ} {item : QueueItem φ} {result : Ref} {outcome : Except Exn α} (now : Time)
    (hw : q.workers[w]? = some (.executing item result))
    (hcatch : (Event.finish w outcome now : Event φ α).Catchable) :
    Steps q (.finish w outcome now)
      { q with
        heap := q.heap.write result ((q.heap.read result).finish outcome now)
        workers := q.workers.set w q.loopHead }
  | lost {w : ℕ} {item : QueueItem φ} {result : Ref} {e : Exn} (now : Time)
    (hw : q.workers[w]? = some (.executing item result)) (he : ¬ e.IsException) :
    Steps q (.finish w (.error e) now)
      { q with
        heap := q.heap.write result ((q.heap.read result).finish (.error e) now)
        workers := q.workers.set w (.raised e.cls) }

/-- Each step is one of these. -/
theorem step_cases {q q' : TaskQueue φ α} {e : Event φ α} (hstep : q.step e = some q') :
    q.Steps e q' := by
  cases e with
  | start =>
    cases hstep
    exact .start
  | stop wait =>
    cases hstep
    exact .stop wait
  | stopped k =>
    simp only [step] at hstep
    split at hstep
    · cases hstep
      exact .stopped k _
    · cases hstep
  | submit fn task_id uuid now =>
    cases hstep
    exact .submit fn task_id uuid now
  | begin w =>
    simp only [step] at hstep
    split at hstep
    next hw =>
      cases hstep
      exact .begin hw
    next => cases hstep
  | timeout w =>
    simp only [step] at hstep
    split at hstep
    next hw =>
      cases hstep
      exact .timeout hw
    next => cases hstep
  | take w now =>
    simp only [step] at hstep
    split at hstep
    next item rest hw hqueue =>
      cases hstep
      -- Whether the queue knows the id decides between the two results of taking an item.
      cases hresult : q.results.get? item.tid with
      | none =>
        simp only [beginTask, hresult]
        exact .unknown now hw hqueue hresult
      | some result =>
        simp only [beginTask, hresult]
        exact .take now hw hqueue hresult
    next => cases hstep
  | finish w outcome now =>
    simp only [step] at hstep
    split at hstep
    next item result hw =>
      cases hstep
      -- The handler of the loop catches what derives from `Exception`, and lets the rest through.
      cases outcome with
      | ok value => exact .finish now hw trivial
      | error e =>
        simp only [endTask]
        by_cases he : e.IsException
        · rw [if_pos he]
          exact .finish now hw he
        · rw [if_neg he]
          exact .lost now hw he
    next => cases hstep

/-- The queue after a list of events. -/
def run (q : TaskQueue φ α) (es : List (Event φ α)) : Option (TaskQueue φ α) :=
  Machine.run step q es

/-! ## What is observed of a run -/

/-- The item that an event submits. -/
def Event.submission? : Event φ α → Option (QueueItem φ)
  | .submit fn task_id uuid _ => some ⟨(truthy? task_id).getD uuid, fn⟩
  | _ => none

/-- The items that the events submit, in order. -/
def submissions (es : List (Event φ α)) : List (QueueItem φ) := es.filterMap Event.submission?

/-- What happens to the tasks: a function is submitted, is started by a worker with the item at the
head of the queue, ends in the worker that executes it. -/
def observe (q : TaskQueue φ α) : Event φ α → List (JobPool.Op (QueueItem φ) ℕ (Except Exn α))
  | .submit fn task_id uuid _ => [.submitted ⟨(truthy? task_id).getD uuid, fn⟩]
  | .take w _ => (q.queue.head?.map (JobPool.Op.began w)).toList
  | .finish w outcome _ =>
    match q.workers[w]? with
    | some (.executing item _) => [.finished w item outcome]
    | _ => []
  | _ => []

/-- A worker that takes an item begins its task. -/
theorem observe_take {q : TaskQueue φ α} {item : QueueItem φ} {rest : List (QueueItem φ)}
    (hqueue : q.queue = item :: rest) (w : ℕ) (now : Time) :
    q.observe (.take w now) = [.began w item] := by
  simp [observe, hqueue]

/-- A worker that finishes ends the task that it executes. -/
theorem observe_finish {q : TaskQueue φ α} {w : ℕ} {item : QueueItem φ} {result : Ref}
    (hw : q.workers[w]? = some (.executing item result)) (outcome : Except Exn α) (now : Time) :
    q.observe (.finish w outcome now) = [.finished w item outcome] := by
  simp [observe, hw]

/-- What happened to the tasks in a run. -/
def history (q : TaskQueue φ α) (es : List (Event φ α)) :
    List (JobPool.Op (QueueItem φ) ℕ (Except Exn α)) :=
  Machine.trace step observe q es

end TaskQueue

end YellowBull
