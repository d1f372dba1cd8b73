import YellowBull.TaskQueue.Lifecycle
import YellowBull.TaskQueue.Waiting

/-!
# What a waiter gets

`wait_for` polls a queue that goes on working in between: each poll finds the queue after further
events (`WaitCall.Along`). What it returns is the outcome of the function that was submitted under
its id, and whoever asks later, by `get_status` or by another `wait_for`, gets the same
(`wait_for_delivers`).
-/

namespace YellowBull

open Py

namespace TaskQueue

variable {φ α : Type}

/-- What happened to the tasks in a part of a run, and in what follows. -/
theorem history_append {q q' : TaskQueue φ α} {es : List (Event φ α)} (hrun : run q es = some q')
    (es' : List (Event φ α)) : history q (es ++ es') = history q es ++ history q' es' := by
  induction es generalizing q with
  | nil =>
    obtain rfl := Option.some.inj hrun
    rfl
  | cons e es ih =>
    obtain ⟨q₁, hstep, hrest⟩ := Option.bind_eq_some_iff.mp hrun
    have hcons (rest : List (Event φ α)) :
        history q (e :: rest) = q.observe e ++ history q₁ rest := by
      simp [history, Machine.trace, hstep]
    rw [List.cons_append, hcons, hcons, ih hrest, List.append_assoc]

section Run

variable {n : ℤ} {es : List (Event φ α)} {q : TaskQueue φ α}

/-- With distinct ids, a terminal status is that of an item whose function has ended. -/
theorem exists_finished (hrun : run (init n) es = some q)
    (hids : ((submissions es).map QueueItem.tid).Nodup) {tid : String} {record : TaskResult α}
    (hget : q.getStatus tid = some record) (hterminal : record.status.Terminal) :
    ∃ item outcome, item.tid = tid ∧
      (item, outcome) ∈ JobPool.finished (history (init n) es) := by
  obtain ⟨hops, h⟩ := refines_run (takesLatest_of_nodup hids) hrun
  obtain ⟨k, item, stage, hlatest, hk, hshows⟩ := h.exists_job hget
  obtain ⟨outcome, rfl⟩ := hshows.ended_of_terminal hterminal
  have hitem := JobPool.payloads_of_jobs hk
  have htid : item.tid = tid := by
    obtain ⟨item', hitem', htid⟩ := hlatest.1
    obtain rfl := Option.some.inj (hitem.symm.trans hitem')
    exact htid
  have hstarted := List.mem_of_getElem? (JobPool.jobs_begun_iff.mp hk)
  exact ⟨item, outcome, htid, hops.mem_finished_iff.mpr hstarted⟩

/-- With distinct ids, `get_status` shows the outcome of an item whose function has ended. -/
theorem shows_of_finished (hrun : run (init n) es = some q)
    (hids : ((submissions es).map QueueItem.tid).Nodup) {item : QueueItem φ}
    {outcome : Except Exn α}
    (hfinished : (item, outcome) ∈ JobPool.finished (history (init n) es)) :
    ∃ record, q.getStatus item.tid = some record ∧ record.Shows item (.begun (.ended outcome)) := by
  obtain ⟨hops, h⟩ := refines_run (takesLatest_of_nodup hids) hrun
  obtain ⟨k, hk⟩ := List.getElem?_of_mem (hops.mem_finished_iff.mp hfinished)
  have hjob := JobPool.jobs_begun_iff.mpr hk
  have hitem := JobPool.payloads_of_jobs hjob
  -- The jobs are the items that were submitted, so that the only one of the id is the latest.
  have hpayloads : (JobPool.replay (history (init n) es)).payloads = submissions es := by
    rw [hops.payloads_eq, submissions_history hrun]
  rw [← hpayloads] at hids
  exact ⟨_, h.getStatus_eq (latest_of_nodup hids hitem), h.shows k item _ hjob⟩

end Run

end TaskQueue

namespace WaitCall

open TaskQueue

variable {φ α : Type}

/-- The polls find the queue along a run, whose events so far are `es i` at poll `i`. -/
structure Along (c : WaitCall φ α) (n : ℤ) (es : ℕ → List (Event φ α)) : Prop where
  runs : ∀ i, run (init n) (es i) = some (c.queues i)
  grows : ∀ i j, i ≤ j → es i <+: es j

/-- What `wait_for` returns is the outcome of the function that was submitted under the id, which
has ended by then, and whoever looks at the task from then on sees the same outcome. -/
theorem wait_for_delivers {c : WaitCall φ α} {n : ℤ} {es : ℕ → List (Event φ α)}
    (halong : c.Along n es) (hids : ∀ i, ((submissions (es i)).map QueueItem.tid).Nodup)
    {polls : ℕ} {record : TaskResult α} (hback : c.wait_for polls = some (some record)) :
    ∃ i item outcome, item.tid = c.task_id ∧
      (item, outcome) ∈ JobPool.finished (history (init n) (es i)) ∧
      record.Shows item (.begun (.ended outcome)) ∧
      ∀ j, i ≤ j → ∃ record', c.found j = some record' ∧
        record'.Shows item (.begun (.ended outcome)) := by
  -- The loop ends with what a poll has found, which is terminal.
  obtain ⟨i, hround, -⟩ := (Loop.returns_zero_iff fun _ _ => round_next).mp ⟨polls, hback⟩
  have hseen : c.found i = some record ∧ c.SeesEnd i := by
    unfold round at hround
    split_ifs at hround with hend
    · exact ⟨Sum.inr.inj hround, hend⟩
    · cases hround
  obtain ⟨hfound, record', hmem, hterminal⟩ := hseen
  obtain rfl : record = record' := Option.some.inj (hfound.symm.trans hmem)
  obtain ⟨item, outcome, htid, hfinished⟩ :=
    exists_finished (halong.runs i) (hids i) hfound hterminal
  -- From poll `i` on, the function has ended with this outcome.
  have hlater (j : ℕ) (hij : i ≤ j) : ∃ record', c.found j = some record' ∧
      record'.Shows item (.begun (.ended outcome)) := by
    obtain ⟨rest, hrest⟩ := halong.grows i j hij
    have hfinished' : (item, outcome) ∈ JobPool.finished (history (init n) (es j)) := by
      rw [← hrest, history_append (halong.runs i), JobPool.finished, List.filterMap_append]
      exact List.mem_append_left _ hfinished
    have hshows := shows_of_finished (halong.runs j) (hids j) hfinished'
    rwa [htid] at hshows
  obtain ⟨record', hfound', hshows⟩ := hlater i (Nat.le_refl i)
  obtain rfl : record = record' := Option.some.inj (hfound.symm.trans hfound')
  exact ⟨i, item, outcome, htid, hfinished, hshows, hlater⟩

/-- A task is submitted, started and fails. -/
def failingTask : List (Event ℕ ℕ) :=
  [.start, .begin 0, .submit 7 (some "a") "" 0, .take 0 1, .finish 0 (.error ⟨.other, "boom"⟩) 2]

/-- A call of `wait_for` without a limit: its first poll comes behind the submission, and its third
behind the failure. -/
def failingWait : WaitCall ℕ ℕ where
  task_id := "a"
  timeout := none
  start := 0
  queues i := (run (init 1) (failingTask.take (3 + min i 2))).getD (init 1)
  clock _ := 0

/-- The call polls along this run. -/
theorem failingWait_along : failingWait.Along 1 fun i => failingTask.take (3 + min i 2) where
  runs := by
    -- The run has a state behind each of its parts.
    have hsome : ∀ k ≤ 2, (run (init 1) (failingTask.take (3 + k))).isSome := by decide
    intro i
    obtain ⟨q, hq⟩ := Option.isSome_iff_exists.mp (hsome (min i 2) (Nat.min_le_right i 2))
    have hqueue : failingWait.queues i = q := by
      show (run (init 1) (failingTask.take (3 + min i 2))).getD (init 1) = q
      rw [hq]
      rfl
    rw [hqueue]
    exact hq
  grows i j hij := by
    have hle : 3 + min i 2 ≤ 3 + min j 2 := by omega
    exact List.take_prefix_take_left hle

/-- The waiter gets the failure. -/
theorem wait_for_delivers_failing :
    ∃ record i item outcome, failingWait.wait_for 3 = some (some record) ∧ item.tid = "a" ∧
      (item, outcome) ∈ JobPool.finished (history (init 1) (failingTask.take (3 + min i 2))) ∧
      record.Shows item (.begun (.ended outcome)) ∧
      ∀ j, i ≤ j → ∃ record', failingWait.found j = some record' ∧
        record'.Shows item (.begun (.ended outcome)) := by
  have hids : ∀ k ≤ 2, ((submissions (failingTask.take (3 + k))).map QueueItem.tid).Nodup := by
    decide
  obtain ⟨record, hback⟩ : ∃ record, failingWait.wait_for 3 = some (some record) := ⟨_, rfl⟩
  obtain ⟨i, item, outcome, h⟩ := wait_for_delivers failingWait_along
    (fun i => hids (min i 2) (Nat.min_le_right i 2)) hback
  exact ⟨record, i, item, outcome, hback, h⟩

end WaitCall

end YellowBull
