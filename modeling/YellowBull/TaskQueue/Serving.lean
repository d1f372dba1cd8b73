import YellowBull.TaskQueue.Delivery
import YellowBull.TaskQueue.Stopping
import YellowBull.TaskQueue.Workers

/-!
# What comes of a task

A queue that is started and not stopped serves its tasks: if the event loop comes back to the
workers, and no item waits for ever beside a worker that awaits one (`Serving`), every task is begun
when those before it are (`Serving.exists_begun`) and ends. Its outcome is then what `get_status`
shows for ever, and what every `wait_for` without a time limit returns (`submitted_tasks_end`).
-/

namespace YellowBull

open Py

namespace TaskQueue

variable {φ α : Type}

section Serve

variable {n : ℤ} {ρ : Machine.InfiniteRun (step (φ := φ) (α := α)) (init n)}

variable (ρ) in
/-- The queue is started at moment `s` and serves from then on: it is not stopped, no function ends
in an exception that is no `Exception`, the event loop comes back to the workers, and no item waits
for ever beside a worker that awaits one. -/
structure Serving (s : ℕ) : Prop where
  stopped : (ρ.state s).running = false
  start : ρ.event s = .start
  goes_on : ∀ l, s < l → ∀ wait, ρ.event l ≠ .stop wait
  catchable : ∀ l, (ρ.event l).Catchable
  comes_back : ComesBack ρ s
  takes : ∀ l w : ℕ, s < l → (ρ.state l).workers[w]? = some .getting → (ρ.state l).queue ≠ [] →
    ∃ m v now, l ≤ m ∧ ρ.event m = .take v now

/-- The workers that it was started with stay. -/
theorem Serving.staffed {s l : ℕ} (h : Serving ρ s) (hl : s < l) :
    (ρ.state l).Staffed (ρ.state s).workers.length n.toNat := by
  obtain ⟨hregistered, hmax⟩ : (ρ.state s).Registered ∧ (ρ.state s).max_workers = n := by
    refine Machine.run_invariant (fun q => q.Registered ∧ q.max_workers = n) ?_ ?_
      (.trivial step _ _) (ρ.run_events s)
    · rintro q e q' ⟨hq, hmax⟩ - hstep
      exact ⟨registered_step hstep hq, (max_workers_step hstep).trans hmax⟩
    · exact ⟨fun item hitem => (List.not_mem_nil hitem).elim, rfl⟩
  induction l, hl using Nat.le_induction with
  | base =>
    have hvalid := ρ.valid s
    rw [h.start] at hvalid
    have hstaffed := staffed_start hregistered h.stopped
    rw [hmax] at hstaffed
    rw [← Option.some.inj hvalid]
    exact hstaffed
  | succ l hl ih => exact ih.step (h.goes_on l hl) (h.catchable l) (ρ.valid l)

/-- A queue does not get empty without a take. -/
theorem queue_ne_nil_step {q q' : TaskQueue φ α} {e : Event φ α} (hqueue : q.queue ≠ [])
    (htake : ∀ v now, e ≠ .take v now) (hstep : q.step e = some q') : q'.queue ≠ [] := by
  cases step_cases hstep with
  | start =>
    unfold start
    split <;> exact hqueue
  | submit fn task_id uuid now => exact List.append_ne_nil_of_left_ne_nil hqueue _
  | take now => exact absurd rfl (htake _ now)
  | unknown now => exact absurd rfl (htake _ now)
  | _ => exact hqueue

/-- While items wait, there is a further take. -/
theorem Serving.exists_take {s l : ℕ} (h : Serving ρ s) (hn : 0 < n) (hl : s < l)
    (hqueue : (ρ.state l).queue ≠ []) : ∃ m v now, l ≤ m ∧ ρ.event m = .take v now := by
  by_contra hnone
  have hno : ∀ m, l ≤ m → ∀ v now, ρ.event m ≠ .take v now := fun m hm v now hevent =>
    hnone ⟨m, v, now, hm, hevent⟩
  have hwaits {m : ℕ} (hm : l ≤ m) : (ρ.state m).queue ≠ [] := by
    induction m, hm using Nat.le_induction with
    | base => exact hqueue
    | succ m hm ih => exact queue_ne_nil_step ih (hno m hm) (ρ.valid m)
  -- A worker awaits an item now, or behind its next segment.
  obtain ⟨m, w, hm, hw⟩ : ∃ m w : ℕ, l ≤ m ∧ (ρ.state m).workers[w]? = some .getting := by
    let w := (ρ.state s).workers.length
    have hlt : w < (ρ.state s).workers.length + n.toNat := by omega
    obtain ⟨state, hw, hover⟩ := (h.staffed hl).alive w (Nat.le_refl _) hlt
    by_cases hgetting : state = .getting
    · exact ⟨l, w, Nat.le_refl l, hgetting ▸ hw⟩
    · obtain ⟨m, hm, hstill, hown⟩ := h.comes_back.next (Nat.le_of_lt hl) hw hover
      obtain ⟨state', hw', hsegment⟩ := segment_cases hstill hown (ρ.valid m)
      have hrunning := (h.staffed (Nat.lt_of_lt_of_le hl hm)).running
      have hnext := hsegment.eq_getting hrunning (h.catchable m) hgetting
      exact ⟨m + 1, w, by omega, hnext ▸ hw'⟩
  obtain ⟨m', v, now, hm', hevent⟩ := h.takes m w (Nat.lt_of_lt_of_le hl hm) hw (hwaits hm)
  exact hno m' (Nat.le_trans hm hm') v now hevent

/-- A worker that takes an item begins a task. -/
theorem observe_of_take {q q' : TaskQueue φ α} {v : ℕ} {now : Time}
    (hstep : q.step (.take v now) = some q') :
    ∃ item, q.observe (.take v now) = [.began v item] := by
  cases step_cases hstep with
  | take now hw hqueue => exact ⟨_, observe_take hqueue v now⟩
  | unknown now hw hqueue => exact ⟨_, observe_take hqueue v now⟩

variable (ρ) in
/-- What happened to the tasks before a moment. -/
def past (l : ℕ) : List (JobPool.Op (QueueItem φ) ℕ (Except Exn α)) :=
  history (init n) (ρ.events l)

/-- The past with one more event. -/
theorem past_succ (l : ℕ) : past ρ (l + 1) = past ρ l ++ (ρ.state l).observe (ρ.event l) := by
  have hlast : history (ρ.state l) [ρ.event l] = (ρ.state l).observe (ρ.event l) := by
    simp [history, Machine.trace, ρ.valid]
  rw [past, ρ.events_succ, history_append (ρ.run_events l), hlast]
  rfl

/-- The past only grows. -/
theorem past_prefix {l m : ℕ} (hlm : l ≤ m) : past ρ l <+: past ρ m := by
  induction m, hlm using Nat.le_induction with
  | base => exact List.prefix_rfl
  | succ m _ ih =>
    rw [past_succ]
    exact ih.trans (List.prefix_append _ _)

/-- What has ended stays so. -/
theorem mem_finished_of_le {l m : ℕ} (hlm : l ≤ m) {task : QueueItem φ × Except Exn α}
    (h : task ∈ JobPool.finished (past ρ l)) : task ∈ JobPool.finished (past ρ m) := by
  obtain ⟨later, hlater⟩ := past_prefix (ρ := ρ) hlm
  rw [← hlater, JobPool.finished, List.filterMap_append]
  exact List.mem_append_left _ h

/-- A take begins a task. -/
theorem length_begun_take {l v : ℕ} {now : Time} (hevent : ρ.event l = .take v now) :
    (JobPool.begun (past ρ (l + 1))).length = (JobPool.begun (past ρ l)).length + 1 := by
  have hvalid := ρ.valid l
  rw [hevent] at hvalid
  obtain ⟨item, hitem⟩ := observe_of_take hvalid
  rw [past_succ, hevent, hitem]
  simp [JobPool.begun, JobPool.Op.began?]

/-- No task that has begun is forgotten. -/
theorem length_begun_le {l m : ℕ} (hlm : l ≤ m) :
    (JobPool.begun (past ρ l)).length ≤ (JobPool.begun (past ρ m)).length := by
  obtain ⟨later, hlater⟩ := past_prefix hlm
  rw [← hlater, JobPool.begun, JobPool.begun, List.filterMap_append, List.length_append]
  exact Nat.le_add_right _ _

/-- The segment of a worker that executes a function is its end. -/
theorem finish_of_executes {q q' : TaskQueue φ α} {e : Event φ α} {w : ℕ} {item : QueueItem φ}
    {k : Ref} (hexec : q.Executes w item k) (hown : e.worker? = some w)
    (hstep : q.step e = some q') : ∃ outcome now, e = .finish w outcome now := by
  -- A worker in the middle of a task takes no other step.
  have hnot {v : ℕ} {s : Worker φ} (hv : q.workers[v]? = some s) (hvw : some v = some w)
      (hs : s ≠ .executing item k) : False := by
    obtain rfl := Option.some.inj hvw
    exact hs (Option.some.inj (hv.symm.trans hexec))
  cases step_cases hstep with
  | start => cases hown
  | stop => cases hown
  | stopped => cases hown
  | submit => cases hown
  | begin hv => exact (hnot hv hown (by simp)).elim
  | timeout hv => exact (hnot hv hown (by simp)).elim
  | take now hv => exact (hnot hv hown (by simp)).elim
  | unknown now hv => exact (hnot hv hown (by simp)).elim
  | finish now hv =>
    obtain rfl := Option.some.inj hown
    exact ⟨_, now, rfl⟩
  | lost now hv =>
    obtain rfl := Option.some.inj hown
    exact ⟨_, now, rfl⟩

section Tasks

variable {s : ℕ} (h : Serving ρ s) (hn : 0 < n)
  (hids : ∀ l, ((submissions (ρ.events l)).map QueueItem.tid).Nodup)

include h hn hids

/-- A task that was submitted is begun, as those before it are. -/
theorem Serving.exists_begun {l i : ℕ} {item : QueueItem φ}
    (hitem : (submissions (ρ.events l))[i]? = some item) :
    ∃ m, l ≤ m ∧ s < m ∧ i < (JobPool.begun (past ρ m)).length := by
  obtain ⟨m, hm, hzero⟩ : ∃ m, max l (s + 1) ≤ m ∧
      i + 1 - (JobPool.begun (past ρ m)).length = 0 := by
    refine Machine.exists_eq_zero_of_falls fun m hm hpositive => ?_
    -- The task waits, so that the queue is not empty.
    have hqueue : (ρ.state m).queue ≠ [] := by
      obtain ⟨hops, hrefines⟩ := refines_run (takesLatest_of_nodup (hids m)) (ρ.run_events m)
      have hall := hops.begun_append_waiting
      rw [submissions_history (ρ.run_events m), ← hrefines.queue_eq] at hall
      intro hnil
      rw [hnil, List.append_nil] at hall
      obtain ⟨later, hlater⟩ := ρ.events_prefix (Nat.le_trans (Nat.le_max_left l (s + 1)) hm)
      have hlt := (List.getElem?_eq_some_iff.mp hitem).1
      have hbegun : (JobPool.begun (past ρ m)).length = (submissions (ρ.events m)).length :=
        congrArg List.length hall
      rw [← hlater, submissions_append, List.length_append] at hbegun
      omega
    have hsm : s < m := Nat.lt_of_lt_of_le (Nat.lt_succ_self s)
      (Nat.le_trans (Nat.le_max_right l (s + 1)) hm)
    obtain ⟨m', v, now, hm', hevent⟩ := h.exists_take hn hsm hqueue
    have htake := length_begun_take hevent
    have hle := length_begun_le (ρ := ρ) hm'
    exact ⟨m' + 1, by omega, by omega⟩
  exact ⟨m, by omega, by omega, by omega⟩

/-- A task that was submitted ends. -/
theorem Serving.exists_finished {l : ℕ} {item : QueueItem φ}
    (hitem : item ∈ submissions (ρ.events l)) :
    ∃ m outcome, (item, outcome) ∈ JobPool.finished (past ρ m) := by
  obtain ⟨i, hi⟩ := List.getElem?_of_mem hitem
  obtain ⟨m, hlm, hsm, hbegun⟩ := h.exists_begun hn hids hi
  obtain ⟨hops, hrefines⟩ := refines_run (takesLatest_of_nodup (hids m)) (ρ.run_events m)
  have hpayload : (JobPool.replay (past ρ m)).payloads[i]? = some item := by
    obtain ⟨later, hlater⟩ := ρ.events_prefix hlm
    have hpayloads : (JobPool.replay (past ρ m)).payloads = submissions (ρ.events m) := by
      rw [past, hops.payloads_eq, submissions_history (ρ.run_events m)]
    have hlt := (List.getElem?_eq_some_iff.mp hi).1
    rw [hpayloads, ← hlater, submissions_append, List.getElem?_append_left hlt, hi]
  obtain ⟨stage, hstage⟩ := JobPool.exists_stage hpayload
  cases stage with
  | waiting =>
    -- It has begun.
    have hle := (JobPool.jobs_waiting_iff.mp hstage).1
    rw [← JobPool.map_fst_started, List.length_map] at hbegun
    omega
  | begun progress =>
    have hstarted := JobPool.jobs_begun_iff.mp hstage
    cases progress with
    | ended outcome => exact ⟨m, outcome, hops.mem_finished_iff.mpr (List.mem_of_getElem? hstarted)⟩
    | held w =>
      have hexec := (hrefines.executes_iff w item i).mpr hstarted
      obtain ⟨m', hm', hstill, hown⟩ :=
        h.comes_back.next (Nat.le_of_lt hsm) hexec (by simp [Worker.Over])
      obtain ⟨outcome, now, hevent⟩ := finish_of_executes hstill hown (ρ.valid m')
      refine ⟨m' + 1, outcome, ?_⟩
      rw [past_succ, hevent, observe_finish hstill outcome now]
      simp [JobPool.finished, JobPool.Op.finished?]

end Tasks

end Serve

/-- Where ids are distinct, a task ends once. -/
theorem finished_unique {n : ℤ} {es : List (Event φ α)} {q : TaskQueue φ α}
    (hrun : run (init n) es = some q) (hids : ((submissions es).map QueueItem.tid).Nodup)
    {item item' : QueueItem φ} {outcome outcome' : Except Exn α}
    (h : (item, outcome) ∈ JobPool.finished (history (init n) es))
    (h' : (item', outcome') ∈ JobPool.finished (history (init n) es))
    (htid : item.tid = item'.tid) : item = item' ∧ outcome = outcome' := by
  obtain ⟨hops, -⟩ := refines_run (takesLatest_of_nodup hids) hrun
  obtain ⟨k, hk⟩ := List.getElem?_of_mem (hops.mem_finished_iff.mp h)
  obtain ⟨l, hl⟩ := List.getElem?_of_mem (hops.mem_finished_iff.mp h')
  -- Both outcomes are of jobs that have begun, and distinct ids make it the same job.
  have hpayloads : (JobPool.replay (history (init n) es)).payloads = submissions es := by
    rw [hops.payloads_eq, submissions_history hrun]
  have hk' := JobPool.payloads_of_jobs (JobPool.jobs_begun_iff.mpr hk)
  have hl' := JobPool.payloads_of_jobs (JobPool.jobs_begun_iff.mpr hl)
  rw [hpayloads] at hk' hl'
  obtain rfl := eq_of_tid_eq hids hk' hl' htid
  rw [hk] at hl
  cases hl
  exact ⟨rfl, rfl⟩

end TaskQueue

namespace WaitCall

open TaskQueue

variable {φ α : Type} {n : ℤ}

/-- Each poll finds the queue at a moment of the run, and they go on with the run. -/
structure PollsAlong (c : WaitCall φ α)
    (ρ : Machine.InfiniteRun (step (φ := φ) (α := α)) (init n)) (moment : ℕ → ℕ) : Prop where
  queues_eq : ∀ i, c.queues i = ρ.state (moment i)
  goes_on : ∀ m, ∃ i, m ≤ moment i

/-- Without a time limit, the call returns what the first poll that sees the end has found. -/
theorem returns_of_seesEnd {c : WaitCall φ α} (htimeout : c.timeout = none) {i : ℕ}
    (hend : c.SeesEnd i) :
    ∃ polls first, c.SeesEnd first ∧ c.wait_for polls = some (c.found first) := by
  have hnever (j : ℕ) : ¬ c.TimesOut j := by
    rintro ⟨limit, hlimit, -⟩
    rw [htimeout] at hlimit
    cases hlimit
  obtain ⟨first, -, hfirst, hbefore⟩ := exists_first_end hend
  obtain ⟨polls, hpolls⟩ := returns_seen hfirst fun j hj => ⟨hbefore j hj, hnever j⟩
  exact ⟨polls, first, hfirst, hpolls⟩

end WaitCall

namespace TaskQueue

variable {φ α : Type} {n : ℤ} {ρ : Machine.InfiniteRun (step (φ := φ) (α := α)) (init n)}

/-- Every task that is submitted to a queue that serves, before its start or behind it, ends. From
then on `get_status` shows its own outcome, as COMPLETED or FAILED, and every `wait_for` of its id
without a time limit, whenever it was called, returns this outcome. -/
theorem submitted_tasks_end {s : ℕ} (h : Serving ρ s) (hn : 0 < n)
    (hids : ∀ l, ((submissions (ρ.events l)).map QueueItem.tid).Nodup) {l : ℕ}
    {item : QueueItem φ} (hitem : item ∈ submissions (ρ.events l)) :
    ∃ m outcome, (item, outcome) ∈ JobPool.finished (past ρ m) ∧
      (∀ j, m ≤ j → ∃ record, (ρ.state j).getStatus item.tid = some record ∧
        record.Shows item (.begun (.ended outcome)) ∧ record.status.Terminal) ∧
      ∀ (c : WaitCall φ α) moment, c.PollsAlong ρ moment → c.task_id = item.tid →
        c.timeout = none → ∃ polls record, c.wait_for polls = some (some record) ∧
          record.Shows item (.begun (.ended outcome)) := by
  obtain ⟨m, outcome, hfinished⟩ := h.exists_finished hn hids hitem
  -- The function did not end in an exception that leaves the loop.
  have hcaught : ∀ e, outcome = .error e → e.IsException := by
    rintro e rfl
    obtain ⟨w, now, hmem⟩ := exists_finish_of_mem_finished hfinished
    obtain ⟨k, -, hevent⟩ := List.mem_map.mp hmem
    have hcatch := h.catchable k
    rw [hevent] at hcatch
    exact hcatch
  have hget (j : ℕ) (hj : m ≤ j) : ∃ record, (ρ.state j).getStatus item.tid = some record ∧
      record.Shows item (.begun (.ended outcome)) ∧ record.status.Terminal := by
    have hstill := mem_finished_of_le hj hfinished
    obtain ⟨record, hget, hshows⟩ := shows_of_finished (ρ.run_events j) (hids j) hstill
    exact ⟨record, hget, hshows, hshows.terminal hcaught⟩
  refine ⟨m, outcome, hfinished, hget, fun c moment hpolls hid htimeout => ?_⟩
  have hfound (i : ℕ) : c.found i = (ρ.state (moment i)).getStatus item.tid := by
    rw [WaitCall.found, hpolls.queues_eq, hid]
  obtain ⟨i, hi⟩ := hpolls.goes_on m
  obtain ⟨record, hrecord, -, hterminal⟩ := hget (moment i) hi
  obtain ⟨polls, first, ⟨record', hmem, hterminal'⟩, hback⟩ :=
    WaitCall.returns_of_seesEnd htimeout ⟨record, (hfound i).trans hrecord, hterminal⟩
  have hfirst : (ρ.state (moment first)).getStatus item.tid = some record' :=
    (hfound first).symm.trans hmem
  -- What the first poll saw ended is the same task, which ends once.
  obtain ⟨item', outcome', htid, hfinished'⟩ :=
    exists_finished (ρ.run_events (moment first)) (hids _) hfirst hterminal'
  obtain ⟨record₂, hrecord₂, hshows⟩ :=
    shows_of_finished (ρ.run_events (moment first)) (hids _) hfinished'
  have hfirst' := mem_finished_of_le (Nat.le_max_right m (moment first)) hfinished'
  have hlast := mem_finished_of_le (Nat.le_max_left m (moment first)) hfinished
  obtain ⟨rfl, rfl⟩ := finished_unique (ρ.run_events _) (hids _) hfirst' hlast htid
  obtain rfl := Option.some.inj (hfirst.symm.trans hrecord₂)
  exact ⟨polls, record', hback.trans (congrArg some hmem), hshows⟩

/-- A task that is served, and then timeouts for ever. -/
def servedEvents : ℕ → Event ℕ ℕ
  | 0 => .start
  | 1 => .begin 0
  | 2 => .submit 7 (some "a") "" 0
  | 3 => .take 0 1
  | 4 => .finish 0 (.ok 5) 2
  | _ => .timeout 0

/-- The timeouts leave the queue as it is. -/
theorem servedEvents_state (k : ℕ) :
    Machine.statesAlong step (init 1) servedEvents (k + 5) =
      Machine.statesAlong step (init 1) servedEvents 5 := by
  induction k with
  | zero => rfl
  | succ k ih =>
    show (step (Machine.statesAlong step (init 1) servedEvents (k + 5)) (.timeout 0)).getD
      (Machine.statesAlong step (init 1) servedEvents (k + 5)) = _
    rw [ih]
    rfl

/-- Their infinite run. -/
def servedForEver : Machine.InfiniteRun (step (φ := ℕ) (α := ℕ)) (init 1) :=
  .along servedEvents fun k =>
    match k with
    | 0 | 1 | 2 | 3 | 4 => rfl
    | k + 5 => by
      rw [servedEvents_state]
      rfl

/-- It has one submission. -/
theorem submissions_servedForEver (k : ℕ) :
    submissions (servedForEver.events (k + 3)) = [⟨"a", 7⟩] := by
  induction k with
  | zero => rfl
  | succ k ih =>
    have hnone : (servedEvents (k + 3)).submission? = none := by
      match k with
      | 0 | 1 | _ + 2 => rfl
    rw [show k + 1 + 3 = k + 3 + 1 from rfl, servedForEver.events_succ, submissions_concat, ih]
    show [(⟨"a", 7⟩ : QueueItem ℕ)] ++ (servedEvents (k + 3)).submission?.toList = _
    rw [hnone]
    rfl

/-- It has at most one worker. -/
theorem length_workers_servedForEver (l : ℕ) : (servedForEver.state l).workers.length ≤ 1 := by
  match l with
  | 0 | 1 | 2 | 3 | 4 => decide
  | l + 5 =>
    have hstate : servedForEver.state (l + 5) = servedForEver.state 5 := servedEvents_state l
    rw [hstate]
    decide

/-- Its queue serves from the start on. -/
theorem serving_servedForEver : Serving servedForEver 0 where
  stopped := rfl
  start := rfl
  goes_on l hl wait := by
    match l with
    | 1 | 2 | 3 | 4 | _ + 5 =>
      intro hevent
      cases hevent
  catchable l := by
    match l with
    | 0 | 1 | 2 | 3 | 4 | _ + 5 => exact trivial
  comes_back l w s _ hw _ := by
    have hlt := (List.getElem?_eq_some_iff.mp hw).1
    obtain rfl : w = 0 := by
      have hlength := length_workers_servedForEver l
      omega
    -- Each event from the first on is a segment of the only worker, but for the submission.
    match l with
    | 0 => exact ⟨1, Nat.zero_le 1, rfl⟩
    | 1 => exact ⟨1, Nat.le_refl 1, rfl⟩
    | 2 => exact ⟨3, Nat.le_succ 2, rfl⟩
    | 3 => exact ⟨3, Nat.le_refl 3, rfl⟩
    | 4 => exact ⟨4, Nat.le_refl 4, rfl⟩
    | l + 5 => exact ⟨l + 5, Nat.le_refl _, rfl⟩
  takes l w _ _ hqueue := by
    match l with
    | 0 | 1 | 2 => exact ⟨3, 0, 1, by omega, rfl⟩
    | 3 => exact ⟨3, 0, 1, Nat.le_refl 3, rfl⟩
    | 4 => exact absurd rfl hqueue
    | l + 5 =>
      have hstate : servedForEver.state (l + 5) = servedForEver.state 5 := servedEvents_state l
      rw [hstate] at hqueue
      exact absurd rfl hqueue

/-- The task ends. -/
theorem submitted_tasks_end_servedForEver :
    ∃ m outcome, ((⟨"a", 7⟩ : QueueItem ℕ), outcome) ∈ JobPool.finished (past servedForEver m) ∧
      ∀ j, m ≤ j → ∃ record, (servedForEver.state j).getStatus "a" = some record ∧
        record.Shows ⟨"a", 7⟩ (.begun (.ended outcome)) ∧ record.status.Terminal := by
  have hids (l : ℕ) : ((submissions (servedForEver.events l)).map QueueItem.tid).Nodup := by
    match l with
    | 0 | 1 | 2 => decide
    | l + 3 =>
      rw [submissions_servedForEver]
      decide
  have hitem : (⟨"a", 7⟩ : QueueItem ℕ) ∈ submissions (servedForEver.events 3) := by decide
  obtain ⟨m, outcome, hfinished, hget, -⟩ :=
    submitted_tasks_end serving_servedForEver Int.one_pos hids hitem
  exact ⟨m, outcome, hfinished, hget⟩

end TaskQueue

end YellowBull
