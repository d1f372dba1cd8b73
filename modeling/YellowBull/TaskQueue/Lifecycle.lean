import YellowBull.TaskQueue.Refinement

/-!
# The life of a task

What the refinement says of the queue itself. With distinct ids every task is queued, held or ended,
its status only moves forward, and functions start in the order of submission (`lifecycle`). With
ids that are used again, the table shows the latest submission of an id as long as workers take only
latest items (`reports_latest`); a worker that takes an older one writes to the `TaskResult` of the
later submission.
-/

namespace YellowBull

open Py

/-- The ways in which the status that `get_status` reads may change in one step. -/
inductive TaskStatus.Move : Option TaskStatus → Option TaskStatus → Prop
  | refl (s : Option TaskStatus) : Move s s
  | submit : Move none (some .pending)
  | start : Move (some .pending) (some .running)
  | complete : Move (some .running) (some .completed)
  | fail : Move (some .running) (some .failed)

namespace TaskQueue

variable {φ α : Type}

/-! ## What is observed of a run -/

/-- Items leave the queue at its head and enter it at its end. -/
theorem queue_step {q q' : TaskQueue φ α} {e : Event φ α} (hstep : q.step e = some q') :
    ∃ taken, taken ++ q'.queue = q.queue ++ e.submission?.toList := by
  cases step_cases hstep with
  | start =>
    refine ⟨[], ?_⟩
    unfold start
    split <;> simp [Event.submission?]
  | submit fn task_id uuid now => exact ⟨[], rfl⟩
  | @take w item rest result now hw hqueue hresult =>
    exact ⟨[item], by simp [hqueue, Event.submission?]⟩
  | @unknown w item rest now hw hqueue hresult =>
    exact ⟨[item], by simp [hqueue, Event.submission?]⟩
  | _ => exact ⟨[], (List.append_nil _).symm⟩

/-- The submissions of two runs. -/
theorem submissions_append (es es' : List (Event φ α)) :
    submissions (es ++ es') = submissions es ++ submissions es' := List.filterMap_append

/-- The submission of one event, if it is one. -/
theorem submissions_singleton (e : Event φ α) : submissions [e] = e.submission?.toList := by
  unfold submissions
  cases hs : e.submission? <;> simp [hs]

/-- The submissions of a run with one more event at the start. -/
theorem submissions_cons (e : Event φ α) (es : List (Event φ α)) :
    submissions (e :: es) = e.submission?.toList ++ submissions es := by
  rw [← List.singleton_append, submissions_append, submissions_singleton]

/-- The submissions of a run with one more event at the end. -/
theorem submissions_concat (es : List (Event φ α)) (e : Event φ α) :
    submissions (es ++ [e]) = submissions es ++ e.submission?.toList := by
  rw [submissions_append, submissions_singleton]

/-- The queue is what remains of the submissions. -/
theorem queue_run {q q' : TaskQueue φ α} {es : List (Event φ α)} (hrun : run q es = some q') :
    ∃ taken, taken ++ q'.queue = q.queue ++ submissions es := by
  induction es generalizing q with
  | nil =>
    cases hrun
    exact ⟨[], by simp [submissions]⟩
  | cons e es ih =>
    obtain ⟨q₁, h₁, hrun⟩ := Option.bind_eq_some_iff.mp hrun
    obtain ⟨taken, htaken⟩ := queue_step h₁
    obtain ⟨taken', htaken'⟩ := ih hrun
    refine ⟨taken ++ taken', ?_⟩
    calc (taken ++ taken') ++ q'.queue = taken ++ (q₁.queue ++ submissions es) := by
          rw [List.append_assoc, htaken']
      _ = q.queue ++ submissions (e :: es) := by
          rw [← List.append_assoc, htaken, submissions_cons, List.append_assoc]

/-- Where no id is used twice, no item waits behind another of its id. -/
theorem takesLatest_of_nodup {n : ℤ} {es : List (Event φ α)}
    (hids : ((submissions es).map QueueItem.tid).Nodup) :
    Machine.EveryRunStep step TakesLatest (init n : TaskQueue φ α) es := by
  refine .of_prefixes fun pre e q hpre hrun => ?_
  obtain ⟨taken, htaken⟩ := queue_run hrun
  obtain ⟨post, rfl⟩ := hpre
  -- The ids in the queue are distinct, since all that were submitted so far are.
  have hnodup : (q.queue.map QueueItem.tid).Nodup := by
    have hpre : submissions pre = taken ++ q.queue := htaken.symm
    rw [submissions_append, submissions_append, hpre, List.map_append, List.map_append,
      List.map_append] at hids
    have htids := (List.nodup_append.mp (List.nodup_append.mp hids).1).1
    exact (List.nodup_append.mp htids).2.1
  cases e with
  | take w now =>
    -- So no later item has the id of the one that is taken.
    intro item hitem later hlater heq
    cases hq : q.queue with
    | nil => simp [hq] at hitem
    | cons item' rest =>
      simp only [hq, List.head?_cons, Option.mem_some_iff] at hitem
      subst hitem
      simp only [hq, List.map_cons, List.nodup_cons] at hnodup
      simp only [hq, List.tail_cons] at hlater
      exact hnodup.1 (List.mem_map.mpr ⟨later, hlater, heq⟩)
  | _ => trivial

/-- The jobs submitted in the history are those that the events submit. -/
theorem submissions_history {q q' : TaskQueue φ α} {es : List (Event φ α)}
    (hrun : run q es = some q') : JobPool.submissions (history q es) = submissions es := by
  induction es generalizing q with
  | nil => rfl
  | cons e es ih =>
    obtain ⟨q₁, h₁, hrun⟩ := Option.bind_eq_some_iff.mp hrun
    -- Only `submit` is a submission of the pool; the other observations are of jobs that are there.
    have hobs : (q.observe e).filterMap JobPool.Op.submission? = e.submission?.toList := by
      cases e with
      | take w now =>
        simp only [observe]
        cases q.queue.head? <;> rfl
      | finish w outcome now =>
        simp only [observe]
        split <;> rfl
      | _ => rfl
    have hhist : history q (e :: es) = q.observe e ++ history q₁ es := by
      simp [history, Machine.trace, h₁]
    rw [hhist, JobPool.submissions, List.filterMap_append, hobs, submissions_cons, ← ih hrun]
    rfl

/-- A task that ended did so in an event of the run. -/
theorem exists_finish_of_mem_finished {q : TaskQueue φ α} {es : List (Event φ α)}
    {item : QueueItem φ} {outcome : Except Exn α}
    (h : (item, outcome) ∈ JobPool.finished (history q es)) :
    ∃ w now, Event.finish w outcome now ∈ es := by
  induction es generalizing q with
  | nil => simp [history, Machine.trace, JobPool.finished] at h
  | cons e es ih =>
    simp only [JobPool.finished, history, Machine.trace, List.filterMap_append, List.mem_append]
      at h
    rcases h with h | h
    -- Only the end of a task is observed as one, with the outcome that the event carries.
    · cases e with
      | take w now => cases hq : q.queue <;> simp [observe, hq, JobPool.Op.finished?] at h
      | finish w o now =>
        simp only [observe] at h
        split at h
        next =>
          obtain ⟨-, rfl⟩ : _ ∧ outcome = o := by simpa [JobPool.Op.finished?] using h
          exact ⟨w, now, by simp⟩
        next => simp at h
      | _ => simp [observe, JobPool.Op.finished?] at h
    · cases h₁ : q.step e with
      | none => simp [h₁] at h
      | some q₁ =>
        rw [h₁] at h
        obtain ⟨w, now, hmem⟩ := ih h
        exact ⟨w, now, List.mem_cons_of_mem e hmem⟩

/-! ## Distinct ids -/

/-- Distinct ids tell positions apart. -/
theorem eq_of_tid_eq {items : List (QueueItem φ)} (hids : (items.map QueueItem.tid).Nodup)
    {k l : ℕ} {x y : QueueItem φ} (hk : items[k]? = some x) (hl : items[l]? = some y)
    (htid : x.tid = y.tid) : k = l := by
  have hlt : k < (items.map QueueItem.tid).length := by
    rw [List.length_map]
    exact (List.getElem?_eq_some_iff.mp hk).1
  refine (List.getElem?_inj hlt hids).mp ?_
  rw [List.getElem?_map, List.getElem?_map, hk, hl, Option.map_some, Option.map_some, htid]

/-- The only item of an id is the latest. -/
theorem latest_of_nodup {items : List (QueueItem φ)} (hids : (items.map QueueItem.tid).Nodup)
    {k : ℕ} {item : QueueItem φ} (hk : items[k]? = some item) : Latest items item.tid k := by
  refine ⟨⟨item, hk, rfl⟩, fun j later hj hlater htid => ?_⟩
  have := eq_of_tid_eq hids hk hlater htid.symm
  omega

/-- The task of an item is in the situation of a stage: `ops` is what happened to the tasks so far,
and each line settles in which stages the item is queued, held or ended. -/
structure Stands (q : TaskQueue φ α) (ops : List (JobPool.Op (QueueItem φ) ℕ (Except Exn α)))
    (item : QueueItem φ) (stage : Stage ℕ (Except Exn α)) : Prop where
  queued_once : (q.queue.map QueueItem.tid).count item.tid ≤ 1
  queued_iff : item.tid ∈ q.queue.map QueueItem.tid ↔ stage = .waiting
  held_iff : ∀ w, (∃ held k, q.Executes w held k ∧ held.tid = item.tid) ↔
    stage = .begun (.held w)
  ended_iff : ∀ outcome, (item, outcome) ∈ JobPool.finished ops ↔ stage = .begun (.ended outcome)
  shows : ∃ record, q.getStatus item.tid = some record ∧ record.Shows item stage ∧
    (record.status.Terminal ↔ ∃ outcome, stage = .begun (.ended outcome))

/-- An item has one situation. -/
theorem Stands.unique {q : TaskQueue φ α}
    {ops : List (JobPool.Op (QueueItem φ) ℕ (Except Exn α))} {item : QueueItem φ}
    {s t : Stage ℕ (Except Exn α)} (hs : q.Stands ops item s) (ht : q.Stands ops item t) :
    t = s := by
  cases s with
  | waiting => exact ht.queued_iff.mp (hs.queued_iff.mpr rfl)
  | begun p =>
    cases p with
    | held w => exact (ht.held_iff w).mp ((hs.held_iff w).mpr rfl)
    | ended o => exact (ht.ended_iff o).mp ((hs.ended_iff o).mpr rfl)

section Distinct

variable {q : TaskQueue φ α} {ops : List (JobPool.Op (QueueItem φ) ℕ (Except Exn α))}

/-- `get_status` reads the `TaskResult` of the latest submission. -/
theorem Refines.getStatus_eq {pool : JobPool (QueueItem φ) ℕ (Except Exn α)} (h : q.Refines pool)
    {tid : String} {k : ℕ} (hk : Latest pool.payloads tid k) :
    q.getStatus tid = some (q.heap.read k) := by
  rw [getStatus, (h.results_iff tid k).mpr hk, Option.map_some]

/-- What `get_status` reads is the `TaskResult` of a task, the latest of the id, at its stage. -/
theorem Refines.exists_job {pool : JobPool (QueueItem φ) ℕ (Except Exn α)} (h : q.Refines pool)
    {tid : String} {record : TaskResult α} (hget : q.getStatus tid = some record) :
    ∃ (k : ℕ) (item : QueueItem φ) (stage : Stage ℕ (Except Exn α)),
      Latest pool.payloads tid k ∧ pool.jobs[k]? = some (item, stage) ∧
        record.Shows item stage := by
  obtain ⟨k, hk, rfl⟩ := Option.map_eq_some_iff.mp hget
  have hlatest := (h.results_iff tid k).mp hk
  obtain ⟨item, hitem, -⟩ := hlatest.1
  obtain ⟨stage, hstage⟩ := JobPool.exists_stage hitem
  exact ⟨k, item, stage, hlatest, hstage, h.shows k item stage hstage⟩

/-- With distinct ids, a job of the pool at a stage is a task in that situation. -/
theorem Refines.stands (h : q.Refines (JobPool.replay ops)) (hops : JobPool.Orderly ops)
    (hids : ((JobPool.replay ops).payloads.map QueueItem.tid).Nodup)
    (hends : ∀ item outcome, (item, outcome) ∈ JobPool.finished ops →
      ∀ e, outcome = .error e → e.IsException)
    {k : ℕ} {item : QueueItem φ} {stage : Stage ℕ (Except Exn α)}
    (hk : (JobPool.replay ops).jobs[k]? = some (item, stage)) : q.Stands ops item stage := by
  have hitem := JobPool.payloads_of_jobs hk
  -- Another job of the same id is the same job.
  have hsame {l : ℕ} {other : QueueItem φ} {stage' : Stage ℕ (Except Exn α)}
      (hl : (JobPool.replay ops).jobs[l]? = some (other, stage')) (htid : other.tid = item.tid) :
      stage = stage' := by
    obtain rfl := eq_of_tid_eq hids hitem (JobPool.payloads_of_jobs hl) htid.symm
    rw [hk] at hl
    cases hl
    rfl
  have hended {outcome : Except Exn α} :
      (item, outcome) ∈ JobPool.finished ops ↔ stage = .begun (.ended outcome) := by
    rw [hops.mem_finished_iff]
    constructor
    · intro hmem
      obtain ⟨l, hl⟩ := List.getElem?_of_mem hmem
      exact hsame (JobPool.jobs_begun_iff.mpr hl) rfl
    · rintro rfl
      exact List.mem_of_getElem? (JobPool.jobs_begun_iff.mp hk)
  have hshows := h.shows k item stage hk
  constructor
  case queued_once =>
    refine List.nodup_iff_count_le_one.mp ?_ item.tid
    rw [JobPool.payloads, List.map_append, ← h.queue_eq] at hids
    exact (List.nodup_append.mp hids).2.1
  case queued_iff =>
    rw [h.queue_eq, List.mem_map]
    constructor
    · rintro ⟨other, hmem, htid⟩
      obtain ⟨l, hl⟩ := List.getElem?_of_mem hmem
      refine hsame (l := (JobPool.replay ops).started.length + l) ?_ htid
      rw [JobPool.jobs_waiting_iff]
      exact ⟨Nat.le_add_right _ l, by rw [Nat.add_sub_cancel_left, hl]⟩
    · rintro rfl
      exact ⟨item, List.mem_of_getElem? (JobPool.jobs_waiting_iff.mp hk).2, rfl⟩
  case held_iff =>
    intro w
    constructor
    · rintro ⟨held, l, hexec, htid⟩
      have hl := (h.executes_iff w held l).mp hexec
      exact hsame (JobPool.jobs_begun_iff.mpr hl) htid
    · rintro rfl
      exact ⟨item, k, (h.executes_iff w item k).mpr (JobPool.jobs_begun_iff.mp hk), rfl⟩
  case ended_iff => exact fun outcome => hended
  case shows =>
    refine ⟨_, h.getStatus_eq (latest_of_nodup hids hitem), hshows, hshows.ended_of_terminal, ?_⟩
    rintro ⟨outcome, rfl⟩
    exact hshows.terminal (hends item outcome (hended.mpr rfl))

/-- The status of a task that moves on by one stage, or by none, moves by one edge, or by none. -/
theorem move_of_shows {record record' : TaskResult α} {item : QueueItem φ}
    {s s' : Stage ℕ (Except Exn α)} (h : record.Shows item s) (h' : record'.Shows item s')
    (hs : s' = s ∨ s.Next s') :
    TaskStatus.Move (some record.status) (some record'.status) := by
  -- The records show what the pool says of the job, before and after.
  rcases hs with rfl | hnext
  · rw [(h.agree h').1]
    exact .refl _
  · obtain ⟨-, h⟩ := h
    obtain ⟨-, h'⟩ := h'
    cases hnext with
    | begin w =>
      rw [h.1, h'.1]
      exact .start
    | finish w outcome =>
      rw [h.1]
      -- A task that raised has failed if the handler caught it, and else stays running.
      cases outcome with
      | ok value =>
        rw [h'.1]
        exact .complete
      | error e =>
        rw [h'.1]
        split
        · exact .fail
        · exact .refl _

/-- With distinct ids, a step moves the status read for an id by at most one edge. -/
theorem Refines.move (h : q.Refines (JobPool.replay ops)) (hops : JobPool.Orderly ops)
    {e : Event φ α} {q' : TaskQueue φ α} (hok : q.TakesLatest e) (hstep : q.step e = some q')
    (hids : ((JobPool.replay (ops ++ q.observe e)).payloads.map QueueItem.tid).Nodup)
    (tid : String) :
    TaskStatus.Move ((q.getStatus tid).map (·.status)) ((q'.getStatus tid).map (·.status)) := by
  obtain ⟨hops', h'⟩ := h.step hops hok hstep
  cases hget : q.results.get? tid with
  | none =>
    have hbefore : q.getStatus tid = none := by rw [getStatus, hget, Option.map_none]
    cases hget' : q'.results.get? tid with
    | none =>
      rw [hbefore, getStatus, hget', Option.map_none]
      exact .refl _
    | some k =>
      -- The id has a latest task now and had none before: it is the one that the step submits.
      have hlatest' := (h'.results_iff tid k).mp hget'
      obtain ⟨new, hk⟩ := waiting_step hops' hstep hlatest' fun hlatest => by
        rw [(h.results_iff tid k).mpr hlatest] at hget
        cases hget
      have hpending := (h'.shows k new .waiting hk).2.1
      rw [hbefore, h'.getStatus_eq hlatest', Option.map_some, hpending]
      exact .submit
  | some k =>
    have hlatest := (h.results_iff tid k).mp hget
    obtain ⟨item, hitem, htid⟩ := hlatest.1
    obtain ⟨stage, hk⟩ := JobPool.exists_stage hitem
    have hnew : ∀ new ∈ e.submission?, new.tid ≠ tid := by
      intro new hnew heq
      have hpayloads := payloads_step hops' hstep
      rw [Option.mem_def.mp hnew, Option.toList_some] at hpayloads
      rw [hpayloads] at hids
      have hlt : k < (JobPool.replay ops).payloads.length :=
        (List.getElem?_eq_some_iff.mp hitem).1
      have hitem' : ((JobPool.replay ops).payloads ++ [new])[k]? = some item := by
        rw [List.getElem?_append_left hlt, hitem]
      have hsame := eq_of_tid_eq hids hitem' List.getElem?_concat_length (htid.trans heq.symm)
      exact absurd hsame (Nat.ne_of_lt hlt)
    obtain ⟨hlatest', stage', hk', hs⟩ := latest_step hops' hstep hnew hlatest hk
    rw [h.getStatus_eq hlatest, h'.getStatus_eq hlatest']
    exact move_of_shows (h.shows k item stage hk) (h'.shows k item stage' hk') hs

end Distinct

/-- The life of a task. With distinct ids and task functions that return or raise an `Exception`,
whatever the order in which calls and workers take their steps: functions are started in the order
of submission, each at most once, and the others wait; each submitted task is in just one situation;
and a step moves a status by at most one edge. -/
theorem lifecycle {n : ℤ} {es : List (Event φ α)} {q : TaskQueue φ α}
    (hrun : run (init n) es = some q) (hids : ((submissions es).map QueueItem.tid).Nodup)
    (hends : ∀ e ∈ es, e.Catchable) :
    JobPool.begun (history (init n) es) ++ q.queue = submissions es ∧
      (∀ item ∈ submissions es, ∃! stage, q.Stands (history (init n) es) item stage) ∧
      ∀ e q', q.step e = some q' → ((submissions (es ++ [e])).map QueueItem.tid).Nodup →
        ∀ tid, TaskStatus.Move ((q.getStatus tid).map (·.status))
          ((q'.getStatus tid).map (·.status)) := by
  obtain ⟨hops, h⟩ := refines_run (takesLatest_of_nodup hids) hrun
  -- The jobs of the pool are the submissions, in their order.
  have hpayloads : (JobPool.replay (history (init n) es)).payloads = submissions es := by
    rw [hops.payloads_eq, submissions_history hrun]
  refine ⟨?_, fun item hitem => ?_, fun e q' hstep hids' tid => ?_⟩
  · rw [h.queue_eq, hops.begun_append_waiting, submissions_history hrun]
  · rw [← hpayloads] at hitem hids
    obtain ⟨k, hk⟩ := List.getElem?_of_mem hitem
    obtain ⟨stage, hk⟩ := JobPool.exists_stage hk
    -- With distinct ids a submitted item stands at its own job.
    have hstands := h.stands hops hids ?_ hk
    · exact ⟨stage, hstands, fun stage' h' => hstands.unique h'⟩
    · rintro x outcome hmem e rfl
      obtain ⟨w, now, hmem⟩ := exists_finish_of_mem_finished hmem
      exact hends _ hmem
  -- A move of the pool's job is a move of the status.
  · have hok : q.TakesLatest e := (takesLatest_of_nodup hids').last hrun
    refine h.move hops hok hstep ?_ tid
    rwa [payloads_step (h.step hops hok hstep).1 hstep, hpayloads, ← submissions_concat]

/-- Two workers, a task that fails, one that a `stop` finds at work, and a second `start`. -/
def restartedRun : List (Event ℕ ℕ) :=
  [.start, .begin 0, .begin 1, .submit 7 (some "a") "" 0, .submit 8 (some "b") "" 0, .take 0 1,
    .take 1 1, .finish 1 (.error ⟨.other, "boom"⟩) 2, .stop true, .finish 0 (.ok 3) 4, .timeout 1,
    .stopped 2, .start, .submit 9 none "c" 5]

/-- Each of its submissions stands at one stage. -/
theorem lifecycle_restartedRun :
    ∃ q, run (init 2) restartedRun = some q ∧
      ∀ item ∈ submissions restartedRun, ∃! stage,
        q.Stands (history (init 2) restartedRun) item stage :=
  ⟨_, rfl, (lifecycle rfl (by decide) (by decide)).2.1⟩

/-! ## Ids that are used again -/

/-- Where `get_status` reads a terminal status, the latest submission of the id has ended, and its
own outcome is what the `TaskResult` shows. -/
def OwnOutcomes (q : TaskQueue φ α) (items : List (QueueItem φ))
    (pool : JobPool (QueueItem φ) ℕ (Except Exn α)) : Prop :=
  ∀ tid record, q.getStatus tid = some record → record.status.Terminal →
    ∃ k item outcome, Latest items tid k ∧
      pool.jobs[k]? = some (item, .begun (.ended outcome)) ∧
      record.Shows item (.begun (.ended outcome))

/-- Where workers take only latest items, the `TaskResult` of each submission shows that submission,
a terminal status is that of the latest submission of the id, and it stays as it is until the id is
submitted again. -/
theorem reports_latest {n : ℤ} {es : List (Event φ α)} {q : TaskQueue φ α}
    (hrun : run (init n) es = some q)
    (hok : Machine.EveryRunStep step TakesLatest (init n) es) :
    (∀ k item stage, (JobPool.replay (history (init n) es)).jobs[k]? = some (item, stage) →
        (q.heap.read k).Shows item stage) ∧
      q.OwnOutcomes (submissions es) (JobPool.replay (history (init n) es)) ∧
      ∀ e q', q.TakesLatest e → q.step e = some q' → ∀ tid,
        (∀ new ∈ e.submission?, new.tid ≠ tid) → ∀ record, q.getStatus tid = some record →
        record.status.Terminal → ∃ record', q'.getStatus tid = some record' ∧
          record'.status = record.status ∧ record'.result = record.result ∧
          record'.error = record.error := by
  obtain ⟨hops, h⟩ := refines_run hok hrun
  have hpayloads : (JobPool.replay (history (init n) es)).payloads = submissions es := by
    rw [hops.payloads_eq, submissions_history hrun]
  refine ⟨h.shows, ?_, ?_⟩
  -- A terminal record belongs to a job that has ended, the latest of its id.
  · intro tid record hget hterminal
    obtain ⟨k, item, stage, hlatest, hk, hshows⟩ := h.exists_job hget
    obtain ⟨outcome, rfl⟩ := hshows.ended_of_terminal hterminal
    exact ⟨k, item, outcome, hpayloads ▸ hlatest, hk, hshows⟩
  -- No later item of the id is submitted, so the latest job is the same one, and it has ended.
  · intro e q' hok' hstep tid hnew record hget hterminal
    obtain ⟨k, item, stage, hlatest, hk, hshows⟩ := h.exists_job hget
    obtain ⟨outcome, rfl⟩ := hshows.ended_of_terminal hterminal
    obtain ⟨hops', h'⟩ := h.step hops hok' hstep
    obtain ⟨hlatest', stage', hk', hs⟩ := latest_step hops' hstep hnew hlatest hk
    obtain rfl : stage' = .begun (.ended outcome) := by
      rcases hs with rfl | hnext
      · rfl
      · cases hnext
    exact ⟨_, h'.getStatus_eq hlatest', hshows.agree (h'.shows k item _ hk')⟩

/-- An id that is used again once its first task has ended. -/
def againRun : List (Event ℕ ℕ) :=
  [.start, .begin 0, .submit 7 (some "a") "" 0, .take 0 1, .finish 0 (.ok 3) 2,
    .submit 8 (some "a") "" 3, .take 0 4, .finish 0 (.error ⟨.other, "boom"⟩) 5]

/-- The id shows the outcome of its second task. -/
theorem reports_latest_againRun :
    ∃ q, run (init 1) againRun = some q ∧
      q.OwnOutcomes (submissions againRun) (JobPool.replay (history (init 1) againRun)) :=
  ⟨_, rfl, (reports_latest rfl (by decide)).2.1⟩

/-- An id that is used again while its first task waits. -/
def reusedRun : List (Event ℕ ℕ) :=
  [.start, .begin 0, .submit 7 (some "a") "" 0, .submit 8 (some "a") "" 0, .take 0 1,
    .finish 0 (.ok 3) 2]

/-- The outcome of the first task is shown where the second has not begun. -/
theorem not_ownOutcomes_reusedRun :
    ∃ q, run (init 1) reusedRun = some q ∧
      ¬ q.OwnOutcomes (submissions reusedRun)
        (JobPool.replay (history (init 1) reusedRun)) := by
  refine ⟨_, rfl, fun h => ?_⟩
  obtain ⟨k, item, outcome, hlatest, hk, -⟩ := h "a" _ rfl (Or.inl rfl)
  have hjobs : (JobPool.replay (history (init 1) reusedRun)).jobs =
      [(⟨"a", 7⟩, .begun (.ended (.ok 3))), (⟨"a", 8⟩, .waiting)] := rfl
  rw [hjobs] at hk
  match k, hk, hlatest with
  | 0, _, hlatest => exact hlatest.2 1 ⟨"a", 8⟩ Nat.one_pos rfl rfl
  | 1, hk, _ => cases hk

end TaskQueue

end YellowBull
