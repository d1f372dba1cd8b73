import Mathlib.Order.Filter.AtTopBot.Basic
import Mathlib.Order.Filter.Finite
import YellowBull.Lib.Progress
import YellowBull.TaskQueue.Lifecycle

/-!
# What comes of a stop

The event loop comes back to each worker: a loop that was created begins, a `get` ends, by its time
limit at the latest, and a function ends (`ComesBack`). Then, after a `stop`, every worker loop
ends, and each `stop(wait=True)` returns (`stop_returns`). By then the workers have taken at most as
many items as there were workers awaiting one, and the others are left in the queue
(`stop_leaves_queue`).
-/

namespace YellowBull

open Py

/-- How many more segments a worker loop of a stopped queue has, at most. -/
def Worker.segmentsLeft {φ : Type} : Worker φ → ℕ
  | .created => 1
  | .getting => 2
  | .executing _ _ => 1
  | .ended => 0
  | .raised _ => 0

/-- A worker loop is over just if it has no segment left. -/
theorem Worker.over_iff {φ : Type} {s : Worker φ} : s.Over ↔ s.segmentsLeft = 0 := by
  cases s <;> simp [Over, segmentsLeft]

/-- The worker awaits an item. -/
def Worker.isGetting {φ : Type} : Worker φ → Bool
  | .getting => true
  | _ => false

namespace TaskQueue

variable {φ α : Type}

/-- The worker whose segment an event is. -/
def Event.worker? : Event φ α → Option ℕ
  | .begin w => some w
  | .timeout w => some w
  | .take w _ => some w
  | .finish w _ _ => some w
  | _ => none

section Step

variable {q q' : TaskQueue φ α} {e : Event φ α} {w : ℕ} {s : Worker φ}

/-- A worker stands where it is until its next segment. -/
theorem worker_step (hw : q.workers[w]? = some s) (hother : e.worker? ≠ some w)
    (hstep : q.step e = some q') : q'.workers[w]? = some s := by
  have hset {v : ℕ} (hv : e.worker? = some v) (s' : Worker φ) :
      (q.workers.set v s')[w]? = some s := by
    have hne : v ≠ w := by
      rintro rfl
      exact hother hv
    rw [List.getElem?_set_ne hne, hw]
  -- A step sets its own worker only; `start` puts the new ones behind.
  cases step_cases hstep with
  | start =>
    unfold start
    split
    · exact hw
    · have hlt := (List.getElem?_eq_some_iff.mp hw).1
      exact (List.getElem?_append_left hlt).trans hw
  | begin => exact hset rfl _
  | timeout => exact hset rfl _
  | take => exact hset rfl _
  | unknown => exact hset rfl _
  | finish => exact hset rfl _
  | lost => exact hset rfl _
  | _ => exact hw

/-- What a segment makes of its worker. -/
inductive Segment (q : TaskQueue φ α) (e : Event φ α) : Worker φ → Worker φ → Prop
  | begin : Segment q e .created q.loopHead
  | timeout : Segment q e .getting q.loopHead
  | take (item : QueueItem φ) (result : Ref) : Segment q e .getting (.executing item result)
  | unknown : Segment q e .getting (.raised .keyError)
  | finish (item : QueueItem φ) (result : Ref) : Segment q e (.executing item result) q.loopHead
  | lost (item : QueueItem φ) (result : Ref) (cls : ExnClass) (hlost : ¬ e.Catchable) :
    Segment q e (.executing item result) (.raised cls)

/-- An event of a worker is a segment of its loop. -/
theorem segment_cases (hw : q.workers[w]? = some s) (hown : e.worker? = some w)
    (hstep : q.step e = some q') : ∃ s', q'.workers[w]? = some s' ∧ q.Segment e s s' := by
  have hlt := (List.getElem?_eq_some_iff.mp hw).1
  have hset (s' : Worker φ) : (q.workers.set w s')[w]? = some s' := List.getElem?_set_self hlt
  -- The step of a worker is its own segment, from the state that it is in.
  cases step_cases hstep with
  | start => cases hown
  | stop => cases hown
  | stopped => cases hown
  | submit => cases hown
  | begin hv =>
    obtain rfl := Option.some.inj hown
    obtain rfl := Option.some.inj (hv.symm.trans hw)
    exact ⟨_, hset _, .begin⟩
  | timeout hv =>
    obtain rfl := Option.some.inj hown
    obtain rfl := Option.some.inj (hv.symm.trans hw)
    exact ⟨_, hset _, .timeout⟩
  | take now hv =>
    obtain rfl := Option.some.inj hown
    obtain rfl := Option.some.inj (hv.symm.trans hw)
    exact ⟨_, hset _, .take _ _⟩
  | unknown now hv =>
    obtain rfl := Option.some.inj hown
    obtain rfl := Option.some.inj (hv.symm.trans hw)
    exact ⟨_, hset _, .unknown⟩
  | finish now hv =>
    obtain rfl := Option.some.inj hown
    obtain rfl := Option.some.inj (hv.symm.trans hw)
    exact ⟨_, hset _, .finish _ _⟩
  | lost now hv he =>
    obtain rfl := Option.some.inj hown
    obtain rfl := Option.some.inj (hv.symm.trans hw)
    exact ⟨_, hset _, .lost _ _ _ he⟩

/-- In a stopped queue it brings the worker nearer to its end. -/
theorem Segment.segmentsLeft_lt {s' : Worker φ} (h : q.Segment e s s')
    (hstopped : q.running = false) : s'.segmentsLeft < s.segmentsLeft := by
  have hhead : q.loopHead = .ended := by rw [loopHead, hstopped, if_neg Bool.false_ne_true]
  cases h with
  | begin => simp [hhead, Worker.segmentsLeft]
  | timeout => simp [hhead, Worker.segmentsLeft]
  | take => exact Nat.lt_succ_self 1
  | unknown => exact Nat.zero_lt_two
  | finish => simp [hhead, Worker.segmentsLeft]
  | lost => exact Nat.zero_lt_one

/-- In a queue that runs, a worker that does not await an item does so behind its segment, unless
its function is lost. -/
theorem Segment.eq_getting {s' : Worker φ} (h : q.Segment e s s') (hrunning : q.running = true)
    (hcatch : e.Catchable) (hs : s ≠ .getting) : s' = .getting := by
  have hhead : q.loopHead = .getting := by rw [loopHead, if_pos hrunning]
  cases h with
  | begin => exact hhead
  | timeout => exact absurd rfl hs
  | take => exact absurd rfl hs
  | unknown => exact absurd rfl hs
  | finish => exact hhead
  | lost item result cls hlost => exact absurd hcatch hlost

/-- A worker loop that is over has no segment. -/
theorem over_step (hw : q.workers[w]? = some s) (hover : s.Over) (hstep : q.step e = some q') :
    q'.workers[w]? = some s := by
  refine worker_step hw (fun hown => ?_) hstep
  obtain ⟨s', -, hsegment⟩ := segment_cases hw hown hstep
  cases hsegment with
  | begin => exact hover.elim
  | timeout => exact hover.elim
  | take => exact hover.elim
  | unknown => exact hover.elim
  | finish => exact hover.elim
  | lost => exact hover.elim

/-- A queue that is stopped stays so, with the workers it has, until the next `start`. -/
theorem stopped_step (hstopped : q.running = false) (hstart : e ≠ .start)
    (hstep : q.step e = some q') : q'.running = false ∧ q'.workers.length = q.workers.length := by
  cases step_cases hstep with
  | start => exact absurd rfl hstart
  | stop => exact ⟨rfl, rfl⟩
  | stopped => exact ⟨hstopped, rfl⟩
  | submit => exact ⟨hstopped, rfl⟩
  | _ => exact ⟨hstopped, List.length_set⟩

end Step

/-- How many workers await an item. -/
def getting (q : TaskQueue φ α) : ℕ := q.workers.countP Worker.isGetting

section Getting

variable {q q' : TaskQueue φ α} {w : ℕ} {s : Worker φ}

/-- A worker goes on to something else than an item. -/
theorem getting_set (hw : q.workers[w]? = some s) {s' : Worker φ} (hs' : s'.isGetting = false) :
    (q.workers.set w s').countP Worker.isGetting + (if s.isGetting then 1 else 0) = q.getting := by
  obtain ⟨hlt, hget⟩ := List.getElem?_eq_some_iff.mp hw
  have hpos : s.isGetting = true → 0 < q.workers.countP Worker.isGetting := fun hs =>
    List.countP_pos_iff.mpr ⟨s, List.mem_of_getElem? hw, hs⟩
  rw [List.countP_set hlt, hget, hs', if_neg Bool.false_ne_true, getting]
  split_ifs with hs
  · have hworker := hpos hs
    omega
  · omega

/-- In a stopped queue, an item costs a worker that awaits one. -/
theorem getting_step {e : Event φ α} (hstopped : q.running = false) (hstart : e ≠ .start)
    (hstep : q.step e = some q') :
    ∃ taken, taken ++ q'.queue = q.queue ++ e.submission?.toList ∧
      taken.length + q'.getting ≤ q.getting := by
  -- The flag is off, so a worker at the head of the loop goes out of it.
  have hhead : q.loopHead.isGetting = false := by
    rw [loopHead, hstopped, if_neg Bool.false_ne_true]
    rfl
  -- A step that takes nothing leaves no more workers at the queue than before.
  have hnone {s' : Worker φ} {w : ℕ} {s : Worker φ} (hw : q.workers[w]? = some s)
      (hs' : s'.isGetting = false) :
      ([] : List (QueueItem φ)).length + (q.workers.set w s').countP Worker.isGetting ≤
        q.getting := by
    have hcount := getting_set hw hs'
    simp only [List.length_nil]
    omega
  -- A worker that takes an item is at the queue no longer.
  have hone {s' : Worker φ} {w : ℕ} (item : QueueItem φ) (hw : q.workers[w]? = some .getting)
      (hs' : s'.isGetting = false) :
      [item].length + (q.workers.set w s').countP Worker.isGetting ≤ q.getting := by
    have hcount := getting_set hw hs'
    rw [Worker.isGetting, if_pos rfl] at hcount
    simp only [List.length_singleton]
    omega
  cases step_cases hstep with
  | start => exact absurd rfl hstart
  | submit fn task_id uuid now => exact ⟨[], rfl, by simp [submit, getting]⟩
  | @take w item rest result now hw hqueue hresult =>
    exact ⟨[item], by simp [hqueue, Event.submission?], hone item hw rfl⟩
  | @unknown w item rest now hw hqueue hresult =>
    exact ⟨[item], by simp [hqueue, Event.submission?], hone item hw rfl⟩
  | begin hw => exact ⟨[], (List.append_nil _).symm, hnone hw hhead⟩
  | timeout hw => exact ⟨[], (List.append_nil _).symm, hnone hw hhead⟩
  | finish now hw => exact ⟨[], (List.append_nil _).symm, hnone hw hhead⟩
  | lost now hw he => exact ⟨[], (List.append_nil _).symm, hnone hw rfl⟩
  | stop wait => exact ⟨[], (List.append_nil _).symm, (Nat.zero_add _).le⟩
  | stopped k stopping => exact ⟨[], (List.append_nil _).symm, (Nat.zero_add _).le⟩

/-- Until the next `start`, each worker of a stopped queue that awaits an item takes at most one.
The others stay in the queue, in order. -/
theorem queue_run_stopped {es : List (Event φ α)} (hstopped : q.running = false)
    (hstart : ∀ e ∈ es, e ≠ .start) (hrun : run q es = some q') :
    ∃ taken, taken ++ q'.queue = q.queue ++ submissions es ∧ taken.length ≤ q.getting := by
  -- The induction keeps count of the workers that are still at the queue.
  suffices h : ∃ taken, taken ++ q'.queue = q.queue ++ submissions es ∧
      taken.length + q'.getting ≤ q.getting by
    obtain ⟨taken, htaken, hle⟩ := h
    exact ⟨taken, htaken, Nat.le_trans (Nat.le_add_right _ _) hle⟩
  induction es generalizing q with
  | nil =>
    obtain rfl := Option.some.inj hrun
    exact ⟨[], by simp [submissions], (Nat.zero_add _).le⟩
  | cons e es ih =>
    obtain ⟨q₁, hstep, hrest⟩ := Option.bind_eq_some_iff.mp hrun
    have he := hstart e List.mem_cons_self
    obtain ⟨taken₁, htaken₁, hle₁⟩ := getting_step hstopped he hstep
    obtain ⟨taken₂, htaken₂, hle₂⟩ := ih (stopped_step hstopped he hstep).1
      (fun e' he' => hstart e' (List.mem_cons_of_mem e he')) hrest
    refine ⟨taken₁ ++ taken₂, ?_, ?_⟩
    · calc (taken₁ ++ taken₂) ++ q'.queue = taken₁ ++ (q₁.queue ++ submissions es) := by
            rw [List.append_assoc, htaken₂]
        _ = q.queue ++ submissions (e :: es) := by
            rw [← List.append_assoc, htaken₁, submissions_cons, List.append_assoc]
    · rw [List.length_append]
      omega

/-- An item of the queue is PENDING, where ids are distinct. -/
theorem shows_of_waiting {n : ℤ} {es : List (Event φ α)} (hrun : run (init n) es = some q)
    (hids : ((submissions es).map QueueItem.tid).Nodup) {item : QueueItem φ}
    (hitem : item ∈ q.queue) :
    ∃ record, q.getStatus item.tid = some record ∧ record.Shows item .waiting := by
  obtain ⟨hops, h⟩ := refines_run (takesLatest_of_nodup hids) hrun
  obtain ⟨i, hi⟩ := List.mem_iff_getElem?.mp (h.queue_eq ▸ hitem)
  have hjob : (JobPool.replay (history (init n) es)).jobs[
      (JobPool.replay (history (init n) es)).started.length + i]? = some (item, .waiting) := by
    refine JobPool.jobs_waiting_iff.mpr ⟨Nat.le_add_right _ i, ?_⟩
    rwa [Nat.add_sub_cancel_left]
  have hpayloads : (JobPool.replay (history (init n) es)).payloads = submissions es := by
    rw [hops.payloads_eq, submissions_history hrun]
  rw [← hpayloads] at hids
  exact ⟨_, h.getStatus_eq (latest_of_nodup hids (JobPool.payloads_of_jobs hjob)),
    h.shows _ item _ hjob⟩

/-- What a stop leaves: until the next `start`, the workers take at most as many items more as there
are workers that await one, and the others stay in the queue, in the order of submission, and
PENDING. -/
theorem stop_leaves_queue {n : ℤ} {pre es : List (Event φ α)} {wait : Bool}
    (hpre : run (init n) pre = some q) (hrun : run (q.stop wait) es = some q')
    (hstart : ∀ e ∈ es, e ≠ .start) :
    (∃ taken, taken ++ q'.queue = q.queue ++ submissions es ∧ taken.length ≤ q.getting) ∧
      (((submissions (pre ++ es)).map QueueItem.tid).Nodup → ∀ item ∈ q'.queue,
        ∃ record, q'.getStatus item.tid = some record ∧ record.Shows item .waiting) := by
  have hqueue := queue_run_stopped (q := q.stop wait) rfl hstart hrun
  refine ⟨hqueue, fun hids item hitem => ?_⟩
  have hwhole : run (init n) (pre ++ .stop wait :: es) = some q' := by
    rw [run, Machine.run_append, show Machine.run step (init n) pre = some q from hpre]
    exact hrun
  have hsubmitted : submissions (pre ++ .stop wait :: es) = submissions (pre ++ es) := by
    rw [submissions_append, submissions_append, submissions_cons]
    rfl
  exact shows_of_waiting hwhole (hsubmitted ▸ hids) hitem

/-- Two tasks wait, one worker awaits an item. -/
def twoWaiting : List (Event ℕ ℕ) :=
  [.start, .begin 0, .submit 7 none "a" 0, .submit 8 none "b" 1]

/-- The worker takes the first, and a third is submitted. -/
def afterStop : List (Event ℕ ℕ) := [.take 0 2, .submit 9 none "c" 3, .finish 0 (.ok 5) 4]

/-- The second and the third are left. -/
theorem stop_leaves_queue_twoWaiting :
    ∃ q q' : TaskQueue ℕ ℕ, run (init 1) twoWaiting = some q ∧
      run (q.stop true) afterStop = some q' ∧ q'.queue = [⟨"b", 8⟩, ⟨"c", 9⟩] ∧
      (∃ taken, taken ++ q'.queue = q.queue ++ submissions afterStop ∧ taken.length ≤ q.getting) ∧
      ∀ item ∈ q'.queue, ∃ record, q'.getStatus item.tid = some record ∧
        record.Shows item .waiting := by
  have hleft {q q' : TaskQueue ℕ ℕ} (hpre : run (init 1) twoWaiting = some q)
      (hrun : run (q.stop true) afterStop = some q') :=
    stop_leaves_queue hpre hrun (by simp [afterStop])
  exact ⟨_, _, rfl, rfl, rfl, (hleft rfl rfl).1, (hleft rfl rfl).2 (by decide)⟩

end Getting

/-! ## After a stop -/

section Run

variable {n : ℤ} (ρ : Machine.InfiniteRun (step (φ := φ) (α := α)) (init n))

/-- From moment `k` on, each worker loop that is not over has a further segment. -/
def ComesBack (k : ℕ) : Prop :=
  ∀ l w s, k ≤ l → (ρ.state l).workers[w]? = some s → ¬ s.Over →
    ∃ m, l ≤ m ∧ (ρ.event m).worker? = some w

variable {ρ}

/-- The next segment of a worker finds it where it is now. -/
theorem ComesBack.next {k l w : ℕ} {s : Worker φ} (h : ComesBack ρ k) (hl : k ≤ l)
    (hw : (ρ.state l).workers[w]? = some s) (hs : ¬ s.Over) :
    ∃ m, l ≤ m ∧ (ρ.state m).workers[w]? = some s ∧ (ρ.event m).worker? = some w := by
  obtain ⟨m, hm, hown, hstill⟩ := ρ.exists_first
    (K := fun q => q.workers[w]? = some s) (E := fun e => e.worker? = some w)
    (fun _ _ _ hw hother hstep => worker_step hw hother hstep) hw (h l w s hl hw hs)
  exact ⟨m, hm, hstill, hown⟩

section Stopped

variable {k : ℕ} (hstopped : (ρ.state k).running = false)
  (hstart : ∀ l, k ≤ l → ρ.event l ≠ .start)

include hstopped hstart

/-- From the stop on the queue is not running, and no worker is added. -/
theorem stopped_from {l : ℕ} (hl : k ≤ l) :
    (ρ.state l).running = false ∧ (ρ.state l).workers.length = (ρ.state k).workers.length := by
  induction l, hl using Nat.le_induction with
  | base => exact ⟨hstopped, rfl⟩
  | succ l hl ih =>
    obtain ⟨hrunning, hlength⟩ := stopped_step ih.1 (hstart l hl) (ρ.valid l)
    exact ⟨hrunning, hlength.trans ih.2⟩

/-- Each worker loop comes to its end, and stays there. -/
theorem worker_ends (hback : ComesBack ρ k) {w : ℕ} (hw : w < (ρ.state k).workers.length) :
    ∃ m, k ≤ m ∧ ∀ j, m ≤ j → ∃ s, (ρ.state j).workers[w]? = some s ∧ s.Over := by
  have hworker {l : ℕ} (hl : k ≤ l) : ∃ s, (ρ.state l).workers[w]? = some s := by
    have hlength := (stopped_from hstopped hstart hl).2
    exact ⟨_, List.getElem?_eq_getElem (hlength ▸ hw)⟩
  -- The segments left of this worker fall until it is over.
  let left (l : ℕ) : ℕ := ((ρ.state l).workers[w]?).elim 0 Worker.segmentsLeft
  have hleft {l : ℕ} {s : Worker φ} (h : (ρ.state l).workers[w]? = some s) :
      left l = s.segmentsLeft := by
    show ((ρ.state l).workers[w]?).elim 0 Worker.segmentsLeft = _
    rw [h, Option.elim_some]
  obtain ⟨m, hm, hzero⟩ : ∃ m, k ≤ m ∧ left m = 0 := by
    -- As long as it is not over, it comes back to take its next segment.
    refine Machine.exists_eq_zero_of_falls fun l hl hpositive => ?_
    obtain ⟨s, hs⟩ := hworker hl
    rw [hleft hs] at hpositive ⊢
    have hnot : ¬ s.Over := fun hover => hpositive (Worker.over_iff.mp hover)
    obtain ⟨m, hm, hstill, hown⟩ := hback.next hl hs hnot
    obtain ⟨s', hs', hsegment⟩ := segment_cases hstill hown (ρ.valid m)
    have hlt := hsegment.segmentsLeft_lt (stopped_from hstopped hstart (Nat.le_trans hl hm)).1
    exact ⟨m + 1, by omega, by rwa [hleft hs']⟩
  -- Once it is over, it stays so.
  refine ⟨m, hm, fun j hj => ?_⟩
  obtain ⟨s, hs⟩ := hworker hm
  rw [hleft hs] at hzero
  refine ρ.keeps (K := fun q => ∃ s, q.workers[w]? = some s ∧ s.Over) ?_ hj
    ⟨s, hs, Worker.over_iff.mpr hzero⟩
  rintro q e q' ⟨s, hs, hover⟩ hstep
  exact ⟨s, over_step hs hover hstep, hover⟩

end Stopped

/-- Every stop comes to its end: unless the queue is started again, from some moment on all worker
loops are over, and each `stop(wait=True)` that has not returned can. -/
theorem stop_returns {k : ℕ} {wait : Bool} (hstop : ρ.event k = .stop wait)
    (hstart : ∀ l, k < l → ρ.event l ≠ .start) (hback : ComesBack ρ (k + 1)) :
    ∃ m, k < m ∧ ∀ j, m ≤ j → (∀ s ∈ (ρ.state j).workers, s.Over) ∧
      ∀ workers ∈ (ρ.state j).stopping, ((ρ.state j).step (.stopped workers)).isSome := by
  have hstopped : (ρ.state (k + 1)).running = false := by
    have hvalid := ρ.valid k
    rw [hstop] at hvalid
    rw [← Option.some.inj hvalid]
    rfl
  -- The moments at which the workers have ended have a last one.
  have hends : ∀ᶠ j in Filter.atTop, ∀ w, w < (ρ.state (k + 1)).workers.length →
      ∃ s, (ρ.state j).workers[w]? = some s ∧ s.Over := by
    refine (Filter.eventually_all_finite (Set.finite_lt_nat _)).mpr fun w hw => ?_
    obtain ⟨m, -, hm⟩ := worker_ends hstopped hstart hback hw
    exact Filter.eventually_atTop.mpr ⟨m, hm⟩
  obtain ⟨m, hm⟩ := Filter.eventually_atTop.mp hends
  refine ⟨max m (k + 1), by omega, fun j hj => ?_⟩
  have hlength := (stopped_from hstopped hstart (Nat.le_trans (Nat.le_max_right m (k + 1)) hj)).2
  have hover : ∀ s ∈ (ρ.state j).workers, s.Over := by
    intro s hs
    obtain ⟨w, hw⟩ := List.mem_iff_getElem?.mp hs
    have hlt := (List.getElem?_eq_some_iff.mp hw).1
    obtain ⟨s', hs', hover⟩ := hm j (Nat.le_trans (Nat.le_max_left m (k + 1)) hj) w (hlength ▸ hlt)
    obtain rfl := Option.some.inj (hs'.symm.trans hw)
    exact hover
  refine ⟨hover, fun workers hmem => ?_⟩
  have hgathered : ∀ s ∈ (ρ.state j).workers.take workers, s.Over := fun s hs =>
    hover s (List.mem_of_mem_take hs)
  rw [step, if_pos ⟨hmem, hgathered⟩]
  rfl

end Run

/-- A queue is stopped while its worker executes a task, and then again and again. -/
def stoppedEvents : ℕ → Event ℕ ℕ
  | 0 => .start
  | 1 => .begin 0
  | 2 => .submit 7 (some "a") "" 0
  | 3 => .take 0 1
  | 4 => .stop true
  | 5 => .finish 0 (.ok 5) 2
  | _ => .stop false

/-- Its infinite run. -/
def stoppedForEver : Machine.InfiniteRun (step (φ := ℕ) (α := ℕ)) (init 1) :=
  .along stoppedEvents fun k =>
    match k with
    | 0 | 1 | 2 | 3 | 4 | 5 | _ + 6 => rfl

/-- Its worker loop is over from the sixth event on. -/
theorem workers_stoppedForEver (k : ℕ) : (stoppedForEver.state (k + 6)).workers = [.ended] := by
  induction k with
  | zero => rfl
  | succ k ih => exact ih

/-- The worker ends its task, and `stop(wait=True)` can return. -/
theorem stop_returns_stoppedForEver :
    ∃ m, 4 < m ∧ ∀ j, m ≤ j → (∀ s ∈ (stoppedForEver.state j).workers, s.Over) ∧
      ∀ workers ∈ (stoppedForEver.state j).stopping,
        ((stoppedForEver.state j).step (.stopped workers)).isSome := by
  refine stop_returns rfl (fun l hl => ?_) fun l w s hl hw hover => ?_
  · match l with
    | 5 | _ + 6 =>
      intro hevent
      cases hevent
  · match l with
    | 5 =>
      -- The only worker executes the task.
      cases w with
      | zero => exact ⟨5, Nat.le_refl 5, rfl⟩
      | succ w => cases hw
    | l + 6 =>
      rw [workers_stoppedForEver] at hw
      cases w with
      | zero =>
        cases hw
        exact absurd trivial hover
      | succ w => cases hw

end TaskQueue

end YellowBull
