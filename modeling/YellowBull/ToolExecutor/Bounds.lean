import Mathlib.Algebra.BigOperators.Group.Finset.Basic
import Mathlib.Algebra.Order.BigOperators.Group.Finset
import YellowBull.ToolExecutor.Calls
import YellowBull.ToolExecutor.Retry

/-!
# How often a batch calls tools

However the tools behave and the segments are ordered, a batch calls `_invoke_tool` at most
`max_retries + 1` times for each of its requests (`Batch.length_toolCalls_start_le`), the calls that
are in flight when it is given up included. The measure is the number of attempts that its tasks
have left (`Batch.attemptsLeft`): a segment that ends a call takes one attempt away, no segment adds
any, and a call in flight has one still.
-/

namespace YellowBull

open Py

section Single

variable (ex : ToolExecutor)

/-- The attempts that a task has left, at most, with the one that it awaits. -/
def Task.attemptsLeft : Task → ℕ
  | .queued => (ex.max_retries + 1).toNat
  | .calling _ attempt => (ex.max_retries - attempt).toNat + 1
  | .sleeping _ attempt _ => (ex.max_retries - attempt).toNat + 1
  | .done _ => 0

/-- The attempt whose call of `_invoke_tool` a task awaits. -/
def Task.attempt? (task : Task) : Option ℕ := task.await?.bind Await.attempt?

variable {ex} {P : Platform} {reg : ToolRegistry} {req : ToolCallRequest}
variable {outcomes : ℕ → Except Exn ToolResult}

/-- The loop has the attempts left that it has not made. -/
theorem Task.attemptsLeft_retryLoop (tool : Tool) (attempt : ℕ) (last_error : String) :
    (ex.retryLoop req tool attempt last_error).attemptsLeft ex ≤
      (ex.max_retries + 1 - attempt).toNat := by
  unfold ToolExecutor.retryLoop
  split_ifs with hlt hpos
  · simp only [Task.attemptsLeft]
    omega
  · simp only [Task.attemptsLeft]
    omega
  · exact Nat.zero_le _

/-- A segment adds no attempts, and takes one away when it ends a call. -/
theorem Task.attemptsLeft_advance (task : Task) (cache : Cache) :
    task.attempt?.toList.length + (ex.advance P reg req outcomes task cache).1.attemptsLeft ex ≤
      task.attemptsLeft ex := by
  cases task with
  | queued =>
    change 0 + (ex.startTask P reg cache req).attemptsLeft ex ≤ _
    rw [Nat.zero_add, ToolExecutor.startTask]
    -- A lookup that hits, and a registry without the tool, end the task without an attempt.
    cases ex.lookup P cache req with
    | some cached => exact Nat.zero_le _
    | none =>
      rcases reg.get req.tool_name with e | _ | tool
      · exact Nat.zero_le _
      · exact Nat.zero_le _
      · exact (Task.attemptsLeft_retryLoop tool 0 "").trans (by simp [Task.attemptsLeft])
  | sleeping tool attempt wait_time => exact (Nat.zero_add _).le
  | done r => exact (Nat.zero_add _).le
  | calling tool attempt =>
    change 1 + (ex.finishAttempt P cache req tool attempt (outcomes attempt)).1.attemptsLeft ex ≤
      (ex.max_retries - attempt).toNat + 1
    -- The attempt that has just been made is taken off what is left.
    rw [Nat.add_comm, Nat.add_le_add_iff_right, ToolExecutor.finishAttempt]
    cases ex.waitFor P tool req.arguments (outcomes attempt) with
    | ok r => exact Nat.zero_le _
    | error e =>
      dsimp only
      cases ex.lastError P req tool e with
      | none => exact Nat.zero_le _
      -- Each further attempt is one of those that the loop still has.
      | some last_error =>
        refine (Task.attemptsLeft_retryLoop tool (attempt + 1) last_error).trans ?_
        push_cast
        omega

end Single

section Batch

variable (P : Platform) (ex : ToolExecutor) (reg : ToolRegistry)
variable (requests : List ToolCallRequest) (outcomes : ℕ → ℕ → Except Exn ToolResult)

/-- The call of `_invoke_tool` that a segment of the task at position `i` ends: the position, and
the attempt. -/
def Batch.toolCall? (b : Batch) (i : ℕ) : Option (ℕ × ℕ) :=
  requests[i]?.bind fun _ => (b.tasks i).attempt?.map fun attempt => (i, attempt)

/-- The calls of `_invoke_tool` in the segments of a schedule, in order. -/
def Batch.toolCalls : Batch → List ℕ → List (ℕ × ℕ)
  | _, [] => []
  | b, i :: schedule =>
    (b.toolCall? requests i).toList ++ toolCalls (b.step P ex reg requests outcomes i) schedule

/-- The calls of `_invoke_tool` that the tasks of a batch await. -/
def Batch.inFlight (b : Batch) : List (ℕ × ℕ) :=
  (List.range requests.length).flatMap fun i => (b.toolCall? requests i).toList

/-- The attempts that the tasks of a batch have left. -/
def Batch.attemptsLeft (b : Batch) : ℕ :=
  ∑ i ∈ Finset.range requests.length, (b.tasks i).attemptsLeft ex

variable {P ex reg requests outcomes}

/-- The calls of `execute` are made by calls of `_invoke_tool`. -/
theorem Batch.length_invocations_le (b : Batch) (schedule : List ℕ) :
    (b.invocations P ex reg requests outcomes schedule).length ≤
      (b.toolCalls P ex reg requests outcomes schedule).length := by
  induction schedule generalizing b with
  | nil => exact le_rfl
  | cons i schedule ih =>
    rw [invocations, toolCalls, List.length_append, List.length_append]
    refine Nat.add_le_add ?_ (ih _)
    cases hcall : b.invocation? P ex requests i with
    | none => exact Nat.zero_le _
    | some call =>
      obtain ⟨hcalling, -⟩ := Batch.tasks_of_invocation hcall
      cases hi : requests[i]? with
      | none => simp [invocation?, hi] at hcall
      | some req => simp [toolCall?, hi, hcalling, Task.attempt?, Task.await?, Await.attempt?]

/-- A segment of a batch adds no attempts, and takes one away when it ends a call. -/
theorem Batch.attemptsLeft_step (b : Batch) (i : ℕ) :
    (b.toolCall? requests i).toList.length +
        (b.step P ex reg requests outcomes i).attemptsLeft ex requests ≤
      b.attemptsLeft ex requests := by
  cases hi : requests[i]? with
  | none =>
    have hcall : b.toolCall? requests i = none := by simp [toolCall?, hi]
    have hstep : b.step P ex reg requests outcomes i = b := by simp [step, hi]
    simp [hcall, hstep]
  | some req =>
    have hmem : i ∈ Finset.range requests.length :=
      Finset.mem_range.mpr (List.getElem?_eq_some_iff.mp hi).1
    have hcall : (b.toolCall? requests i).toList.length = (b.tasks i).attempt?.toList.length := by
      cases h : (b.tasks i).attempt? <;> simp [toolCall?, hi, h]
    -- The other tasks stay as they are.
    have hothers : ∑ j ∈ (Finset.range requests.length).erase i,
        ((b.step P ex reg requests outcomes i).tasks j).attemptsLeft ex =
          ∑ j ∈ (Finset.range requests.length).erase i, (b.tasks j).attemptsLeft ex :=
      Finset.sum_congr rfl fun j hj => by rw [Batch.step_of_ne (Finset.ne_of_mem_erase hj)]
    have htask : (b.tasks i).attempt?.toList.length +
        (ex.advance P reg req (outcomes i) (b.tasks i) b.cache).1.attemptsLeft ex ≤
          (b.tasks i).attemptsLeft ex := Task.attemptsLeft_advance _ _
    rw [attemptsLeft, attemptsLeft, ← Finset.add_sum_erase _ _ hmem,
      ← Finset.add_sum_erase _ (fun j => (b.tasks j).attemptsLeft ex) hmem, hothers,
      Batch.step_self hi, hcall]
    omega

/-- The calls of a batch come out of the attempts that its tasks have left. -/
theorem Batch.length_toolCalls_le (b : Batch) (schedule : List ℕ) :
    (b.toolCalls P ex reg requests outcomes schedule).length +
        (b.run P ex reg requests outcomes schedule).attemptsLeft ex requests ≤
      b.attemptsLeft ex requests := by
  induction schedule generalizing b with
  | nil => exact (Nat.zero_add _).le
  | cons i schedule ih =>
    have hstep : (b.toolCall? requests i).toList.length +
        (b.step P ex reg requests outcomes i).attemptsLeft ex requests ≤
          b.attemptsLeft ex requests := b.attemptsLeft_step i
    have hrest := ih (b.step P ex reg requests outcomes i)
    rw [toolCalls, List.length_append]
    change _ + ((b.step P ex reg requests outcomes i).run P ex reg requests outcomes
      schedule).attemptsLeft ex requests ≤ _
    omega

/-- A task that awaits a call has an attempt left, the one that it awaits. -/
theorem Task.length_attempt_le (ex : ToolExecutor) (task : Task) :
    task.attempt?.toList.length ≤ task.attemptsLeft ex := by
  cases task with
  | calling tool attempt => exact Nat.succ_le_succ (Nat.zero_le _)
  | queued => exact Nat.zero_le _
  | sleeping tool attempt wait_time => exact Nat.zero_le _
  | done r => exact Nat.zero_le _

/-- The calls in flight have attempts left. -/
theorem Batch.length_inFlight_le (ex : ToolExecutor) (b : Batch) :
    (b.inFlight requests).length ≤ b.attemptsLeft ex requests := by
  have hcall : ∀ i, (b.toolCall? requests i).toList.length ≤ (b.tasks i).attemptsLeft ex := by
    intro i
    refine le_trans ?_ (Task.length_attempt_le ex (b.tasks i))
    cases hi : requests[i]? with
    | none => simp [toolCall?, hi]
    | some req => cases h : (b.tasks i).attempt? <;> simp [toolCall?, hi, h]
  calc (b.inFlight requests).length
      = ∑ i ∈ Finset.range requests.length, (b.toolCall? requests i).toList.length :=
        List.length_flatMap
    _ ≤ b.attemptsLeft ex requests := Finset.sum_le_sum fun i _ => hcall i

/-- A new batch makes at most `max_retries + 1` calls for each request, those in flight at the end
of the schedule included. -/
theorem Batch.length_toolCalls_start_le (cache : Cache) (schedule : List ℕ) :
    ((Batch.start cache).toolCalls P ex reg requests outcomes schedule).length +
        (((Batch.start cache).run P ex reg requests outcomes schedule).inFlight requests).length ≤
      requests.length * (ex.max_retries + 1).toNat := by
  have hstart : (Batch.start cache).attemptsLeft ex requests =
      requests.length * (ex.max_retries + 1).toNat := by
    simp [attemptsLeft, Batch.start, Task.attemptsLeft]
  rw [← hstart]
  exact (Nat.add_le_add_left (Batch.length_inFlight_le ex _) _).trans
    (Batch.length_toolCalls_le _ schedule)

end Batch

end YellowBull
