import YellowBull.BaseTool

/-!
# The retries of a tool

`execute_with_retry` makes a first attempt and then reads the result at the head of each round of a
loop. `Tool.retry_eq` says where the loop stops after any attempt, and `executeWithRetry_attempts`
puts the first attempt before it: the call of `execute` is repeated up to the attempt that
`StopsAt` names, and what that attempt comes to is what comes back.
-/

namespace YellowBull

open Py

/-- An attempt came to a failing result. -/
def FailedAttempt (outcome : Except Exn ToolResult) : Prop :=
  ∃ result, outcome = .ok result ∧ result.success = false

/-- The attempt at which a limit of retries stops: the first that succeeds or raises, or the last
one that the limit allows, all attempts before it failing. A negative limit allows one attempt. -/
structure StopsAt (attempts : ℕ → Except Exn ToolResult) (limit : ℤ) (n : ℕ) : Prop where
  within : (n : ℤ) ≤ max limit 0
  before_failed : ∀ i < n, FailedAttempt (attempts i)
  last : FailedAttempt (attempts n) → (n : ℤ) = max limit 0

/-- An attempt that raises is not a failed one. -/
theorem not_failedAttempt_error (e : Exn) : ¬ FailedAttempt (.error e) := by
  rintro ⟨result, h, -⟩
  cases h

/-- An attempt with a result failed just if the result says so. -/
theorem failedAttempt_ok {result : ToolResult} :
    FailedAttempt (.ok result) ↔ result.success = false := by
  constructor
  · rintro ⟨result', h, hfail⟩
    cases h
    exact hfail
  · exact fun hfail => ⟨result, rfl, hfail⟩

namespace Tool

/-- After the result of attempt `k`, the loop repeats the call up to an attempt that does not fail,
or to the last of its rounds, and what comes back is what the last attempt came to. -/
theorem retry_eq (call : ContextCall) (attempts : ℕ → Except Exn ToolResult) (rounds k : ℕ)
    {result : ToolResult} (hresult : attempts k = .ok result) :
    ∃ n ≤ rounds, retry call attempts rounds (k + 1) result =
        (List.replicate n call, attempts (k + n)) ∧
      (∀ i < n, FailedAttempt (attempts (k + i))) ∧
      (FailedAttempt (attempts (k + n)) → n = rounds) := by
  induction rounds generalizing k result with
  | zero => exact ⟨0, le_refl 0, by rw [retry, Nat.add_zero, hresult]; rfl, by simp, fun _ => rfl⟩
  | succ rounds ih =>
    cases hsuccess : result.success with
    | true =>
      -- The head of the round leaves the loop.
      refine ⟨0, Nat.zero_le _, ?_, by simp, fun hfail => ?_⟩
      · rw [retry, if_pos hsuccess, Nat.add_zero, hresult]
        rfl
      · rw [Nat.add_zero, hresult, failedAttempt_ok, hsuccess] at hfail
        cases hfail
    | false =>
      have hfailed : FailedAttempt (attempts k) := ⟨result, hresult, hsuccess⟩
      have hgo : ¬ result.success = true := by simp [hsuccess]
      cases hnext : attempts (k + 1) with
      | error e =>
        refine ⟨1, by omega, ?_, fun i hi => ?_, fun hfail => ?_⟩
        · rw [retry, if_neg hgo, hnext]
          rfl
        · obtain rfl : i = 0 := by omega
          exact hfailed
        · rw [hnext] at hfail
          exact absurd hfail (not_failedAttempt_error e)
      | ok next =>
        obtain ⟨n, hn, heq, hbefore, hlast⟩ := ih (k + 1) hnext
        refine ⟨n + 1, by omega, ?_, fun i hi => ?_, fun hfail => ?_⟩
        · rw [retry, if_neg hgo, hnext]
          simp only [heq]
          rw [← List.replicate_succ, Nat.add_assoc, Nat.add_comm 1 n]
        · cases i with
          | zero => exact hfailed
          | succ i =>
            have hfail := hbefore i (by omega)
            rwa [Nat.add_assoc, Nat.add_comm 1 i] at hfail
        · rw [← hlast (by rwa [Nat.add_assoc, Nat.add_comm 1 n])]

variable (P : Platform) (O : SetOrder) (tool : Tool)

/-- The limit of the retries, explicit or the tool's own. -/
def HasLimit (max_retries : Val) (limit : ℤ) : Prop :=
  max_retries = .int limit ∨ max_retries = .none ∧ tool.max_retries = limit

/-- With valid arguments, `execute` is called with the same arguments for each attempt up to the one
that stops, and what that attempt comes to comes back. With others it is never called. -/
theorem executeWithRetry_attempts {max_retries : Val} {limit : ℤ}
    (hlimit : tool.HasLimit max_retries limit) (kwargs : Dict)
    (attempts : ℕ → Except Exn ToolResult) :
    (tool.validate P O kwargs = .ok [] →
      ∃ n, StopsAt attempts limit n ∧
        tool.executeWithRetry P O max_retries kwargs attempts =
          (List.replicate (n + 1) ⟨kwargs, tool.takes_context⟩, attempts n)) ∧
      (tool.validate P O kwargs ≠ .ok [] →
        (tool.executeWithRetry P O max_retries kwargs attempts).1 = []) := by
  have hrounds : rounds (if max_retries = .none then .int tool.max_retries else max_retries) =
      .ok limit.toNat := by
    rcases hlimit with rfl | ⟨rfl, rfl⟩ <;> rfl
  constructor
  · intro hvalid
    unfold executeWithRetry
    simp only [hvalid, ne_eq, not_true_eq_false, if_false, hrounds]
    cases hfirst : attempts 0 with
    | error e =>
      -- The first attempt raises: there is no loop.
      refine ⟨0, ⟨by simp, by simp, fun hfail => ?_⟩, by rw [hfirst]; rfl⟩
      rw [hfirst] at hfail
      exact absurd hfail (not_failedAttempt_error e)
    | ok result =>
      obtain ⟨n, hn, heq, hbefore, hlast⟩ :=
        retry_eq ⟨kwargs, tool.takes_context⟩ attempts limit.toNat 0 hfirst
      rw [Nat.zero_add] at heq hlast
      refine ⟨n, ⟨by omega, fun i hi => ?_, fun hfail => ?_⟩, ?_⟩
      · have hfail := hbefore i hi
        rwa [Nat.zero_add] at hfail
      · have hall := hlast hfail
        omega
      · simp only [heq, Nat.zero_add, List.replicate_succ]
  · intro hinvalid
    unfold executeWithRetry
    split
    next => rfl
    next errors herrors =>
      have hne : errors ≠ [] := fun h => hinvalid (by rw [herrors, h])
      rw [if_pos hne]

end Tool

/-- A tool that is retried twice unless its caller gives a limit. -/
def flaky : Tool where
  info := ⟨"flaky", "Fails then succeeds", [("type", .str "object"), ("properties", .dict [])]⟩
  max_retries := 2

/-- It fails once. -/
def failsOnce : ℕ → Except Exn ToolResult
  | 0 => .ok { content := "fail", success := false }
  | _ => .ok { content := "success" }

/-- With its own limit, the second attempt is the last. -/
theorem executeWithRetry_attempts_flaky :
    ∃ n, StopsAt failsOnce 2 n ∧
      flaky.executeWithRetry .bare .listed .none [] failsOnce =
        (List.replicate (n + 1) ⟨[], false⟩, failsOnce n) :=
  (Tool.executeWithRetry_attempts .bare .listed flaky (Or.inr ⟨rfl, rfl⟩) [] failsOnce).1
    (by decide)

end YellowBull
