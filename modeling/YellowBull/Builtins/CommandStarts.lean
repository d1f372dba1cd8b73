import YellowBull.Builtins.CommandExecute
import YellowBull.ToolExecutor.Retry

/-!
# How often a command is started

A call of `execute_command` goes through three layers of time and retries: the limit of the tool,
that of the executor, and the retry loop of the executor, which does not read the `max_retries` of
the tool. An attempt raises after it has started the command only if the limit of the executor runs
out first (`attempt_cases`). `command_starts_iff` says when one call starts the command twice.
-/

namespace YellowBull

open Py

namespace ExecuteCommandTool

section Attempt

variable (seconds : String → Option ℚ) (timeout : Val) (arguments : Dict)

/-- The executor enters `execute`: it has a limit to wait for, and the arguments bind. -/
structure Enters (limit : Option ℚ) : Prop where
  waits : waitLimit seconds timeout = .ok limit
  enters : startsNothing limit = false
  binds : bindArguments "ExecuteCommandTool.execute" ["command"] ["workdir", "timeout"] arguments =
    .ok ()

/-- `execute` starts the command: its working directory is there, and the system starts it. -/
def Starts (env : CommandEnv) (startup : ℚ) : Prop :=
  (∃ dir found, cwd env (Py.Dict.get arguments "workdir" .none) = .ok (dir, found) ∧
      (dir = none ∨ found = true)) ∧
    spawn env (Py.Dict.get arguments "command" .none) = .ok startup

/-- A command starts after one time. -/
theorem Starts.unique {arguments : Dict} {env : CommandEnv} {startup startup' : ℚ}
    (h : Starts arguments env startup) (h' : Starts arguments env startup') :
    startup = startup' :=
  Except.ok.inj (h.2.symm.trans h'.2)

/-- The limit of the executor is over before `execute` returns. -/
def Outlasts (limit : Option ℚ) (env : CommandEnv) (startup : ℚ) : Prop :=
  timesOut limit
    (endTime seconds env (Py.Dict.get arguments "timeout" defaultTimeout) startup) = true

variable {seconds timeout arguments} {P : Platform} {env : CommandEnv}

/-- Without a limit to wait for, or with arguments that do not bind, no attempt starts the
command. -/
theorem attempt_of_not_enters (h : ¬ ∃ limit, Enters seconds timeout arguments limit)
    (env : CommandEnv) : (attempt P seconds env timeout (.dict arguments)).started = false := by
  unfold attempt
  cases hlimit : waitLimit seconds timeout with
  | error e => rfl
  | ok limit =>
    cases hnothing : startsNothing limit with
    | true => simp [hnothing]
    | false =>
      unfold execute
      cases hbinds : bindArguments "ExecuteCommandTool.execute" ["command"] ["workdir", "timeout"]
        arguments with
      | error e => simp [hnothing, hbinds]
      | ok u => exact absurd ⟨limit, hlimit, hnothing, hbinds⟩ h

/-- An attempt that enters `execute` is a run of its body. -/
theorem attempt_of_enters {limit : Option ℚ} (h : Enters seconds timeout arguments limit) :
    attempt P seconds env timeout (.dict arguments) =
      (body P seconds env (Py.Dict.get arguments "command" .none)
        (Py.Dict.get arguments "workdir" .none)
        (Py.Dict.get arguments "timeout" defaultTimeout)).within limit := by
  unfold attempt execute
  simp [h.waits, h.enters, h.binds]

/-- The body of `execute` returns without a process, or starts one and returns at its end time. -/
theorem body_cases (P : Platform) (seconds : String → Option ℚ) (env : CommandEnv)
    (arguments : Dict) (timeout : Val) :
    (¬ (∃ startup, Starts arguments env startup) ∧
      ∃ r, body P seconds env (Py.Dict.get arguments "command" .none)
        (Py.Dict.get arguments "workdir" .none) timeout = .refused r) ∨
    ∃ startup r, Starts arguments env startup ∧
      body P seconds env (Py.Dict.get arguments "command" .none)
        (Py.Dict.get arguments "workdir" .none) timeout =
          .started (endTime seconds env timeout startup) r := by
  unfold body Starts
  -- The directory is looked up before the command is started, and a missing one is refused.
  cases hcwd : cwd env (Py.Dict.get arguments "workdir" .none) with
  | error e => exact .inl ⟨by simp, _, rfl⟩
  | ok place =>
    obtain ⟨dir, found⟩ := place
    -- The refusal to start comes from the spawn, whatever the directory was.
    cases hspawn : spawn env (Py.Dict.get arguments "command" .none) with
    | error e =>
      refine .inl ⟨by simp, ?_⟩
      cases dir <;> cases found <;> exact ⟨_, rfl⟩
    | ok startup =>
      cases dir with
      | none => exact .inr ⟨startup, _, ⟨⟨none, found, rfl, .inl rfl⟩, rfl⟩, rfl⟩
      | some dir =>
        cases found with
        | false => exact .inl ⟨by simp, _, rfl⟩
        | true => exact .inr ⟨startup, _, ⟨⟨some dir, true, rfl, .inr rfl⟩, rfl⟩, rfl⟩

/-- Nor does one whose arguments are no mapping. -/
theorem attempt_of_not_dict {arguments : Val} (h : ∀ items, arguments ≠ .dict items)
    (env : CommandEnv) : (attempt P seconds env timeout arguments).started = false := by
  unfold attempt
  cases waitLimit seconds timeout with
  | error e => rfl
  | ok limit =>
    cases hnothing : startsNothing limit with
    | true => simp [hnothing]
    | false =>
      cases arguments with
      | dict items => exact absurd rfl (h items)
      | _ => simp [hnothing]

/-- What an attempt comes to that enters `execute`: it returns a result and has not started the
command, or it has started it and returns unless the limit is over or nothing ends. -/
theorem attempt_cases (P : Platform) {limit : Option ℚ}
    (h : Enters seconds timeout arguments limit) (env : CommandEnv) :
    (¬ (∃ startup, Starts arguments env startup) ∧
      ∃ r, attempt P seconds env timeout (.dict arguments) = ⟨false, .ok r⟩) ∨
    ∃ startup, Starts arguments env startup ∧
      ((Outlasts seconds arguments limit env startup ∧
          attempt P seconds env timeout (.dict arguments) =
            ⟨true, .error ⟨.timeoutError, ""⟩⟩) ∨
        (¬ Outlasts seconds arguments limit env startup ∧
          (attempt P seconds env timeout (.dict arguments) =
              ⟨true, .error ⟨.cancelledError, ""⟩⟩ ∨
            ∃ r, attempt P seconds env timeout (.dict arguments) = ⟨true, .ok r⟩))) := by
  rw [attempt_of_enters h]
  -- Either nothing starts, or the tool's own time runs against the executor's.
  rcases body_cases P seconds env arguments
      (Py.Dict.get arguments "timeout" defaultTimeout) with
    ⟨hrefused, r, hbody⟩ | ⟨startup, r, hstarts, hbody⟩
  · exact .inl ⟨hrefused, r, by rw [hbody]; rfl⟩
  · refine .inr ⟨startup, hstarts, ?_⟩
    rw [hbody]
    unfold Outlasts Run.within
    generalize endTime seconds env _ startup = time
    -- The executor's limit is reached first.
    by_cases hover : timesOut limit time = true
    · exact .inl ⟨hover, if_pos hover⟩
    · refine .inr ⟨hover, ?_⟩
      -- A command without an end is cancelled from outside, any other gives a result.
      by_cases hnever : time = none
      · exact .inl ((if_neg hover).trans (if_pos hnever))
      · exact .inr ⟨r, (if_neg hover).trans (if_neg hnever)⟩

end Attempt

/-! ## One call of the tool -/

section Call

variable (P : Platform) (ex : ToolExecutor) (reg : ToolRegistry)
variable (req : ToolCallRequest) (envs : ℕ → CommandEnv) (caches : ℕ → Cache)

/-- The attempts of a call, with what the system does during each. -/
def attemptOf (i : ℕ) : Attempt :=
  attempt P P.seconds (envs i) (ex.effectiveTimeout tool) req.arguments

/-- A call of `_execute_single` for the command tool after `n` segments. -/
def callAt (n : ℕ) : Task :=
  ex.taskAt P reg req (fun i => (attemptOf P ex req envs i).outcome) caches n

/-- How often it has started the command. -/
def starts (n : ℕ) : ℕ :=
  ((ex.awaits P reg req (fun i => (attemptOf P ex req envs i).outcome) caches n).filterMap
    Await.attempt?).countP fun i => (attemptOf P ex req envs i).started

/-- The first attempt starts the command and runs into the limit of the executor, there is a second
one, and it starts the command again. -/
structure Relaunches : Prop where
  missed : ex.lookup P (caches 0) req = none
  retries : 0 < ex.max_retries
  launched : ∃ arguments limit startup, req.arguments = .dict arguments ∧
    Enters P.seconds (ex.effectiveTimeout tool) arguments limit ∧
    Starts arguments (envs 0) startup ∧ Outlasts P.seconds arguments limit (envs 0) startup ∧
    ∃ startup', Starts arguments (envs 1) startup'

variable {P ex reg req envs caches}

/-- Once the call has ended, the command is not started again. -/
theorem starts_le_of_done {n : ℕ} {r : Except Exn ExecutionResult}
    (h : callAt P ex reg req envs caches n = .done r) (m : ℕ) :
    starts P ex reg req envs caches m ≤ starts P ex reg req envs caches n :=
  ((awaits_prefix_of_done h m).sublist.filterMap _).countP_le

/-- The command starts of the attempts up to one. -/
theorem starts_of_awaits {n k : ℕ}
    (h : ex.awaits P reg req (fun i => (attemptOf P ex req envs i).outcome) caches n =
      retryAwaits ex.backoff_factor k) :
    starts P ex reg req envs caches n =
      (List.range (k + 1)).countP fun i => (attemptOf P ex req envs i).started := by
  unfold starts
  rw [h, attempts_retryAwaits]

/-- Where no attempt starts the command, a call does not. -/
theorem starts_eq_zero (h : ∀ i, (attemptOf P ex req envs i).started = false) (n : ℕ) :
    starts P ex reg req envs caches n = 0 :=
  List.countP_eq_zero.mpr fun i _ => by simp [h i]

/-- A call that ends with its first segment has not started the command. -/
theorem starts_of_done_at_once {r : Except Exn ExecutionResult}
    (h : callAt P ex reg req envs caches 1 = .done r) (n : ℕ) :
    starts P ex reg req envs caches n = 0 :=
  Nat.le_zero.mp (starts_le_of_done h n)

/-- The executor has of an attempt with keyword arguments what the attempt comes back with. -/
theorem attempts_attemptOf {arguments : Dict} (hargs : req.arguments = .dict arguments) (i : ℕ) :
    ex.attempts P req tool (fun i => (attemptOf P ex req envs i).outcome) i =
      (attemptOf P ex req envs i).outcome := by
  unfold ToolExecutor.attempts ToolExecutor.waitFor attemptOf attempt
  rw [hargs]
  -- Both read the same limit, and neither starts the call where it is not positive.
  cases waitLimit P.seconds (ex.effectiveTimeout tool) with
  | error e => rfl
  | ok limit => cases hnothing : startsNothing limit <;> simp [invokeTool, hnothing]

/-- A first attempt that times out is caught. -/
theorem caught_of_timeout {arguments : Dict} (hargs : req.arguments = .dict arguments)
    (h : attemptOf P ex req envs 0 = ⟨true, .error ⟨.timeoutError, ""⟩⟩) :
    CaughtBefore (ex.attempts P req tool fun i => (attemptOf P ex req envs i).outcome) 1 := by
  intro i hi
  obtain rfl : i = 0 := by omega
  refine ⟨⟨.timeoutError, ""⟩, ?_, by decide⟩
  rw [attempts_attemptOf hargs, h]

section Enters

variable {arguments : Dict} {limit : Option ℚ} (hargs : req.arguments = .dict arguments)
variable (henters : Enters P.seconds (ex.effectiveTimeout tool) arguments limit)
include hargs henters

/-- An attempt that does not start the command returns. -/
theorem attempt_of_not_starts {i : ℕ} (h : ¬ ∃ startup, Starts arguments (envs i) startup) :
    ∃ r, attemptOf P ex req envs i = ⟨false, .ok r⟩ := by
  unfold attemptOf
  rw [hargs]
  rcases attempt_cases P henters (envs i) with ⟨-, hreturns⟩ | ⟨startup, hstarts, -⟩
  · exact hreturns
  · exact absurd ⟨startup, hstarts⟩ h

/-- An attempt that starts the command and outlasts the limit times out. -/
theorem attempt_of_outlasts {i : ℕ} {startup : ℚ} (hstarts : Starts arguments (envs i) startup)
    (houtlasts : Outlasts P.seconds arguments limit (envs i) startup) :
    attemptOf P ex req envs i = ⟨true, .error ⟨.timeoutError, ""⟩⟩ := by
  unfold attemptOf
  rw [hargs]
  rcases attempt_cases P henters (envs i) with
    ⟨hno, -⟩ | ⟨startup', hstarts', ⟨-, htimeout⟩ | ⟨hno, -⟩⟩
  · exact absurd ⟨startup, hstarts⟩ hno
  · exact htimeout
  · rw [hstarts'.unique hstarts] at hno
    exact absurd houtlasts hno

/-- An attempt in which the command starts says so. -/
theorem started_of_starts {i : ℕ} {startup : ℚ} (hstarts : Starts arguments (envs i) startup) :
    (attemptOf P ex req envs i).started = true := by
  unfold attemptOf
  rw [hargs]
  rcases attempt_cases P henters (envs i) with
    ⟨hno, -⟩ | ⟨-, -, ⟨-, heq⟩ | ⟨-, heq | ⟨r, heq⟩⟩⟩
  · exact absurd ⟨startup, hstarts⟩ hno
  · rw [heq]
  · rw [heq]
  · rw [heq]

end Enters

/-- A call that ends with its first attempt has started the command at most once. -/
theorem starts_le_one_of_done (hmissed : ex.lookup P (caches 0) req = none)
    (hget : reg.get req.tool_name = .ok (some tool)) (hretries : 0 ≤ ex.max_retries)
    {r : Except Exn ExecutionResult} (h : callAt P ex reg req envs caches 2 = .done r)
    (n : ℕ) : starts P ex reg req envs caches n ≤ 1 := by
  have hnone : CaughtBefore (ex.attempts P req tool
      fun i => (attemptOf P ex req envs i).outcome) 0 := fun i hi => by omega
  obtain ⟨-, hawaits⟩ := taskAt_calling hmissed hget hretries (by push_cast; omega) hnone
  have hle := starts_le_of_done h n
  rw [starts_of_awaits hawaits] at hle
  exact hle.trans (List.countP_le_length.trans (by simp))

/-- A call whose first attempt times out and whose second one does not start the command. -/
theorem starts_le_one_of_timeout (hmissed : ex.lookup P (caches 0) req = none)
    (hget : reg.get req.tool_name = .ok (some tool)) (hretries : 0 < ex.max_retries)
    {arguments : Dict} {limit : Option ℚ} (hargs : req.arguments = .dict arguments)
    (henters : Enters P.seconds (ex.effectiveTimeout tool) arguments limit)
    (htimeout : attemptOf P ex req envs 0 = ⟨true, .error ⟨.timeoutError, ""⟩⟩)
    (hagain : ¬ ∃ startup, Starts arguments (envs 1) startup) (n : ℕ) :
    starts P ex reg req envs caches n ≤ 1 := by
  obtain ⟨r, hsecond⟩ := attempt_of_not_starts (P := P) hargs henters hagain
  have hcaught := caught_of_timeout hargs htimeout
  obtain ⟨hcalling, hawaits⟩ :=
    taskAt_calling hmissed hget hretries.le (by push_cast; omega) hcaught
  -- The second attempt returns and ends the call.
  have hreturns : ex.attempts P req tool (fun i => (attemptOf P ex req envs i).outcome) 1 =
      .ok r := by
    rw [attempts_attemptOf hargs, hsecond]
  have hdone : callAt P ex reg req envs caches 4 = .done (.ok (req.resultOf 1 r)) :=
    (congrArg (fun task => (ex.advance P reg req _ task (caches 3)).1) hcalling).trans
      (advance_returns hreturns (caches 3))
  have hle := starts_le_of_done hdone n
  rw [starts_of_awaits hawaits] at hle
  simpa [List.range_succ, htimeout, hsecond] using hle

/-- A call starts the command at most once unless its first attempt gets to the body of the tool:
its arguments are a mapping that binds, with a limit, nothing is cached, and an attempt is
allowed. -/
theorem starts_le_one_or_enters (hget : reg.get req.tool_name = .ok (some tool)) (n : ℕ) :
    starts P ex reg req envs caches n ≤ 1 ∨
      ∃ arguments limit, req.arguments = .dict arguments ∧
        Enters P.seconds (ex.effectiveTimeout tool) arguments limit ∧
        ex.lookup P (caches 0) req = none ∧ 0 ≤ ex.max_retries := by
  -- Without a mapping of arguments that binds, or a limit, no attempt starts the command.
  by_cases hdict : ∃ arguments, req.arguments = .dict arguments
  swap
  · have hnever : ∀ i, (attemptOf P ex req envs i).started = false := fun i =>
      attempt_of_not_dict (fun items hitems => hdict ⟨items, hitems⟩) (envs i)
    exact Or.inl ((starts_eq_zero hnever n).le.trans (by omega))
  obtain ⟨arguments, hargs⟩ := hdict
  by_cases henters : ∃ limit, Enters P.seconds (ex.effectiveTimeout tool) arguments limit
  swap
  · have hnever : ∀ i, (attemptOf P ex req envs i).started = false := by
      intro i
      unfold attemptOf
      rw [hargs]
      exact attempt_of_not_enters henters (envs i)
    exact Or.inl ((starts_eq_zero hnever n).le.trans (by omega))
  obtain ⟨limit, henters⟩ := henters
  -- A call that is answered from the cache, or has no attempts, ends at once.
  cases hmissed : ex.lookup P (caches 0) req with
  | some cached =>
    have hdone : callAt P ex reg req envs caches 1 =
        .done (.ok (req.cachedResult cached)) := by
      change ex.startTask P reg (caches 0) req = _
      simp only [ToolExecutor.startTask, hmissed]
    exact Or.inl ((starts_of_done_at_once hdone n).le.trans (by omega))
  | none =>
    by_cases hretries : 0 ≤ ex.max_retries
    · exact Or.inr ⟨arguments, limit, hargs, henters, rfl, hretries⟩
    · have hdone : callAt P ex reg req envs caches 1 =
          .done (.ok (ex.exhausted req "")) := by
        change ex.startTask P reg (caches 0) req = _
        simp only [ToolExecutor.startTask, hmissed, hget, ToolExecutor.retryLoop]
        rw [if_neg (by push_cast; omega)]
      exact Or.inl ((starts_of_done_at_once hdone n).le.trans (by omega))

/-- When the executor does not launch the command again, it is started at most once. -/
theorem starts_le_one (hget : reg.get req.tool_name = .ok (some tool))
    (hnot : ¬ Relaunches P ex req envs caches) (n : ℕ) :
    starts P ex reg req envs caches n ≤ 1 := by
  obtain hle | ⟨arguments, limit, hargs, henters, hmissed, hretries⟩ :
      starts P ex reg req envs caches n ≤ 1 ∨ _ := starts_le_one_or_enters hget n
  · exact hle
  have hnone : CaughtBefore (ex.attempts P req tool
      fun i => (attemptOf P ex req envs i).outcome) 0 := fun i hi => by omega
  obtain ⟨hcalling, -⟩ := taskAt_calling hmissed hget hretries (by push_cast; omega) hnone
  have hattempt : ex.attempts P req tool (fun i => (attemptOf P ex req envs i).outcome) 0 =
      (attempt P P.seconds (envs 0) (ex.effectiveTimeout tool) (.dict arguments)).outcome := by
    rw [attempts_attemptOf hargs, attemptOf, hargs]
  -- The first attempt ends the call, unless it times out.
  have hends {r : Except Exn ExecutionResult}
      (h : (ex.advance P reg req (fun i => (attemptOf P ex req envs i).outcome)
        (.calling tool 0) (caches 1)).1 = .done r) :
      starts P ex reg req envs caches n ≤ 1 := by
    refine starts_le_one_of_done hmissed hget hretries (r := r) ?_ n
    rw [← h]
    exact congrArg (fun task => (ex.advance P reg req _ task (caches 1)).1) hcalling
  rcases attempt_cases P henters (envs 0) with
    ⟨-, r, heq⟩ | ⟨startup, hstarts, ⟨houtlasts, heq⟩ | ⟨-, heq | ⟨r, heq⟩⟩⟩
  · exact hends (advance_returns (hattempt.trans (by rw [heq])) _)
  · have hraises : (ex.advance P reg req
        (fun i => (attemptOf P ex req envs i).outcome) (.calling tool 0) (caches 1)).1 =
          ex.retryLoop req tool 1 (ex.attemptError P req tool ⟨.timeoutError, ""⟩) :=
      advance_raises (hattempt.trans (by rw [heq])) (by decide) (caches 1)
    by_cases hmore : 0 < ex.max_retries
    · have hagain : ¬ ∃ startup', Starts arguments (envs 1) startup' := fun hagain =>
        hnot ⟨hmissed, hmore, arguments, limit, startup, hargs, henters, hstarts, houtlasts,
          hagain⟩
      have htimeout := attempt_of_outlasts (P := P) hargs henters hstarts houtlasts
      exact starts_le_one_of_timeout hmissed hget hmore hargs henters htimeout hagain n
    · have hexhausted : ex.retryLoop req tool 1 (ex.attemptError P req tool ⟨.timeoutError, ""⟩) =
          .done (.ok (ex.exhausted req (ex.attemptError P req tool ⟨.timeoutError, ""⟩))) :=
        if_neg (by push_cast; omega)
      exact hends (hraises.trans hexhausted)
  · exact hends (advance_uncaught (hattempt.trans (by rw [heq])) (by decide) _)
  · exact hends (advance_returns (hattempt.trans (by rw [heq])) _)

/-- A call starts the command no more often than the tool allows retries just if the executor does
not launch it again. -/
theorem command_starts_iff (hget : reg.get req.tool_name = .ok (some tool)) :
    (∀ n, (starts P ex reg req envs caches n : ℤ) ≤ 1 + tool.max_retries) ↔
      ¬ Relaunches P ex req envs caches := by
  constructor
  · rintro hall ⟨hmissed, hretries, arguments, limit, startup, hargs, henters, hstarts, houtlasts,
      startup', hstarts'⟩
    -- The first attempt times out, so that both attempts start the command.
    have hfirst : attemptOf P ex req envs 0 = ⟨true, .error ⟨.timeoutError, ""⟩⟩ :=
      attempt_of_outlasts hargs henters hstarts houtlasts
    have hsecond : (attemptOf P ex req envs 1).started = true :=
      started_of_starts hargs henters hstarts'
    have hcaught := caught_of_timeout hargs hfirst
    obtain ⟨-, hawaits⟩ := taskAt_calling hmissed hget (by omega) (by push_cast; omega) hcaught
    have htwo := hall 4
    rw [starts_of_awaits hawaits] at htwo
    simp [List.range_succ, hfirst, hsecond, tool] at htwo
  · intro hnot n
    have hle := starts_le_one hget hnot n
    have hzero : tool.max_retries = 0 := rfl
    omega

end Call

/-! ## A command of 40 seconds -/

/-- The system while such a command runs, here without output. -/
def longCommand : CommandEnv where
  resolve path := .ok path
  pathExists _ := .ok true
  spawn := .ok 0
  duration := some 40
  communicate := .ok ("", "")
  returncode := 0
  kill := .ok ()

/-- A request for it, under the tool's own limit of 60 seconds. -/
def longRequest : ToolCallRequest where
  tool_name := .str "execute_command"
  arguments := .dict [("command", .str "sleep 40")]

/-- The registry with the command tool. -/
def registry : ToolRegistry := ToolRegistry.empty.register tool

/-- The default executor, with a limit of so many seconds. -/
def executor (default_timeout : ℤ) : ToolExecutor where
  default_timeout := .int default_timeout
  max_retries := 2
  backoff_factor := 3 / 2
  parallel := true
  enable_cache := false

/-- With a limit of 90 seconds, the executor does not launch the command again. -/
theorem command_starts_iff_long_limit :
    (∀ n, (starts .bare (executor 90) registry longRequest (fun _ => longCommand)
        (fun _ => .empty) n : ℤ) ≤ 1 + tool.max_retries) ↔
      ¬ Relaunches .bare (executor 90) longRequest (fun _ => longCommand)
        (fun _ => .empty) :=
  have hget : registry.get longRequest.tool_name = .ok (some tool) := rfl
  command_starts_iff hget

/-- With the default of 30 seconds, each of its three attempts starts the command. -/
theorem command_started_three_times :
    starts .bare (executor 30) registry longRequest (fun _ => longCommand)
        (fun _ => .empty) 6 = 3 ∧
      ¬ ∀ n, (starts .bare (executor 30) registry longRequest
        (fun _ => longCommand) (fun _ => .empty) n : ℤ) ≤ 1 + tool.max_retries := by
  have hthree : starts .bare (executor 30) registry longRequest
      (fun _ => longCommand) (fun _ => .empty) 6 = 3 := by decide +kernel
  refine ⟨hthree, fun hall => ?_⟩
  have hle := hall 6
  rw [hthree] at hle
  exact absurd hle (by decide)

end ExecuteCommandTool

end YellowBull
