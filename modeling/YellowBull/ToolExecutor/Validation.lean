import YellowBull.BaseTool
import YellowBull.Lib.Except
import YellowBull.ToolExecutor.Calls

/-!
# Two paths to a tool

`ToolRegistry.resolve` validates the arguments of a call before the tool's `execute`, and
`execute_batch` does not. `Tool.Guards` says of a path that it lets only valid arguments through to
`execute`; `validated_iff` says for which calls both paths do and agree on the calls that they
refuse: those whose arguments are valid and have no key that `resolve` and `execute_with_retry` take
for themselves. An executor without attempts (`max_retries` negative), or whose limit leaves an
attempt no time, refuses every call that it does not answer from its cache.
-/

namespace YellowBull

open Py

/-! ## What is said of a path -/

section Paths

variable (P : Platform) (O : SetOrder)

/-- The required parameters of a tool that the arguments lack. -/
def Tool.missing (tool : Tool) (arguments : Dict) : List Val :=
  match tool.required O with
  | .ok required => required.filter (lacks arguments)
  | .error _ => []

/-- The text names the parameters. -/
def Names (text : String) (params : List Val) : Prop :=
  ∀ req ∈ params, (P.fmt req).toList <:+: text.toList

/-- What a path made of a call: the arguments with which it invoked `execute`, and what came back, a
success or a failure with its message. -/
structure Handled where
  invoked : Dict → Prop
  back : Except Exn (Bool × String)

/-- The path invokes `execute` with valid arguments only, and where the arguments of the call are
not valid it is a failure that names the missing parameters, and `execute` is not invoked. -/
def Tool.Guards (tool : Tool) (arguments : Dict) (h : Handled) : Prop :=
  (∀ given, h.invoked given → tool.validate P O given = .ok []) ∧
    (tool.validate P O arguments ≠ .ok [] → (∀ given, ¬ h.invoked given) ∧
      ∃ text, h.back = .ok (false, text) ∧ Names P text (tool.missing O arguments))

/-- The path refuses the call: `execute` is not invoked, and the call is not a success. -/
def Handled.Refused (h : Handled) : Prop :=
  (∀ given, ¬ h.invoked given) ∧ ∀ text, h.back ≠ .ok (true, text)

/-- What `resolve` makes of a call. -/
def ToolRegistry.handled (reg : ToolRegistry) (name : String) (arguments : Dict)
    (attempts : ℕ → Except Exn ToolResult) : Handled where
  invoked given := ∃ call ∈ (reg.resolve P O name arguments attempts).1, call.kwargs = given
  back := (reg.resolve P O name arguments attempts).2.map fun r => (r.success, r.content)

/-- What a batch makes of the request at position `i`, whose task came to `t`. -/
def ToolExecutor.State.handled (ex : ToolExecutor) (s : ToolExecutor.State)
    (requests : List ToolCallRequest) (outcomes : ℕ → ℕ → Except Exn ToolResult)
    (segments : List ℕ) (i : ℕ) (t : Except Exn ExecutionResult) : Handled where
  invoked given := ∃ tool attempt,
    s.Executes P ex requests outcomes segments [] i ⟨tool, given, attempt⟩
  back := t.map fun r => (r.success, r.error)

end Paths

/-! ## Through the registry -/

section Resolve

variable {P : Platform} {O : SetOrder} {tool : Tool}

/-- The arguments have no key that `resolve` or `execute_with_retry` raises on. -/
def Bindable (arguments : Dict) : Prop :=
  ∀ kv ∈ arguments, kv.1 ≠ "cls" ∧ kv.1 ≠ "name" ∧ kv.1 ≠ "self"

instance : DecidablePred Bindable := fun arguments =>
  inferInstanceAs (Decidable (∀ kv ∈ arguments, _))

/-- The arguments that `execute_with_retry` has left of a call. -/
def forwarded (arguments : Dict) : Dict := arguments.filter (·.1 ≠ "max_retries")

/-- The retries repeat the call. -/
theorem Tool.eq_of_mem_retry {call call' : Tool.ContextCall}
    {attempts : ℕ → Except Exn ToolResult} {n attempt : ℕ} {result : ToolResult}
    (h : call' ∈ (Tool.retry call attempts n attempt result).1) : call' = call := by
  induction n generalizing attempt result with
  | zero => cases h
  | succ n ih =>
    unfold Tool.retry at h
    split at h
    · cases h
    · split at h
      · exact List.mem_singleton.mp h
      · rcases List.mem_cons.mp h with h | h
        · exact h
        · exact ih h

/-- `execute_with_retry` with valid arguments invokes `execute`, and always with them. -/
theorem Tool.executeWithRetry_valid {kwargs : Dict} (h : tool.validate P O kwargs = .ok [])
    (max_retries : Val) (attempts : ℕ → Except Exn ToolResult) :
    (tool.executeWithRetry P O max_retries kwargs attempts).1 ≠ [] ∧
      ∀ call ∈ (tool.executeWithRetry P O max_retries kwargs attempts).1,
        call.kwargs = kwargs := by
  unfold Tool.executeWithRetry
  simp only [h, ne_eq, not_true_eq_false, if_false]
  split
  next => simp
  next result hresult =>
    split
    next => simp
    next n hn =>
      refine ⟨by simp, fun call hcall => ?_⟩
      rcases List.mem_cons.mp hcall with rfl | hcall
      · rfl
      · rw [Tool.eq_of_mem_retry hcall]

/-- A missing parameter has its error, if validation does not raise. -/
theorem Tool.mem_errors_of_missing {params : Dict} {errors : List String}
    (h : tool.validate P O params = .ok errors) {req : Val} (hreq : req ∈ tool.missing O params) :
    "Missing required parameter: " ++ P.fmt req ∈ errors := by
  unfold Tool.validate at h
  obtain ⟨required, hrequired, h⟩ := Except.bind_eq_ok.mp h
  obtain ⟨wrong, -, h⟩ := Except.bind_eq_ok.mp h
  obtain rfl := Except.ok.inj h
  simp only [Tool.missing, hrequired] at hreq
  exact List.mem_append_left _ (List.mem_map_of_mem hreq)

/-- `max_retries` is not forwarded, and all other arguments are. -/
theorem lookup_forwarded (arguments : Dict) (key : String) :
    (forwarded arguments).lookup key =
      if key = "max_retries" then none else arguments.lookup key := by
  induction arguments with
  | nil => simp [forwarded]
  | cons kv arguments ih =>
    obtain ⟨k, v⟩ := kv
    unfold forwarded at ih ⊢
    -- Only `max_retries` is taken out, wherever it stands.
    by_cases hk : k = "max_retries"
    · subst hk
      rw [List.filter_cons_of_neg (by simp), ih]
      by_cases hkey : key = "max_retries"
      · rw [if_pos hkey, if_pos hkey]
      · rw [if_neg hkey, if_neg hkey, List.lookup_cons, beq_false_of_ne hkey]
    · rw [List.filter_cons_of_pos (by simpa using hk), List.lookup_cons, List.lookup_cons, ih]
      by_cases hkey : key = k
      · subst hkey
        simp [hk]
      · rw [beq_false_of_ne hkey]

/-- What the arguments of a call lack, the forwarded ones lack too. -/
theorem Tool.missing_forwarded {arguments : Dict} {req : Val}
    (h : req ∈ tool.missing O arguments) : req ∈ tool.missing O (forwarded arguments) := by
  unfold Tool.missing at h ⊢
  cases hrequired : tool.required O with
  | error e => simp [hrequired] at h
  | ok required =>
    simp only [hrequired, List.mem_filter] at h ⊢
    refine ⟨h.1, ?_⟩
    obtain ⟨-, h⟩ := h
    unfold lacks at h ⊢
    cases req with
    | str key =>
      simp only [lookup_forwarded]
      by_cases hkey : key = "max_retries"
      · simp [hkey]
      · simpa [hkey] using h
    | _ => rfl

variable {reg : ToolRegistry} {name : String} {arguments : Dict}

/-- A call with a key that is given by position already raises. -/
theorem ToolRegistry.resolve_of_not_bindable (htool : reg.tools.get? name = some tool)
    (h : ¬ Bindable arguments) (attempts : ℕ → Except Exn ToolResult) :
    ∃ e, reg.resolve P O name arguments attempts = ([], .error e) := by
  unfold ToolRegistry.resolve
  split
  next key _ hfound => exact ⟨_, rfl⟩
  next hfound =>
    have hself : (arguments.lookup "self").isSome := by
      by_contra hnone
      refine h fun kv hkv => ?_
      have hother := List.find?_eq_none.mp hfound kv hkv
      have hne := List.lookup_eq_none_iff.mp (Option.not_isSome_iff_eq_none.mp hnone) kv hkv
      simp only [decide_eq_true_eq, not_or] at hother
      exact ⟨hother.1, hother.2, fun heq => bne_iff_ne.mp hne heq.symm⟩
    refine ⟨multipleValues "BaseTool.execute_with_retry" "self", ?_⟩
    rw [htool]
    exact if_pos hself

/-- Any other call goes to `execute_with_retry`. -/
theorem ToolRegistry.resolve_of_bindable (htool : reg.tools.get? name = some tool)
    (h : Bindable arguments) (attempts : ℕ → Except Exn ToolResult) :
    reg.resolve P O name arguments attempts =
      tool.executeWithRetry P O (Py.Dict.get arguments "max_retries" .none) (forwarded arguments)
        attempts := by
  have hfound : arguments.find? (fun kv => kv.1 = "cls" ∨ kv.1 = "name") = none := by
    refine List.find?_eq_none.mpr fun kv hkv => ?_
    obtain ⟨hcls, hname, -⟩ := h kv hkv
    simp [hcls, hname]
  have hself : ¬ (arguments.lookup "self").isSome := by
    rw [Option.not_isSome_iff_eq_none, List.lookup_eq_none_iff]
    intro kv hkv
    exact bne_iff_ne.mpr (h kv hkv).2.2.symm
  unfold ToolRegistry.resolve
  rw [hfound, htool]
  exact if_neg hself

/-- What `resolve` makes of a call whose forwarded arguments are not valid. -/
theorem Tool.executeWithRetry_invalid {kwargs : Dict} {errors : List String}
    (h : tool.validate P O kwargs = .ok errors) (hne : errors ≠ []) (max_retries : Val)
    (attempts : ℕ → Except Exn ToolResult) :
    tool.executeWithRetry P O max_retries kwargs attempts =
      ([], .ok { content := "Parameter validation failed: " ++ join "; " errors,
                 success := false }) := by
  unfold Tool.executeWithRetry
  simp only [h]
  exact if_pos hne

/-- The text of the failure names the parameters that the arguments of the call lack. -/
theorem Tool.names_missing {arguments : Dict} {errors : List String}
    (h : tool.validate P O (forwarded arguments) = .ok errors) :
    Names P ("Parameter validation failed: " ++ join "; " errors) (tool.missing O arguments) := by
  intro req hreq
  have hend : ∀ s t : String, t.toList <:+: (s ++ t).toList := by
    intro s t
    rw [String.toList_append]
    exact (List.suffix_append _ _).isInfix
  have herror : "Missing required parameter: " ++ P.fmt req ∈ errors :=
    Tool.mem_errors_of_missing h (Tool.missing_forwarded hreq)
  exact ((hend _ _).trans (infix_join "; " herror)).trans (hend _ _)

variable (P O tool) in
/-- `resolve` lets the call through to `execute`. -/
def Tool.Admits (arguments : Dict) : Prop :=
  Bindable arguments ∧ tool.validate P O (forwarded arguments) = .ok []

instance (arguments : Dict) : Decidable (tool.Admits P O arguments) :=
  inferInstanceAs (Decidable (_ ∧ _))

/-- The three things that `resolve` makes of a call: it invokes `execute` with the forwarded
arguments, it returns the errors of their validation, or it raises. -/
theorem ToolRegistry.handled_cases (htool : reg.tools.get? name = some tool) (arguments : Dict)
    (attempts : ℕ → Except Exn ToolResult) :
    let h := reg.handled P O name arguments attempts
    (tool.Admits P O arguments ∧ (∃ given, h.invoked given) ∧
        ∀ given, h.invoked given → given = forwarded arguments) ∨
      (Bindable arguments ∧ (∃ errors ≠ [], tool.validate P O (forwarded arguments) = .ok errors) ∧
        (∀ given, ¬ h.invoked given) ∧
        ∃ text, h.back = .ok (false, text) ∧ Names P text (tool.missing O arguments)) ∨
      ((¬ Bindable arguments ∨ ∃ e, tool.validate P O (forwarded arguments) = .error e) ∧
        (∀ given, ¬ h.invoked given) ∧ ∃ e, h.back = .error e) := by
  intro h
  -- Calls that come back with `execute` not invoked.
  have hnone : ∀ back, reg.resolve P O name arguments attempts = ([], back) →
      (∀ given, ¬ h.invoked given) ∧ h.back = back.map fun r => (r.success, r.content) := by
    intro back hback
    refine ⟨?_, by simp only [h, handled, hback]⟩
    rintro given ⟨call, hcall, -⟩
    rw [hback] at hcall
    cases hcall
  by_cases hbind : Bindable arguments
  · have hresolve : reg.resolve P O name arguments attempts = _ :=
      resolve_of_bindable htool hbind attempts
    cases hvalid : tool.validate P O (forwarded arguments) with
    | error e =>
      obtain ⟨hinvoked, hback⟩ := hnone (.error e) (by
        rw [hresolve, Tool.executeWithRetry, hvalid])
      exact Or.inr (Or.inr ⟨Or.inr ⟨e, rfl⟩, hinvoked, e, hback⟩)
    | ok errors =>
      by_cases hne : errors = []
      · subst hne
        obtain ⟨hcalls, hsame⟩ := Tool.executeWithRetry_valid hvalid
          (Py.Dict.get arguments "max_retries" .none) attempts
        rw [← hresolve] at hcalls hsame
        obtain ⟨call, hcall⟩ := List.exists_mem_of_ne_nil _ hcalls
        refine Or.inl ⟨⟨hbind, hvalid⟩, ⟨_, call, hcall, rfl⟩, ?_⟩
        rintro given ⟨call', hcall', rfl⟩
        exact hsame call' hcall'
      · obtain ⟨hinvoked, hback⟩ := hnone _ (by
          rw [hresolve, Tool.executeWithRetry_invalid hvalid hne])
        have hnames := Tool.names_missing hvalid
        exact Or.inr (Or.inl ⟨hbind, ⟨errors, hne, rfl⟩, hinvoked, _, hback, hnames⟩)
  · obtain ⟨e, he⟩ : ∃ e, reg.resolve P O name arguments attempts = ([], .error e) :=
      resolve_of_not_bindable htool hbind attempts
    obtain ⟨hinvoked, hback⟩ := hnone _ he
    exact Or.inr (Or.inr ⟨Or.inl hbind, hinvoked, e, hback⟩)

variable (P O) in
/-- `resolve` refuses the calls that it does not let through. -/
theorem ToolRegistry.refused_iff (htool : reg.tools.get? name = some tool) (arguments : Dict)
    (attempts : ℕ → Except Exn ToolResult) :
    (reg.handled P O name arguments attempts).Refused ↔ ¬ tool.Admits P O arguments := by
  rcases handled_cases (P := P) (O := O) htool arguments attempts with
    ⟨hadmits, ⟨given, hgiven⟩, -⟩ | ⟨-, ⟨errors, hne, hvalid⟩, hnone, text, hback, -⟩ |
      ⟨hnot, hnone, e, hback⟩
  · exact iff_of_false (fun h => h.1 given hgiven) (not_not_intro hadmits)
  · refine iff_of_true ⟨hnone, by simp [hback]⟩ fun h => hne ?_
    exact Except.ok.inj (hvalid.symm.trans h.2)
  · refine iff_of_true ⟨hnone, by simp [hback]⟩ fun h => ?_
    rcases hnot with hbind | ⟨e', he'⟩
    · exact hbind h.1
    · exact nomatch he'.symm.trans h.2

variable (P O) in
/-- `resolve` guards the tool against all calls but those that it raises on, and those that become
valid without `max_retries`. -/
theorem ToolRegistry.guards_iff (htool : reg.tools.get? name = some tool) (arguments : Dict)
    (attempts : ℕ → Except Exn ToolResult) :
    tool.Guards P O arguments (reg.handled P O name arguments attempts) ↔
      tool.validate P O arguments = .ok [] ∨ Bindable arguments ∧
        ∃ errors ≠ [], tool.validate P O (forwarded arguments) = .ok errors := by
  rcases handled_cases (P := P) (O := O) htool arguments attempts with
    ⟨hadmits, ⟨given, hgiven⟩, hsame⟩ | ⟨hbind, herrors, hnone, text, hback, hnames⟩ |
      ⟨hnot, hnone, e, hback⟩
  · -- `execute` is invoked, so that the arguments of the call have to be valid too.
    constructor
    · intro h
      by_contra hne
      rw [not_or] at hne
      exact (h.2 hne.1).1 given hgiven
    · rintro (hvalid | ⟨-, errors, hne, hvalid⟩)
      · refine ⟨fun given h => ?_, fun hne => absurd hvalid hne⟩
        rw [hsame given h]
        exact hadmits.2
      · exact absurd (Except.ok.inj (hvalid.symm.trans hadmits.2)) hne
  · -- The errors come back, and name what is missing.
    refine iff_of_true ⟨fun given h => absurd h (hnone given), fun _ => ⟨hnone, ?_⟩⟩ ?_
    · exact ⟨text, hback, hnames⟩
    · exact Or.inr ⟨hbind, herrors⟩
  · -- An exception names nothing.
    constructor
    · intro h
      by_contra hne
      rw [not_or] at hne
      obtain ⟨-, text, htext, -⟩ := h.2 hne.1
      rw [hback] at htext
      cases htext
    · rintro (hvalid | ⟨hbind, errors, -, hvalid⟩)
      · exact ⟨fun given h => absurd h (hnone given), fun hne => absurd hvalid hne⟩
      · rcases hnot with hbind' | ⟨e', he'⟩
        · exact absurd hbind hbind'
        · exact nomatch he'.symm.trans hvalid

end Resolve

/-! ## Through the executor -/

namespace ToolExecutor

section Batch

variable {P : Platform} {O : SetOrder} {ex : ToolExecutor} {tool : Tool}

/-- The error of a request of which no call is started: no attempt is allowed, or the limit of each
leaves it no time, and the error is that of `wait_for`. -/
def refusal (P : Platform) (ex : ToolExecutor) (req : ToolCallRequest) (tool : Tool) : String :=
  "Failed after " ++ toString ex.max_retries ++ " retries: " ++
    if 0 ≤ ex.max_retries then
      match waitLimit P.seconds (ex.effectiveTimeout tool) with
      | .error e => e.text
      | .ok _ => "Tool '" ++ P.fmt req.tool_name ++ "' timed out after " ++
          P.fmt (ex.effectiveTimeout tool) ++ "s"
    else ""

/-- The executor runs the `execute` of the tool: it makes an attempt, and the limit leaves it
time. -/
def Runs (P : Platform) (ex : ToolExecutor) (tool : Tool) : Prop :=
  0 ≤ ex.max_retries ∧ ex.startsCall P tool = true

instance : Decidable (ex.Runs P tool) := inferInstanceAs (Decidable (_ ∧ _))

/-- A request is answered from the cache: when it starts, a success with its cache key is in the
log. -/
def State.Answered (P : Platform) (ex : ToolExecutor) (s : State) (requests : List ToolCallRequest)
    (outcomes : ℕ → ℕ → Except Exn ToolResult) (segments : List ℕ) (i : ℕ)
    (req : ToolCallRequest) : Prop :=
  ex.enable_cache = true ∧ ∃ pre, pre ++ [i] <+: segments ∧
    (s.batchAt P ex requests outcomes pre).tasks i = .queued ∧
    ∃ su ∈ s.logAt P ex requests outcomes pre, su.req.cacheKey P = req.cacheKey P

/-- Attempts that all raise one exception, which is caught, are used up. -/
theorem attemptsFrom_of_raises {req : ToolCallRequest} {e : Exn} {text : String}
    (hlast : ex.lastError P req tool e = some text) {outcomes : ℕ → Except Exn ToolResult}
    (hraise : ∀ n, ex.waitFor P tool req.arguments (outcomes n) = .error e) (n attempt : ℕ)
    (last_error : String) :
    ex.attemptsFrom P req tool outcomes n attempt last_error =
      .exhausted (if n = 0 then last_error else text) := by
  induction n generalizing attempt last_error with
  | zero => rfl
  | succ n ih =>
    simp only [attemptsFrom, hraise, hlast, ih]
    split <;> rfl

/-- A request of which no call is started comes to its refusal. -/
theorem outcome_of_not_runs {reg : ToolRegistry} {req : ToolCallRequest}
    (htool : reg.get req.tool_name = .ok (some tool)) (hruns : ¬ ex.Runs P tool)
    (outcomes : ℕ → Except Exn ToolResult) :
    ∃ r, (ex.execution P reg req outcomes).outcome P ex req = .ok r ∧ r.success = false ∧
      r.error = ex.refusal P req tool := by
  have hfailed : ∀ last_error, (ex.exhausted req last_error).success = false := by
    intro last_error
    unfold exhausted ExecutionResult.success
    by_cases hpos : 0 < ex.max_retries <;> simp [hpos]
  unfold execution refusal
  rw [htool]
  by_cases hretries : 0 ≤ ex.max_retries
  · -- There are attempts, and none is started.
    have hstarts : ex.startsCall P tool = false := by
      by_contra hstarts
      exact hruns ⟨hretries, by simpa using hstarts⟩
    have hzero : (ex.max_retries + 1).toNat ≠ 0 := by omega
    rw [if_pos hretries]
    unfold startsCall at hstarts
    cases hlimit : waitLimit P.seconds (ex.effectiveTimeout tool) with
    | error e =>
      have hraise : ∀ n, ex.waitFor P tool req.arguments (outcomes n) = .error e := by
        simp [waitFor, hlimit]
      have hlast : ex.lastError P req tool e = some e.text := by
        unfold waitLimit at hlimit
        split at hlimit <;> cases hlimit
        rfl
      simp only [attemptsFrom_of_raises hlast hraise, if_neg hzero]
      exact ⟨_, rfl, hfailed _, rfl⟩
    | ok limit =>
      simp only [hlimit, Bool.not_eq_false'] at hstarts
      have hraise : ∀ n, ex.waitFor P tool req.arguments (outcomes n) =
          .error ⟨.timeoutError, ""⟩ := by
        simp [waitFor, hlimit, hstarts]
      simp only [attemptsFrom_of_raises (e := ⟨.timeoutError, ""⟩) rfl hraise, if_neg hzero]
      exact ⟨_, rfl, hfailed _, rfl⟩
  · -- There is no attempt.
    have hzero : (ex.max_retries + 1).toNat = 0 := by omega
    rw [if_neg hretries, hzero]
    exact ⟨_, rfl, hfailed _, rfl⟩

/-- A call that a task executes has the arguments of its request and its registered tool, which the
executor runs. -/
theorem State.Executes.of_request {s : State} {requests : List ToolCallRequest}
    {outcomes : ℕ → ℕ → Except Exn ToolResult} {segments pre : List ℕ} {i : ℕ} {name : Val}
    {arguments : Dict} {call : Invocation}
    (h : s.Executes P ex requests outcomes segments pre i call)
    (hi : requests[i]? = some ⟨name, .dict arguments⟩) :
    call.arguments = arguments ∧ s.registry.get name = .ok (some call.tool) ∧
      ex.Runs P call.tool := by
  obtain ⟨pre', -, -, hcall⟩ := h
  obtain ⟨hcalling, hstarts⟩ := Batch.tasks_of_invocation hcall
  have hsound : (s.batchAt P ex requests outcomes pre').Sound P ex s.registry requests outcomes :=
    (Batch.sound_start s.cache).run pre'
  have htask := hsound i _ hi
  rw [hcalling] at htask
  obtain ⟨htool, hlt, -⟩ := htask
  simp only [Batch.invocation?, hi, hcalling, hstarts, if_true, Option.some.injEq] at hcall
  refine ⟨by rw [← hcall], htool, ?_, hstarts⟩
  omega

/-- What becomes of a request of a registered tool: it is answered by a success of the cache or
invokes `execute` with its arguments, or no call of it is started and it is refused. -/
theorem State.handled_cases {reg : ToolRegistry} {ops : List Op} {requests : List ToolCallRequest}
    {outcomes : ℕ → ℕ → Except Exn ToolResult} {schedule : List ℕ} {i : ℕ} {name : Val}
    {arguments : Dict} {t : Except Exn ExecutionResult}
    (hi : requests[i]? = some ⟨name, .dict arguments⟩)
    (htool : (ex.stateAfter P reg ops).registry.get name = .ok (some tool))
    (hdone : ((ex.stateAfter P reg ops).batchAt P ex requests outcomes
      (ex.batchSegments P (ex.stateAfter P reg ops).registry requests outcomes schedule
        (ex.stateAfter P reg ops).cache)).tasks i = .done t) :
    let s := ex.stateAfter P reg ops
    let segments := ex.batchSegments P s.registry requests outcomes schedule s.cache
    let h := s.handled P ex requests outcomes segments i t
    let served := s.Answered P ex requests outcomes segments i ⟨name, .dict arguments⟩ ∨
      ex.Runs P tool
    (served ∧ (∀ given, h.invoked given → given = arguments) ∧
        ((∃ given, h.invoked given) ∨ ∃ text, h.back = .ok (true, text))) ∨
      (¬ served ∧ (∀ given, ¬ h.invoked given) ∧
        h.back = .ok (false, ex.refusal P ⟨name, .dict arguments⟩ tool)) := by
  intro s segments h served
  have hcache : s.cache = ex.remember P .empty s.log := cache_stateAfter reg ops
  have hinvoked : ∀ given, h.invoked given → given = arguments ∧ ex.Runs P tool := by
    rintro given ⟨tool', attempt, hexecutes⟩
    obtain ⟨hgiven, htool', hruns⟩ := hexecutes.of_request hi
    obtain rfl := Option.some.inj (Except.ok.inj (htool.symm.trans htool'))
    exact ⟨hgiven, hruns⟩
  obtain ⟨pre, hpre, hqueued⟩ : ∃ pre, pre ++ [i] <+: segments ∧
      (s.batchAt P ex requests outcomes pre).tasks i = .queued :=
    Batch.exists_segment rfl (show Task.queued ≠ .done t by simp) hdone
  obtain ⟨rest, hrest⟩ := hpre
  rcases tasks_start hcache hi hqueued with ⟨hen, su, hsu, hkey, hhit⟩ | ⟨-, hmiss⟩
  · -- A task that its first segment ends stays as it is.
    have hend : t = .ok (ToolCallRequest.cachedResult ⟨name, .dict arguments⟩ su.result.val) := by
      have hstays := State.done_append hi hhit rest
      rw [hrest] at hstays
      exact Task.done.inj (hdone.symm.trans hstays)
    have hserved : served := .inl ⟨hen, pre, ⟨rest, hrest⟩, hqueued, su, hsu, hkey⟩
    refine .inl ⟨hserved, fun given hgiven => (hinvoked given hgiven).1, .inr ?_⟩
    refine ⟨su.result.val.error, ?_⟩
    rw [show h.back = t.map _ from rfl, hend]
    simp only [Except.map, Except.ok.injEq, Prod.mk.injEq]
    exact ⟨su.result.property, rfl⟩
  · have hget : s.registry.get name = .ok (some tool) := htool
    by_cases hruns : ex.Runs P tool
    · -- The first segment brings the task to its first call.
      have hcalling : (s.batchAt P ex requests outcomes (pre ++ [i])).tasks i =
          .calling tool 0 := by
        rw [hmiss]
        simp only [missed, hget, retryLoop, Nat.lt_irrefl, if_false, Nat.cast_zero]
        exact if_pos (by have := hruns.1; omega)
      refine .inl ⟨.inr hruns, fun given hgiven => (hinvoked given hgiven).1, .inl ?_⟩
      obtain ⟨pre', -, hcall⟩ :=
        State.executes_of_calling hruns.2 hi ⟨rest, hrest⟩ hcalling
      exact ⟨arguments, tool, 0, pre', List.nil_prefix, hcall⟩
    · -- The task follows its execution, in which no call is started.
      have hfollows : ((s.batchAt P ex requests outcomes (pre ++ [i])).tasks i).Follows P ex
          ⟨name, .dict arguments⟩ (outcomes i)
            (ex.execution P s.registry ⟨name, .dict arguments⟩ (outcomes i)) := by
        rw [hmiss, missed, execution]
        simp only [hget]
        exact Task.follows_retryLoop (by simp)
      have hend : t =
          (ex.execution P s.registry ⟨name, .dict arguments⟩ (outcomes i)).outcome P ex
            ⟨name, .dict arguments⟩ := by
        have hlast := @Batch.follows_run P ex s.registry _ _ i _ hi _ _ hfollows rest
        rw [← State.batchAt_append, hrest, hdone] at hlast
        exact hlast
      have hget' : s.registry.get (ToolCallRequest.mk name (.dict arguments)).tool_name =
          .ok (some tool) := hget
      obtain ⟨r, hr, hfailed, herror⟩ := outcome_of_not_runs hget' hruns (outcomes i)
      have hnot : ¬ served := by
        rintro (⟨hen, pre', hpre', hqueued', su, hsu, hkey⟩ | hruns')
        · -- A request that is answered from the cache has a success.
          rcases tasks_start hcache hi hqueued' with ⟨-, su', -, -, hhit⟩ | ⟨hfresh, -⟩
          · obtain ⟨rest', hrest'⟩ := hpre'
            have hstays := State.done_append hi hhit rest'
            rw [hrest', hdone, hend, hr] at hstays
            obtain rfl := Except.ok.inj (Task.done.inj hstays)
            exact Bool.false_ne_true (hfailed.symm.trans su'.result.property)
          · exact hfresh hen su hsu hkey
        · exact hruns hruns'
      refine .inr ⟨hnot, fun given hgiven => hruns (hinvoked given hgiven).2, ?_⟩
      rw [show h.back = t.map _ from rfl, hend, hr]
      simp only [Except.map, hfailed, herror]

end Batch

/-- A tool with a required parameter. -/
def echo : Tool where
  info := ⟨"echo", "", [("properties", .dict [("text", .dict [("type", .str "string")])]),
    ("required", .list [.str "text"])]⟩

/-- A request for it. -/
def echoRequest (arguments : Dict) : ToolCallRequest := ⟨.str "echo", .dict arguments⟩

/-- The result of the request when the tool returns a text. -/
def echoed (content : String) : ExecutionResult :=
  { tool_name := .str "echo", status := .success, content := content }

end ToolExecutor

end YellowBull
