import YellowBull.Agent.Context
import YellowBull.ToolExecutor.Outcomes

/-!
# What a chat tells the LLM about its tools

The outcome of a tool call crosses four lists: the tool calls of the reply, the requests of the
batch, its results, and the TOOL messages. `toolMessages_getElem?` follows one position through
them. A failed execution has its diagnostic in `error`, and only `content` goes on to the message,
so that the outcomes of a round reach the LLM exactly when every execution succeeds
(`outcomesReach_iff`, and `chat_outcomes_reach_iff` for the rounds of a chat).
-/

namespace YellowBull

open Py

section Round

variable (P : Platform) (cfg : AgentConfig) (reg : ToolRegistry)
variable (tools : ℕ → ℕ → Except Exn ToolResult) (schedule : List ℕ) (cache : Cache)
variable (calls : List ToolCall)

/-- The requests of a reply, none where decoding its tool calls raises. -/
def requestsOf : List ToolCallRequest :=
  match buildToolRequests P cfg calls with
  | .ok requests => requests
  | .error _ => []

/-- The result that the call at position `i` finds in the cache. -/
def foundInCache (i : ℕ) : Option ExecutionResult :=
  (Batch.start cache).firstLookup P cfg.toolExecutor reg (requestsOf P cfg calls) tools i
    (schedule ++ cfg.toolExecutor.finishing (requestsOf P cfg calls))

/-- The task at position `i` when the batch of the round returns. -/
def taskAfter (i : ℕ) : Task :=
  ((Batch.start cache).run P cfg.toolExecutor reg (requestsOf P cfg calls) tools
    (schedule ++ cfg.toolExecutor.finishing (requestsOf P cfg calls))).tasks i

/-- The text contains the part. -/
def Contains (text part : String) : Prop := part.toList <:+: text.toList

/-- A text tells what an execution came to: the tool's content if it succeeded, and otherwise its
diagnostic, with what the tool itself said about a failing result. -/
def Conveys (req : ToolCallRequest) (text : String) (E : Execution) : Prop :=
  match E with
  | .returned attempt r =>
    if r.success then text = r.content
    -- `error` alone is "Unknown error" for a tool that reports its failure in `content`.
    else text ≠ "" ∧ Contains text (req.resultOf attempt r).error ∧
      Contains text (if r.error = "" then r.content else r.error)
  | E => text ≠ "" ∧ Contains text (E.result P cfg.toolExecutor req).error

/-- The outcomes of a round reach the LLM: there is one TOOL message for each call, in order, with
its id. Up to the cap it tells what the execution of the call came to, and beyond the cap it is the
notice and the tool is not run. -/
structure OutcomesReach (msgs : List Message) : Prop where
  answers : msgs.map (fun m => (m.role, m.tool_call_id)) =
    calls.map fun tc => (MessageRole.tool, tc.id)
  conveyed : ∀ (i : ℕ) tc, calls[i]? = some tc → i < cfg.max_tool_calls_per_turn →
    ∃ msg req text, msgs[i]? = some msg ∧ msg.content = some text ∧
      buildToolRequest P tc = .ok req ∧
      match foundInCache P cfg reg tools schedule cache calls i with
      | some cached => text = cached.content
      | none => Conveys P cfg req text (cfg.toolExecutor.execution P reg req (tools i))
  capped : ∀ (i : ℕ) tc, calls[i]? = some tc → cfg.max_tool_calls_per_turn ≤ i →
    ∃ msg, msgs[i]? = some msg ∧ msg.content = some resultUnavailable ∧
      taskAfter P cfg reg tools schedule cache calls i = .queued

/-- Each call up to the cap can be decoded, and its execution succeeds, or an earlier success is in
the cache. -/
def AllSucceed : Prop :=
  ∀ (i : ℕ) tc, calls[i]? = some tc → i < cfg.max_tool_calls_per_turn →
    ∃ req, buildToolRequest P tc = .ok req ∧
      ((foundInCache P cfg reg tools schedule cache calls i).isSome ∨
        (cfg.toolExecutor.execution P reg req (tools i)).Succeeds)

variable {P cfg reg tools schedule cache calls}

/-! ## One round -/

/-- The requests that a cap leaves are those of the calls up to it, position by position. -/
theorem buildToolRequests_spec (hcap : 0 ≤ cfg.max_tool_calls_per_turn)
    {requests : List ToolCallRequest} (h : buildToolRequests P cfg calls = .ok requests) :
    requests.length = min cfg.max_tool_calls_per_turn.toNat calls.length ∧
      ∀ (i : ℕ) tc, calls[i]? = some tc → i < cfg.max_tool_calls_per_turn →
        ∃ req, requests[i]? = some req ∧ buildToolRequest P tc = .ok req := by
  unfold buildToolRequests at h
  rw [sliceTo_of_nonneg _ hcap, Except.mapM_eq_ok] at h
  have hlen := h.length_eq
  rw [List.length_take] at hlen
  refine ⟨hlen.symm, fun i tc htc hi => ?_⟩
  obtain ⟨hlt, rfl⟩ := List.getElem?_eq_some_iff.mp htc
  have hreq : i < requests.length := by omega
  have hget := (List.forall₂_iff_get.mp h).2 i (by rw [List.length_take]; omega) hreq
  refine ⟨requests[i], List.getElem?_eq_getElem hreq, ?_⟩
  simpa using hget

/-- A failed execution has no content. -/
theorem Execution.content_of_not_succeeds {E : Execution} (h : ¬ E.Succeeds)
    (ex : ToolExecutor) (req : ToolCallRequest) : (E.result P ex req).content = "" := by
  cases E with
  | returned attempt r =>
    have hfail : ¬ r.success = true := h
    simp [Execution.result, Execution.outcome, ToolCallRequest.gathered, ToolCallRequest.resultOf,
      hfail]
  | raised e => rfl
  | unknown => rfl
  | exhausted last_error => rfl

/-- A text conveys a success exactly when it is the content of the result. -/
theorem conveys_of_succeeds {E : Execution} (h : E.Succeeds) (req : ToolCallRequest) :
    Conveys P cfg req (E.result P cfg.toolExecutor req).content E := by
  cases E with
  | returned attempt r =>
    have hok : r.success = true := h
    simp [Conveys, Execution.result, Execution.outcome, ToolCallRequest.gathered,
      ToolCallRequest.resultOf, hok]
  | raised e => exact h.elim
  | unknown => exact h.elim
  | exhausted last_error => exact h.elim

/-- A text that conveys a failure is not empty. -/
theorem Conveys.ne_empty {req : ToolCallRequest} {text : String} {E : Execution}
    (h : Conveys P cfg req text E) (hfail : ¬ E.Succeeds) : text ≠ "" := by
  cases E with
  | returned attempt r =>
    have hfail' : ¬ r.success = true := hfail
    simp only [Conveys, hfail'] at h
    exact h.1
  | raised e => exact h.1
  | unknown => exact h.1
  | exhausted last_error => exact h.1

/-- The TOOL message of a call up to the cap has the content of the result at its position. -/
theorem toolMessages_getElem? {requests : List ToolCallRequest}
    (hbuild : buildToolRequests P cfg calls = .ok requests) {i : ℕ} {tc : ToolCall}
    (htc : calls[i]? = some tc) {req : ToolCallRequest} (hreq : requests[i]? = some req) :
    (toolMessages P cfg reg tools schedule cache calls)[i]? = some
      { role := .tool, tool_call_id := tc.id,
        content := some (match foundInCache P cfg reg tools schedule cache calls i with
          | some cached => cached.content
          | none => ((cfg.toolExecutor.execution P reg req (tools i)).result P
              cfg.toolExecutor req).content) } := by
  have hrequests : requestsOf P cfg calls = requests := by simp [requestsOf, hbuild]
  unfold toolMessages foundInCache
  rw [hrequests]
  simp only [hbuild]
  rw [executeParallel_results, resultMessages, List.getElem?_mapIdx, htc, List.getElem?_mapIdx,
    hreq]
  cases (Batch.start cache).firstLookup P cfg.toolExecutor reg requests tools i
    (schedule ++ cfg.toolExecutor.finishing requests) <;> rfl

/-- The outcomes of a round reach the LLM exactly when all its executions succeed. -/
theorem outcomesReach_iff (hcap : 0 ≤ cfg.max_tool_calls_per_turn) :
    OutcomesReach P cfg reg tools schedule cache calls
        (toolMessages P cfg reg tools schedule cache calls) ↔
      AllSucceed P cfg reg tools schedule cache calls := by
  constructor
  · intro h i tc htc hi
    obtain ⟨msg, req, text, hmsg, hcontent, hdecode, htext⟩ := h.conveyed i tc htc hi
    refine ⟨req, hdecode, ?_⟩
    cases hfound : foundInCache P cfg reg tools schedule cache calls i with
    | some cached => exact .inl rfl
    | none =>
      refine .inr (by_contra fun hfail => ?_)
      rw [hfound] at htext
      -- There is a message, so that the calls could be decoded.
      cases hbuild : buildToolRequests P cfg calls with
      | error e => simp [toolMessages, hbuild] at hmsg
      | ok requests =>
        obtain ⟨req', hreq, hdecode'⟩ := (buildToolRequests_spec hcap hbuild).2 i tc htc hi
        obtain rfl := Except.ok.inj (hdecode.symm.trans hdecode')
        -- The message of a failed execution is empty.
        rw [toolMessages_getElem? hbuild htc hreq, hfound] at hmsg
        obtain rfl := Option.some.inj hmsg
        obtain rfl := Option.some.inj hcontent
        exact htext.ne_empty hfail (Execution.content_of_not_succeeds hfail _ _)
  · intro h
    -- Every call up to the cap can be decoded, so that there is a batch.
    obtain ⟨requests, hbuild⟩ : ∃ requests, buildToolRequests P cfg calls = .ok requests := by
      unfold buildToolRequests
      rw [Except.exists_mapM_eq_ok, sliceTo_of_nonneg _ hcap]
      intro tc htc
      obtain ⟨i, hi, rfl⟩ := List.mem_iff_getElem.mp htc
      rw [List.length_take] at hi
      obtain ⟨req, hdecode, -⟩ := h i calls[i] (List.getElem?_eq_getElem (by omega)) (by omega)
      exact ⟨req, by simpa using hdecode⟩
    obtain ⟨hlen, hspec⟩ := buildToolRequests_spec hcap hbuild
    refine ⟨?_, fun i tc htc hi => ?_, fun i tc htc hi => ?_⟩
    · simp only [toolMessages, hbuild]
      exact resultMessages_answers _ _
    · -- The message at a position up to the cap has the content of a success.
      obtain ⟨req, hreq, hdecode⟩ := hspec i tc htc hi
      obtain ⟨req', hdecode', hsucceeds⟩ := h i tc htc hi
      obtain rfl := Except.ok.inj (hdecode.symm.trans hdecode')
      refine ⟨_, req, _, toolMessages_getElem? hbuild htc hreq, rfl, hdecode, ?_⟩
      cases hfound : foundInCache P cfg reg tools schedule cache calls i with
      | some cached => rfl
      | none =>
        rw [hfound] at hsucceeds
        exact conveys_of_succeeds (hsucceeds.resolve_left (by simp)) req
    · -- Beyond the cap there is no request.
      have hnone : requests[i]? = none := List.getElem?_eq_none (by omega)
      refine ⟨{ role := .tool, content := some resultUnavailable, tool_call_id := tc.id }, ?_, rfl,
        ?_⟩
      · simp only [toolMessages, hbuild, executeParallel_results, resultMessages,
          List.getElem?_mapIdx, htc, hnone, Option.map_none, Option.map_some, Option.getD_none]
      · have hrequests : requestsOf P cfg calls = requests := by simp [requestsOf, hbuild]
        unfold taskAfter
        rw [hrequests, Batch.run_of_none hnone]
        rfl

/-- Without TOOL messages, the outcomes of a reply with calls do not reach the LLM. -/
theorem not_outcomesReach_nil (h : calls ≠ []) :
    ¬ OutcomesReach P cfg reg tools schedule cache calls [] := by
  intro hreach
  exact h (List.map_eq_nil_iff.mp hreach.answers.symm)

/-- The TOOL messages of a round are TOOL messages. -/
theorem role_of_mem_toolMessages {msg : Message}
    (h : msg ∈ toolMessages P cfg reg tools schedule cache calls) : msg.role = .tool := by
  unfold toolMessages at h
  split at h
  · simp at h
  · obtain ⟨i, hi, rfl⟩ := List.mem_mapIdx.mp h
    rfl

end Round

/-! ## The rounds of a chat -/

section Chat

variable {P : Platform} {cfg : AgentConfig} {reg : ToolRegistry} {O : Behaviour} {s : Session}
variable {cache : Cache} {request : ChatRequest}

/-- What a chat records from a round on starts with an ASSISTANT message. -/
theorem Transcript.head_role {n d : ℕ} {run : ChatRun} {rounds : List (List Message)}
    {tail : List Message} (ht : Transcript P cfg reg O n d s cache run rounds tail) (j : ℕ) :
    ∀ msg ∈ ((rounds.drop j).flatten ++ tail).head?, msg.role = .assistant := by
  intro msg hmsg
  by_cases hj : j < rounds.length
  · obtain ⟨reply, -, -, -, block, hblock, -⟩ := ht.complete j hj
    rw [List.drop_eq_getElem_cons hj, List.flatten_cons, hblock] at hmsg
    obtain rfl := Option.some.inj hmsg
    rfl
  · -- No round is left, and the ending decides.
    rw [List.drop_eq_nil_of_le (by omega), List.flatten_nil, List.nil_append] at hmsg
    cases ht.ending with
    | answered reply =>
      obtain rfl := Option.some.inj hmsg
      rfl
    | limit =>
      obtain rfl := Option.some.inj hmsg
      rfl
    | contextFailed => cases hmsg
    | llmFailed => cases hmsg
    | callsOpen reply =>
      obtain rfl := Option.some.inj hmsg
      rfl

/-- In every round of a chat in which the LLM returns tool calls, the chat records the ASSISTANT
message and behind it the TOOL messages `tools`, and these bring the outcomes to the LLM exactly
when all executions of the round succeed and no exception is thrown in meanwhile. -/
theorem chat_outcomes_reach_iff (hcap : 0 ≤ cfg.max_tool_calls_per_turn) {j : ℕ}
    {response : LLMResponse} (hreply : O.llm j = .ok response) (hcalls : response.tool_calls ≠ [])
    (hj : j < (chat P cfg reg O s cache request).llm_calls.length) :
    ∃ pre tools post, (chat P cfg reg O s cache request).session.messages =
        pre ++ callMessage response :: (tools ++ post) ∧
      pre.length = s.messages.length + recordedBefore O j ∧
      (∀ msg ∈ tools, msg.role = .tool) ∧ (∀ msg ∈ post.head?, msg.role ≠ .tool) ∧
      (OutcomesReach P cfg reg (O.tools j) (O.schedule j) (cacheBefore P cfg reg O 0 cache j)
          response.tool_calls tools ↔
        AllSucceed P cfg reg (O.tools j) (O.schedule j) (cacheBefore P cfg reg O 0 cache j)
          response.tool_calls ∧ O.interrupt j = none) := by
  obtain ⟨rounds, tail, ht⟩ := chat_transcript P cfg reg O s cache request
  generalize chat P cfg reg O s cache request = run at ht hj ⊢
  have hmsgs := ht.messages
  rw [Session.addMessages_messages] at hmsgs
  by_cases hround : j < rounds.length
  · -- A complete round.
    have hblock := ht.executed j hround response (by simpa using hreply)
    rw [Nat.zero_add] at hblock
    have hsplit : rounds.flatten = (rounds.take j).flatten ++
        (rounds[j] ++ (rounds.drop (j + 1)).flatten) := by
      rw [← List.flatten_cons, ← List.drop_eq_getElem_cons hround, ← List.flatten_append,
        List.take_append_drop]
    have hawaited := ht.awaited j hround
    rw [Nat.zero_add] at hawaited
    refine ⟨s.messages ++ userMessage request :: (rounds.take j).flatten, _,
      (rounds.drop (j + 1)).flatten ++ tail, ?_, ?_, fun _ => role_of_mem_toolMessages, ?_,
      (outcomesReach_iff hcap).trans (and_iff_left hawaited).symm⟩
    · rw [hmsgs, hsplit, hblock]
      simp
    · rw [ht.recordedBefore_eq (by omega), List.length_append, List.length_cons]
      omega
    · intro msg hmsg
      rw [ht.head_role (j + 1) msg hmsg]
      decide
  · -- The last round was not completed, and no TOOL message follows.
    cases ht.ending with
    | answered reply hk hr hnone hresult hlen =>
      obtain rfl : j = rounds.length := by omega
      rw [Nat.zero_add, hreply] at hr
      exact absurd (Except.ok.inj hr ▸ hnone) hcalls
    | limit hk hresult hlen => omega
    | contextFailed e hk hresult hlen => omega
    | llmFailed e hk hr hresult hlen =>
      obtain rfl : j = rounds.length := by omega
      rw [Nat.zero_add, hreply] at hr
      cases hr
    | callsOpen reply e hk hr hsome hopen hresult hlen =>
      obtain rfl : j = rounds.length := by omega
      rw [Nat.zero_add] at hr hopen
      rw [hreply] at hr
      obtain rfl := Except.ok.inj hr
      refine ⟨s.messages ++ userMessage request :: rounds.flatten, [], [], by rw [hmsgs]; simp, ?_,
        by simp, by simp, iff_of_false (not_outcomesReach_nil hcalls) ?_⟩
      · rw [ht.recordedBefore_eq le_rfl, List.take_length, List.length_append, List.length_cons]
        omega
      · rintro ⟨hsucceed, hawaited⟩
        rcases hopen with hbuild | ⟨-, hinterrupt⟩
        · -- Calls that cannot be decoded have no outcomes.
          have hreach := (outcomesReach_iff hcap).mpr hsucceed
          have hnone : ∀ tools schedule cache,
              toolMessages P cfg reg tools schedule cache response.tool_calls = [] := by
            simp [toolMessages, hbuild]
          rw [hnone] at hreach
          exact not_outcomesReach_nil hcalls hreach
        · rw [hawaited] at hinterrupt
          cases hinterrupt

end Chat

/-- A registry with one tool. -/
def readRegistry : ToolRegistry :=
  ToolRegistry.empty.register { info := ⟨"read", "Reads a file", []⟩ }

/-- The outside of a chat of one round, in which the tool comes back with `r`, and an answer. -/
def readRound (r : ToolResult) : Behaviour :=
  .scripted [{ tool_calls := [plainCall "c1" "read"] }, { content := some "done" }] (.ok r)

/-- That chat, on a new session. -/
def readRun (r : ToolResult) : ChatRun :=
  chat .bare { system_prompt := "p" } readRegistry (readRound r) { session_id := "s" } .empty
    { user_id := "u", message := "hi" }

/-- The round of that chat in which the tool succeeds. -/
theorem chat_outcomes_reach_iff_read :
    ∃ pre tools post, (readRun { content := "text" }).session.messages =
        pre ++ callMessage { tool_calls := [plainCall "c1" "read"] } :: (tools ++ post) ∧
      pre.length = 0 + recordedBefore (readRound { content := "text" }) 0 ∧
      (∀ msg ∈ tools, msg.role = .tool) ∧ (∀ msg ∈ post.head?, msg.role ≠ .tool) ∧
      (OutcomesReach .bare { system_prompt := "p" } readRegistry
          (fun _ _ => .ok { content := "text" }) [] .empty [plainCall "c1" "read"] tools ↔
        AllSucceed .bare { system_prompt := "p" } readRegistry
          (fun _ _ => .ok { content := "text" }) [] .empty [plainCall "c1" "read"] ∧
          (readRound { content := "text" }).interrupt 0 = none) :=
  have hcap : 0 ≤ ({ system_prompt := "p" } : AgentConfig).max_tool_calls_per_turn := by decide
  have hreply : (readRound { content := "text" }).llm 0 =
    .ok { tool_calls := [plainCall "c1" "read"] } := rfl
  have hj : 0 < (readRun { content := "text" }).llm_calls.length := by decide
  chat_outcomes_reach_iff hcap hreply (by simp) hj

/-- A failing result of the tool reaches the session as an empty TOOL message. -/
theorem chat_loses_diagnostic :
    (readRun { success := false, error := "no such file" }).session.messages =
        [userMessage { user_id := "u", message := "hi" },
          callMessage { tool_calls := [plainCall "c1" "read"] },
          { role := .tool, content := some "", tool_call_id := .str "c1" },
          finalMessage { content := some "done" }] ∧
      ¬ OutcomesReach .bare { system_prompt := "p" } readRegistry
        (fun _ _ => .ok { success := false, error := "no such file" }) [] .empty
        [plainCall "c1" "read"]
        [{ role := .tool, content := some "", tool_call_id := .str "c1" }] := by
  refine ⟨by decide, fun h => ?_⟩
  -- The call is not dropped, so its TOOL message should convey the outcome of its request.
  obtain ⟨msg, req, text, hmsg, hcontent, hdecode, htext⟩ :=
    h.conveyed 0 (plainCall "c1" "read") rfl (by decide)
  obtain rfl := Option.some.inj hmsg
  obtain rfl := Option.some.inj hcontent
  have hreq : buildToolRequest .bare (plainCall "c1" "read") = .ok ⟨.str "read", .dict []⟩ := by
    decide
  obtain rfl := Except.ok.inj (hreq.symm.trans hdecode)
  have hfound : foundInCache .bare { system_prompt := "p" } readRegistry
      (fun _ _ => .ok { success := false, error := "no such file" }) [] .empty
      [plainCall "c1" "read"] 0 = none := by decide
  -- Nothing came from the cache and the tool failed, so the text should not be empty; but it is.
  rw [hfound] at htext
  exact htext.ne_empty (fun hsucceeds => by cases hsucceeds) rfl

end YellowBull
