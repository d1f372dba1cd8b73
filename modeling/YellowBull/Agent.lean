import YellowBull.ContextBuilder
import YellowBull.ToolExecutor

/-!
# The agent

`Agent.chat` of `core/agent.py` on the session that `_get_or_create_session` found or made. The code
between two awaits is one segment, and each segment is a definition of its own: `userMessage`
starts the call, `roundHead` is the top of the loop body up to `await self.llm.chat(..)`,
`onReply` what follows up to `await self.tool_executor.execute_batch(..)`, `resultMessages` the
recording of the results, and `fallbackMessage` the code after the loop. `chatLoop` and `chat` run
them in sequence with no other writer on the session; `Concurrency.lean` interleaves the same
segments.

What the outside does is an input (`Behaviour`): the reply to each call of the LLM, what each
attempt of each tool comes back with, the order in which the tasks of a batch run, the clock, and
the exceptions that are thrown into the chat while it awaits a batch, as when its task is cancelled.
One that is thrown in while it awaits the LLM is what that call comes back with.
-/

namespace YellowBull

open Py

/-- `AgentConfig` of `config/settings.py` with the part of `ToolExecutorConfig` that the agent
reads. The float settings of the executor are values that it only passes on or prints, but for the
factor. -/
structure AgentConfig where
  system_prompt : String
  max_chain_depth : ℤ := 100
  context_window : ℤ := 48
  tool_retry_limit : ℤ := 2
  max_tool_calls_per_turn : ℤ := 5
  tool_timeout_seconds : Val := .float "30.0"
  retry_backoff_factor : ℚ := 1
  enable_cache : Bool := false

/-- The executor that `Agent.__init__` builds: parallel, with the retry limit of the agent. -/
def AgentConfig.toolExecutor (cfg : AgentConfig) : ToolExecutor where
  default_timeout := cfg.tool_timeout_seconds
  max_retries := cfg.tool_retry_limit
  backoff_factor := cfg.retry_backoff_factor
  parallel := true
  enable_cache := cfg.enable_cache

/-- `ChatRequest` of `core/agent.py`. -/
structure ChatRequest where
  session_id : Option String := none
  user_id : String
  message : String

/-- `ChatResponse` of `core/agent.py`. The agent leaves `tool_results` and `needs_clarification` at
their defaults. -/
structure ChatResponse where
  content : String
  session_id : String
  usage : Option (List (String × ℤ)) := none
  deriving DecidableEq

/-- One call of `llm.chat`: the messages and the tools that it is given. -/
structure LLMCall where
  messages : List LLMMessage
  tools : List Dict
  deriving DecidableEq

/-- What the outside does during one call of `Agent.chat`. -/
structure Behaviour where
  /-- What the awaited `llm.chat` comes back with, by the number of the round. -/
  llm : ℕ → Except Exn LLMResponse
  /-- The order of the segments in the batch of a round. -/
  schedule : ℕ → List ℕ
  /-- What a tool's `execute` comes back with: round, position of the request, attempt. -/
  tools : ℕ → ℕ → ℕ → Except Exn ToolResult
  /-- The clock, by the number of the segment. -/
  clock : ℕ → Time
  /-- The exception that is thrown into the chat while it awaits the batch of a round, once the
  tasks of the batch have made the segments of the schedule. -/
  interrupt : ℕ → Option Exn := fun _ => none

/-- The outside of a chat in which the LLM gives these replies and then fails, every attempt of a
tool comes back with `tool`, and the clock stands still. -/
def Behaviour.scripted (replies : List LLMResponse) (tool : Except Exn ToolResult) :
    Behaviour where
  llm d :=
    match replies[d]? with
    | some reply => .ok reply
    | none => .error ⟨.other, "Internal Server Error"⟩
  schedule _ := []
  tools _ _ _ := tool
  clock _ := 0

/-! ## Decoding tool calls -/

/-- The `try` block of `_build_tool_requests`: a missing field and text that is not JSON give the
empty object, and every other exception gets out. -/
def decodeArguments (P : Platform) (tc : ToolCall) : Except Exn Val :=
  match (do jsonLoads P (← (← Py.Dict.item tc "function").item "arguments")) with
  | .ok args => .ok args
  | .error e =>
    match e.cls with
    | .jsonDecodeError => .ok (.dict [])
    | .keyError => .ok (.dict [])
    -- A `TypeError` above all: arguments that are decoded already, or null.
    | _ => .error e

/-- The body of the loop of `_build_tool_requests`. -/
def buildToolRequest (P : Platform) (tc : ToolCall) : Except Exn ToolCallRequest := do
  let func_name ← (← Py.Dict.item tc "function").item "name"
  let func_args ← decodeArguments P tc
  return { tool_name := func_name, arguments := func_args }

/-- `Agent._build_tool_requests`. -/
def buildToolRequests (P : Platform) (cfg : AgentConfig) (tool_calls : List ToolCall) :
    Except Exn (List ToolCallRequest) :=
  (sliceTo tool_calls cfg.max_tool_calls_per_turn).mapM (buildToolRequest P)

/-! ## The segments of `chat` -/

/-- The USER message of a request. -/
def userMessage (request : ChatRequest) : Message :=
  { role := .user, content := some request.message }

/-- The top of the loop body: the context of the next call of the LLM and its tools. -/
def roundHead (P : Platform) (cfg : AgentConfig) (reg : ToolRegistry) (s : Session) :
    Session × Except Exn LLMCall :=
  let s := { s with state := { s.state with chain_depth := s.state.chain_depth + 1 } }
  let context :=
    ContextBuilder.build P ⟨cfg.system_prompt⟩ s cfg.context_window {} s.work_dir
  (s, context.map fun messages => { messages, tools := reg.toFunctionDefinitions })

/-- How the segment after a reply of the LLM ends. -/
inductive AfterReply where
  /-- `chat` returns. -/
  | returns (response : ChatResponse)
  /-- `chat` raises. -/
  | raises (e : Exn)
  /-- `chat` awaits `execute_batch(requests)`. -/
  | executes (calls : List ToolCall) (requests : List ToolCallRequest)

/-- The ASSISTANT message of a reply without tool calls. -/
def finalMessage (response : LLMResponse) : Message :=
  { role := .assistant, content := response.content }

/-- The ASSISTANT message of a reply with tool calls. -/
def callMessage (response : LLMResponse) : Message :=
  { role := .assistant, content := response.content, tool_calls := some response.tool_calls }

/-- The segment after a reply of the LLM: the messages that it records, and how it ends. The
ASSISTANT message is recorded before its tool calls are decoded. -/
def onReply (P : Platform) (cfg : AgentConfig) (session_id : String)
    (reply : Except Exn LLMResponse) : List Message × AfterReply :=
  match reply with
  | .error e => ([], .raises e)
  | .ok response =>
    if response.tool_calls = [] then
      ([finalMessage response],
        .returns { content := response.content.getD "", session_id, usage := response.usage })
    else
      match buildToolRequests P cfg response.tool_calls with
      | .error e => ([callMessage response], .raises e)
      | .ok requests => ([callMessage response], .executes response.tool_calls requests)

/-- The content of the TOOL message for a call that has no execution result. -/
def resultUnavailable : String := "工具执行结果不可用"

/-- The TOOL messages that a round records, one for each call. -/
def resultMessages (calls : List ToolCall) (results : List ExecutionResult) : List Message :=
  calls.mapIdx fun idx tc =>
    { role := .tool,
      content := some ((results[idx]?.map ExecutionResult.content).getD resultUnavailable),
      tool_call_id := tc.id }

/-- The text that `chat` returns at the depth limit. -/
def fallbackText (P : Platform) (tool_results_log : List ExecutionResult) : String :=
  let success_results := tool_results_log.filter (·.success)
  let failed_results := tool_results_log.filter (!·.success)
  let done := success_results.map fun r =>
    "- " ++ P.fmt r.tool_name ++ ": " ++ String.ofList (sliceTo r.content.toList 100)
  let errors := failed_results.map fun r =>
    "- " ++ P.fmt r.tool_name ++ ": " ++ if r.error = "" then "unknown" else r.error
  let parts :=
    (if success_results = [] then [] else ["已完成的操作：\n" ++ join "\n" done]) ++
    (if failed_results = [] then [] else ["失败的操作：\n" ++ join "\n" errors])
  "任务处理已达到最大步骤限制。" ++ (if parts = [] then "" else "\n\n" ++ join "\n\n" parts) ++
    "\n\n请继续对话让我完成剩余部分，或分步提交子任务。"

/-- The ASSISTANT message that `chat` records at the depth limit. -/
def fallbackMessage (P : Platform) (tool_results_log : List ExecutionResult) : Message :=
  { role := .assistant, content := some (fallbackText P tool_results_log) }

/-! ## The whole call -/

/-- What a call of `chat` leaves behind: the session, the cache of the executor, the calls of the
LLM in order, `tool_results_log`, and how it ended. -/
structure ChatRun where
  session : Session
  cache : Cache
  llm_calls : List LLMCall
  tool_results_log : List ExecutionResult
  result : Except Exn ChatResponse

section Chat

variable (P : Platform) (cfg : AgentConfig) (reg : ToolRegistry) (O : Behaviour)

/-- `await self.tool_executor.execute_batch(requests)` in round `d`: what it comes back with, and
the cache afterwards. An exception that is thrown in ends the tasks where they are. -/
def awaitBatch (d : ℕ) (requests : List ToolCallRequest) (cache : Cache) :
    Except Exn (List ExecutionResult) × Cache :=
  match O.interrupt d with
  | none => cfg.toolExecutor.executeBatch P reg requests (O.tools d) (O.schedule d) cache
  | some e => (.error e, ((Batch.start cache).run P cfg.toolExecutor reg requests (O.tools d)
      (O.schedule d)).cache)

/-- The loop of `chat` with `n` rounds left, the next of them round `d`, and the code after it. -/
def chatLoop : ℕ → ℕ → Session → Cache → List ExecutionResult → ChatRun
  | 0, d, s, cache, log =>
    { session := s.addMessages (O.clock (2 * d)) [fallbackMessage P log], cache,
      llm_calls := [], tool_results_log := log,
      result := .ok { content := fallbackText P log, session_id := s.session_id } }
  | n + 1, d, s, cache, log =>
    match roundHead P cfg reg s with
    | (s, .error e) =>
      { session := s, cache, llm_calls := [], tool_results_log := log, result := .error e }
    | (s, .ok call) =>
      let reply := onReply P cfg s.session_id (O.llm d)
      let s := s.addMessages (O.clock (2 * d + 1)) reply.1
      match reply.2 with
      | .returns response =>
        { session := s, cache, llm_calls := [call], tool_results_log := log,
          result := .ok response }
      | .raises e =>
        { session := s, cache, llm_calls := [call], tool_results_log := log, result := .error e }
      | .executes calls requests =>
        match awaitBatch P cfg reg O d requests cache with
        -- The calls are recorded already, and nothing answers them.
        | (.error e, cache) =>
          { session := s, cache, llm_calls := [call], tool_results_log := log,
            result := .error e }
        | (.ok results, cache) =>
          let s := s.addMessages (O.clock (2 * d + 2)) (resultMessages calls results)
          let rest := chatLoop n (d + 1) s cache (log ++ results)
          { rest with llm_calls := call :: rest.llm_calls }

/-- `Agent.chat` on the session that it found or made. -/
def chat (s : Session) (cache : Cache) (request : ChatRequest) : ChatRun :=
  chatLoop P cfg reg O cfg.max_chain_depth.toNat 0
    (s.addMessages (O.clock 0) [userMessage request]) cache []

end Chat

end YellowBull
