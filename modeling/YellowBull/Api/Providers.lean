import YellowBull.Agent.Providers
import YellowBull.AnthropicProvider.Requests
import YellowBull.Api.Histories

/-!
# Runs with the providers

What `Agent.chat` asks of the LLM after any run of operations. A session that one provider has
recorded, up to failures anywhere but in a batch, is open to both: its tool calls are answered
(`histories_answered`), a chat on it raises just what `llm.chat` raises (`chats_raise_with_llm`),
and each of its contexts becomes a request to Anthropic, unless a tool is registered
(`anthropic_requests_made_iff`). A request to OpenAI says all that the agent passes
(`openai_requests_lossless`).
-/

namespace YellowBull

open Py CallBlocks

section Tools

variable {P : Platform} {cfg : AgentConfig} {reg : ToolRegistry} {O : Behaviour}

/-- Every call of the LLM in the loop is given the tools of the registry. -/
theorem tools_of_mem_chatLoop (n d : ℕ) (s : Session) (cache : Cache) (log : List ExecutionResult) :
    ∀ call ∈ (chatLoop P cfg reg O n d s cache log).llm_calls,
      call.tools = reg.toFunctionDefinitions := by
  -- Each round asks the registry anew, which does not change.
  induction n generalizing d s cache log with
  | zero => simp [chatLoop]
  | succ n ih =>
    unfold chatLoop
    have htools : ∀ call, (roundHead P cfg reg s).2 = .ok call →
        call.tools = reg.toFunctionDefinitions := by
      intro call hcall
      obtain ⟨messages, -, rfl⟩ := Except.map_eq_ok.mp hcall
      rfl
    generalize roundHead P cfg reg s = head at htools
    obtain ⟨s₁, e | call⟩ := head
    · simp
    have hcall := htools call rfl
    simp only
    cases (onReply P cfg s₁.session_id (O.llm d)).2 with
    | returns response => simpa using hcall
    | raises e => simpa using hcall
    -- The rounds after an executed batch are the induction's; an interrupted one was the last.
    | executes calls requests =>
      simp only
      rcases awaitBatch_cases P cfg reg O d requests cache with ⟨-, hawait⟩ | ⟨e, -, hawait⟩
      · rw [hawait]
        exact List.forall_mem_cons.mpr ⟨hcall, ih _ _ _ _⟩
      · rw [hawait]
        exact List.forall_mem_singleton.mpr hcall

/-- A request to Anthropic is made of a context that is encoded, just if no tool is registered:
`_format_tools` raises on every definition of the registry. -/
theorem EncodesContext.chat_iff {call : LLMCall} (h : EncodesContext P call.messages)
    (htools : call.tools = reg.toFunctionDefinitions) (llm : AnthropicLLM) (stream : Bool) :
    (∃ request, llm.chat P call.messages call.tools stream = .ok request) ↔ reg.listAll = [] := by
  obtain ⟨systems, tools, rest, prompt, out, -, -, -, -, hencode, -⟩ := h
  unfold AnthropicLLM.chat
  rw [hencode, htools]
  unfold ToolRegistry.toFunctionDefinitions requestTools
  cases reg.listAll with
  | nil => exact iff_of_true ⟨_, rfl⟩ rfl
  -- The conversion of the first tool raises already, since its name is one level down.
  | cons t ts =>
    refine iff_of_false ?_ (by simp)
    rintro ⟨request, hrequest⟩
    obtain ⟨encoded, -, hrest⟩ := Except.bind_eq_ok.mp hrequest
    obtain ⟨formatted, hformatted, -⟩ := Except.bind_eq_ok.mp hrest
    rw [if_neg (by simp)] at hformatted
    obtain ⟨entries, hentries, -⟩ := Except.map_eq_ok.mp hformatted
    unfold formatTools at hentries
    obtain ⟨entry, hentry⟩ := Except.exists_mapM_eq_ok.mp ⟨_, hentries⟩
      (ToolRegistry.functionDefinition t) (List.mem_map_of_mem List.mem_cons_self)
    rw [formatTool_functionDefinition] at hentry
    cases hentry

end Tools

section Runs

variable (P : Platform) (cfg : AgentConfig) (reg : ToolRegistry) (ttl : ℤ)

/-- The replies of the LLM in an operation are those of a provider, and nothing interrupts a
batch. -/
def Operation.FromProvider : Operation → Prop
  | .chat _ _ _ O => O.FromProvider P
  | _ => True

/-- The condition on a session without messages. -/
theorem ofMessages_recorded : OfMessages (Session.Recorded P) where
  new s hs := ⟨by rw [hs]; exact .nil, by simp [hs], by simp [hs, CallsOfProvider]⟩
  work_dir _ _ h := ⟨h.blocks, h.role_ne_system, h.calls⟩

/-- A run leaves all stored sessions recorded. -/
theorem stored_recorded {ops : List Operation} (hops : ∀ op ∈ ops, op.FromProvider P) :
    (afterOperations P cfg reg ttl ops).Stored (Session.Recorded P) :=
  stored_run P cfg reg ttl (ofMessages_recorded P) ops fun _ _ _ _ hmem _ _ hs =>
    hs.kept (hops _ hmem)

/-- What a chat of a run gives its caller. -/
theorem output_after (ops : List Operation) (op : ChatOp) :
    (chatStep P cfg reg ttl (afterOperations P cfg reg ttl ops) op).2 =
      ⟨((afterOperations P cfg reg ttl ops).runOf P cfg reg op).result,
        ((afterOperations P cfg reg ttl ops).runOf P cfg reg op).llm_calls⟩ := by
  have hkeyed : (afterOperations P cfg reg ttl ops).world.Keyed :=
    (stored_run P cfg reg ttl (p := fun _ => True) ⟨fun _ _ => trivial, fun _ _ _ => trivial⟩ ops
      fun _ _ _ _ _ _ _ _ => trivial).1
  obtain ⟨w, hstep, -, -⟩ := @chatStep_spec P cfg reg ttl _ hkeyed op
  rw [hstep]

/-- An answer with a tool call. -/
def readCompletion : OpenAICompletion where
  choices := [{ tool_calls := some [{ id := "c1", function := some ⟨"read", "\x7b\x7d"⟩ }] }]

/-- The outside of a chat whose second call of the LLM fails. -/
def failingProvider : Behaviour := .scripted [readCompletion.parse] (.ok {})

/-- Its first reply is that of a provider, and nothing interrupts the batch. -/
theorem failingProvider_fromProvider : failingProvider.FromProvider .bare := by
  refine ⟨fun d reply hreply => ?_, fun _ => rfl⟩
  cases d with
  | zero =>
    obtain rfl := Except.ok.inj hreply
    refine ⟨.inl ⟨_, rfl⟩, fun id type name text hmem e he => ?_⟩
    -- The arguments of its only call are those of the empty object.
    have htext : text = "\x7b\x7d" := by
      simp [readCompletion, OpenAICompletion.parse, OpenAIToolCall.toolCall, ToolCall.ofParts]
        at hmem
      exact hmem.2.2.2
    rw [htext] at he
    cases he
  | succ d => cases hreply

/-- A chat that fails in its second call of the LLM. -/
def failingChats : List Operation :=
  [.chat { user_id := "u", message := "hi" } "s1" 0 failingProvider]

/-- The next chat on its session. -/
def nextChat : ChatOp where
  request := { session_id := some "s1", user_id := "u", message := "again" }
  session_id := "s2"
  now := 1
  outside := failingProvider

/-- It calls the LLM. -/
theorem nextChat_llm_calls :
    (chatStep .bare { system_prompt := "p" } .empty 7200
      (afterOperations .bare { system_prompt := "p" } .empty 7200 failingChats)
        nextChat).2.llm_calls ≠ [] := by
  decide

/-- So are the replies in the run. -/
theorem failingChats_fromProvider : ∀ op ∈ failingChats, op.FromProvider .bare := by
  intro op hop
  obtain rfl := List.mem_singleton.mp hop
  exact failingProvider_fromProvider

/-- After any run with the providers, no TOOL message of a stored session is an orphan, and each
tool call has its answer, also where chats have raised. -/
theorem histories_answered {ops : List Operation} (hops : ∀ op ∈ ops, op.FromProvider P)
    {id : String} {s : Session}
    (hs : memoryContents.view (afterOperations P cfg reg ttl ops).world id = some s) :
    NoOrphan Message.callIds Message.answerId s.messages ∧
      EveryCallAnswered Message.callIds Message.answerId s.messages := by
  have hblocks := ((stored_recorded P cfg reg ttl hops).2 id s hs).blocks
  exact ⟨hblocks.noOrphan, hblocks.everyCallAnswered Message.callIds_of_answer⟩

/-- The session of a chat that failed behind a round. -/
theorem histories_answered_failing_chat :
    ∃ s, memoryContents.view
        (afterOperations .bare { system_prompt := "p" } .empty 7200 failingChats).world "s1" =
          some s ∧
      NoOrphan Message.callIds Message.answerId s.messages ∧
      EveryCallAnswered Message.callIds Message.answerId s.messages := by
  have hstored : (memoryContents.view
      (afterOperations .bare { system_prompt := "p" } .empty 7200 failingChats).world
        "s1").isSome := by
    decide
  obtain ⟨s, hs⟩ := Option.isSome_iff_exists.mp hstored
  exact ⟨s, hs, histories_answered .bare { system_prompt := "p" } .empty 7200
    failingChats_fromProvider hs⟩

/-- After any run with the providers, a chat with one of them raises just what its last call of
`llm.chat` raises: building the context and decoding the tool calls do not raise. -/
theorem chats_raise_with_llm {ops : List Operation} (hops : ∀ op ∈ ops, op.FromProvider P)
    {op : ChatOp} (hop : op.outside.FromProvider P) {e : Exn}
    (hraise : (chatStep P cfg reg ttl (afterOperations P cfg reg ttl ops) op).2.result =
      .error e) :
    ∃ k, (chatStep P cfg reg ttl (afterOperations P cfg reg ttl ops) op).2.llm_calls.length =
      k + 1 ∧ op.outside.llm k = .error e := by
  have hsession := (stored_recorded P cfg reg ttl hops).sessionOf (ofMessages_recorded P) op
  rw [output_after] at hraise ⊢
  exact hsession.chat_raises hop hraise

/-- The next chat on that session. -/
theorem chats_raise_with_llm_next_chat :
    ∃ k, (chatStep .bare { system_prompt := "p" } .empty 7200
        (afterOperations .bare { system_prompt := "p" } .empty 7200 failingChats)
          nextChat).2.llm_calls.length = k + 1 ∧
      nextChat.outside.llm k = .error ⟨.other, "Internal Server Error"⟩ :=
  chats_raise_with_llm .bare { system_prompt := "p" } .empty 7200 failingChats_fromProvider
    failingProvider_fromProvider (by decide)

/-- After any run with the providers, the messages of each call of the LLM in a chat with one of
them are encoded for Anthropic, with all that they say, and the request is made just if no tool is
registered. -/
theorem anthropic_requests_made_iff {ops : List Operation} (hops : ∀ op ∈ ops, op.FromProvider P)
    {op : ChatOp} (hop : op.outside.FromProvider P) (llm : AnthropicLLM) (stream : Bool) :
    ∀ call ∈ (chatStep P cfg reg ttl (afterOperations P cfg reg ttl ops) op).2.llm_calls,
      EncodesContext P call.messages ∧
        ((∃ request, llm.chat P call.messages call.tools stream = .ok request) ↔
          reg.listAll = []) := by
  have hsession := (stored_recorded P cfg reg ttl hops).sessionOf (ofMessages_recorded P) op
  rw [output_after]
  intro call hcall
  have hencodes := hsession.contexts hop call hcall
  exact ⟨hencodes, hencodes.chat_iff (tools_of_mem_chatLoop _ _ _ _ _ call hcall) llm stream⟩

/-- A call of the LLM in it. -/
theorem anthropic_requests_made_iff_next_chat :
    ∃ call ∈ (chatStep .bare { system_prompt := "p" } .empty 7200
        (afterOperations .bare { system_prompt := "p" } .empty 7200 failingChats)
          nextChat).2.llm_calls,
      EncodesContext .bare call.messages ∧
        ((∃ request, AnthropicLLM.chat .bare ⟨"claude", .float "0.7", 4096⟩ call.messages
          call.tools false = .ok request) ↔ ToolRegistry.empty.listAll = []) := by
  obtain ⟨call, hcall⟩ := List.exists_mem_of_ne_nil _ nextChat_llm_calls
  exact ⟨call, hcall, anthropic_requests_made_iff .bare { system_prompt := "p" } .empty 7200
    failingChats_fromProvider failingProvider_fromProvider ⟨"claude", .float "0.7", 4096⟩ false
    call hcall⟩

/-- After any run, with any LLM, a request to OpenAI for a call of the LLM in a chat reads back as
the messages and the tools of the call. -/
theorem openai_requests_lossless (ops : List Operation) (op : ChatOp) (llm : OpenAILLM)
    (stream : Bool) :
    ∀ call ∈ (chatStep P cfg reg ttl (afterOperations P cfg reg ttl ops) op).2.llm_calls,
      readBack (llm.chat call.messages call.tools stream) =
        some (call.messages, call.tools) := by
  have hsendable : OfMessages fun s => ∀ msg ∈ s.messages, msg.Sendable :=
    ⟨fun s hs => by simp [hs], fun s dir h => h⟩
  have hsession := (stored_run P cfg reg ttl hsendable ops
    fun _ _ _ _ _ _ _ hs => sendable_chat hs).sessionOf hsendable op
  rw [output_after]
  intro call hcall
  rw [readBack_chat, map_sent_of_mem_llm_calls hsession call hcall]

/-- A call of the LLM in the chat on the session of a chat that failed. -/
theorem openai_requests_lossless_next_chat :
    ∃ call ∈ (chatStep .bare { system_prompt := "p" } .empty 7200
        (afterOperations .bare { system_prompt := "p" } .empty 7200 failingChats)
          nextChat).2.llm_calls,
      readBack (OpenAILLM.chat ⟨"gpt", .float "0.7", 4096⟩ call.messages call.tools false) =
        some (call.messages, call.tools) := by
  obtain ⟨call, hcall⟩ := List.exists_mem_of_ne_nil _ nextChat_llm_calls
  exact ⟨call, hcall, openai_requests_lossless .bare { system_prompt := "p" } .empty 7200
    failingChats nextChat ⟨"gpt", .float "0.7", 4096⟩ false call hcall⟩

end Runs

end YellowBull
