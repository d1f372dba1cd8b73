import YellowBull.Agent.Context
import YellowBull.AnthropicProvider.Encoding
import YellowBull.ContextBuilder.Budget
import YellowBull.OpenAIProvider.Requests

/-!
# Chats with the providers

The replies that `_parse_response` makes have tool calls of one form (`ProviderCall`); of their
arguments it is assumed that `json.loads` raises nothing but a `JSONDecodeError` on them
(`LoadsOrRejects`). A chat whose replies are such, and that is not interrupted in a batch, keeps the
messages of its session in blocks, whatever comes of it, and their tool calls in that form
(`Session.Recorded`). On such a session the context can always be built and the tool calls of a
reply can always be decoded, so that a chat raises just what `llm.chat` raises
(`Session.Recorded.chat_raises`), and the loop of `AnthropicLLM.chat` takes every context
(`Session.Recorded.contexts`). What is sent to OpenAI is the context as it is, whatever the LLM
replied (`map_sent_of_mem_llm_calls`).
-/

namespace YellowBull

open Py CallBlocks

/-! ## Replies of the providers -/

section Replies

variable (P : Platform)

/-- `json.loads` gives a value for a text or raises a `JSONDecodeError`. It may raise others: a
`RecursionError` for a text that is nested too deeply, a `ValueError` for an integer of too many
digits. -/
def LoadsOrRejects (text : String) : Prop :=
  ∀ e, P.loads text = .error e → e.cls = .jsonDecodeError

/-- A tool call as the providers build it. -/
def ProviderCall (tc : ToolCall) : Prop :=
  ∃ id type name arguments, tc = ToolCall.ofParts id type name arguments ∧
    LoadsOrRejects P arguments

/-- A reply that a provider makes of an answer. -/
structure FromProvider (reply : LLMResponse) : Prop where
  parsed : (∃ response : OpenAICompletion, reply = response.parse) ∨
    ∃ response : AnthropicResponse, reply = response.parse
  arguments : ∀ id type name text, ToolCall.ofParts id type name text ∈ reply.tool_calls →
    LoadsOrRejects P text

/-- The replies of the LLM are those of a provider, and no exception is thrown into the chat while
it awaits a batch. -/
structure Behaviour.FromProvider (O : Behaviour) : Prop where
  replies : ∀ d reply, O.llm d = .ok reply → YellowBull.FromProvider P reply
  awaited : ∀ d, O.interrupt d = none

variable {P}

/-- The tool calls of a reply of a provider. -/
theorem FromProvider.calls {reply : LLMResponse} (h : FromProvider P reply) :
    ∀ tc ∈ reply.tool_calls, ProviderCall P tc := by
  intro tc htc
  -- Both kinds of answer are parsed to the same parts.
  have hparts : ∃ id type name text, tc = ToolCall.ofParts id type name text := by
    rcases h.parsed with ⟨response, rfl⟩ | ⟨response, rfl⟩
    · unfold OpenAICompletion.parse at htc
      cases hhead : response.choices.head? with
      | none => simp [hhead] at htc
      | some message =>
        simp only [hhead] at htc
        obtain ⟨call, -, rfl⟩ := List.mem_map.mp htc
        exact ⟨_, _, _, _, rfl⟩
    · obtain ⟨block, -, hblock⟩ := List.mem_filterMap.mp htc
      cases block with
      | text part => cases hblock
      | other => cases hblock
      | toolUse id name input => exact ⟨_, _, _, _, (Option.some.inj hblock).symm⟩
  obtain ⟨id, type, name, text, rfl⟩ := hparts
  exact ⟨id, type, name, text, rfl, h.arguments id type name text htc⟩

/-- `_build_tool_requests` can decode the tool calls of a provider. -/
theorem ProviderCall.decodable {tc : ToolCall} (h : ProviderCall P tc) : Decodable P tc := by
  obtain ⟨id, type, name, arguments, rfl, hloads⟩ := h
  exact ⟨_, .str name, rfl, rfl, .inr ⟨arguments, rfl, fun e he => .inl (hloads e he)⟩⟩

/-- `_message_tokens` can count them. -/
theorem ProviderCall.exists_toolCallTokens {tc : ToolCall} (h : ProviderCall P tc) :
    ∃ n, toolCallTokens tc = .ok n := by
  obtain ⟨id, type, name, arguments, rfl, -⟩ := h
  exact ⟨_, rfl⟩

/-- They name functions. -/
theorem ProviderCall.callsFunction {tc : ToolCall} (h : ProviderCall P tc) :
    ∃ name text, CallsFunction tc name text ∧ LoadsOrRejects P text := by
  obtain ⟨id, type, name, arguments, rfl, hloads⟩ := h
  exact ⟨.str name, arguments, ⟨_, rfl, rfl, rfl⟩, hloads⟩

end Replies

/-! ## Counting tokens -/

section Counting

variable {P : Platform}

/-- A sum of tokens that can all be counted. -/
theorem exists_sumTokens {α : Type} {f : α → Except Exn ℕ} {xs : List α}
    (h : ∀ x ∈ xs, ∃ n, f x = .ok n) : ∃ n, sumTokens f xs = .ok n := by
  induction xs with
  | nil => exact ⟨0, rfl⟩
  | cons x xs ih =>
    obtain ⟨a, ha⟩ := h x List.mem_cons_self
    obtain ⟨b, hb⟩ := ih fun y hy => h y (List.mem_cons_of_mem _ hy)
    exact ⟨a + b, sumTokens_cons_eq_ok.mpr ⟨a, b, ha, hb, rfl⟩⟩

/-- A message whose tool calls are those of a provider can be counted. -/
theorem exists_messageTokens {msg : LLMMessage}
    (h : ∀ tc ∈ msg.tool_calls.getD [], ProviderCall P tc) : ∃ n, messageTokens P msg = .ok n := by
  obtain ⟨calls, hcalls⟩ := exists_sumTokens fun tc htc => (h tc htc).exists_toolCallTokens
  unfold messageTokens
  rw [hcalls]
  exact ⟨_, rfl⟩

/-- A message of the window is the conversion of a message of the session. -/
theorem exists_of_mem_windowMessages {s : Session} {window_size : ℤ} {m : LLMMessage}
    (h : m ∈ windowMessages s window_size) : ∃ msg ∈ s.messages, msg.toLLM = some m := by
  rw [windowMessages_eq] at h
  obtain ⟨msg, hmsg, htoLLM⟩ := List.mem_filterMap.mp h
  exact ⟨msg, List.mem_of_mem_filter ((sliceFrom_suffix _ _).subset hmsg), htoLLM⟩

/-- The conversion keeps the tool calls of an ASSISTANT message and drops others. -/
theorem Message.calls_of_toLLM {msg : Message} {m : LLMMessage} (h : msg.toLLM = some m) :
    ∀ tc ∈ m.tool_calls.getD [], tc ∈ msg.tool_calls.getD [] := by
  intro tc htc
  obtain ⟨role, content, tool_calls, tool_call_id⟩ := msg
  cases role with
  | assistant =>
    obtain rfl := Option.some.inj h
    exact htc
  | system => cases h
  | user =>
    obtain rfl := Option.some.inj h
    cases htc
  | tool =>
    obtain rfl := Option.some.inj h
    cases htc

/-- `build` returns where the messages of the window can be counted. -/
theorem exists_build {b : ContextBuilder} {s : Session} {window_size : ℤ}
    {compression : CompressionConfig} {work_dir : Option String}
    (h : ∀ msg ∈ windowMessages s window_size, ∃ n, messageTokens P msg = .ok n) :
    ∃ msgs, ContextBuilder.build P b s window_size compression work_dir = .ok msgs := by
  obtain ⟨total, htotal⟩ := exists_sumTokens h
  -- The kept turns are messages of the window.
  have hkept : ∀ msg ∈ keptMessages (windowMessages s window_size) compression.min_turns_to_keep,
      ∃ n, messageTokens P msg = .ok n := by
    intro msg hmsg
    obtain ⟨turn, hturn, hmem⟩ := List.mem_flatten.mp hmsg
    have hflat := groupTurns_flatten (windowMessages s window_size) [] []
    rw [List.flatten_nil, List.nil_append, List.nil_append] at hflat
    refine h msg (hflat ▸ List.mem_flatten.mpr ⟨turn, (sliceFrom_suffix _ _).subset hturn, hmem⟩)
  obtain ⟨new_tokens, hnew⟩ := exists_sumTokens hkept
  unfold keptMessages at hnew
  unfold ContextBuilder.build
  simp only [htotal, hnew]
  split_ifs <;> exact ⟨_, rfl⟩

end Counting

/-! ## What chats keep -/

/-- The tool calls of the messages are those of a provider. -/
def CallsOfProvider (P : Platform) (msgs : List Message) : Prop :=
  ∀ msg ∈ msgs, ∀ tc ∈ msg.tool_calls.getD [], ProviderCall P tc

/-- What chats with the providers leave of a session. -/
structure Session.Recorded (P : Platform) (s : Session) : Prop where
  blocks : Blocks Message.callIds Message.answerId s.messages
  role_ne_system : ∀ msg ∈ s.messages, msg.role ≠ .system
  calls : CallsOfProvider P s.messages

section Chat

variable {P : Platform} {cfg : AgentConfig} {reg : ToolRegistry} {O : Behaviour} {s : Session}
variable {cache : Cache} {request : ChatRequest}

/-- Messages in a row keep the form of their calls. -/
theorem CallsOfProvider.append {msgs msgs' : List Message} (h : CallsOfProvider P msgs)
    (h' : CallsOfProvider P msgs') : CallsOfProvider P (msgs ++ msgs') :=
  List.forall_mem_append.mpr ⟨h, h'⟩

/-- A message without tool calls. -/
theorem CallsOfProvider.singleton {msg : Message} (h : msg.tool_calls = none) :
    CallsOfProvider P [msg] := by
  intro m hm tc htc
  obtain rfl := List.mem_singleton.mp hm
  rw [h] at htc
  cases htc

/-- What a round records. -/
theorem CallsOfProvider.round {reply : LLMResponse} (h : FromProvider P reply)
    (results : List ExecutionResult) :
    CallsOfProvider P (callMessage reply :: resultMessages reply.tool_calls results) := by
  intro msg hmsg tc htc
  rcases List.mem_cons.mp hmsg with rfl | hmsg
  · exact h.calls tc htc
  · -- The TOOL messages make no calls.
    obtain ⟨i, hi, rfl⟩ := List.mem_mapIdx.mp hmsg
    cases htc

/-- The tool calls of a reply can be decoded. -/
theorem exists_buildToolRequests {reply : LLMResponse} (h : FromProvider P reply) :
    ∃ requests, buildToolRequests P cfg reply.tool_calls = .ok requests :=
  buildToolRequests_ok_iff.mpr fun tc htc =>
    (h.calls tc (List.take_subset _ _ htc)).decodable

/-- Of a session with such tool calls a context can be built. -/
theorem CallsOfProvider.exists_build (h : CallsOfProvider P s.messages) (b : ContextBuilder)
    (window_size : ℤ) (compression : CompressionConfig) (work_dir : Option String) :
    ∃ msgs, ContextBuilder.build P b s window_size compression work_dir = .ok msgs := by
  refine YellowBull.exists_build fun m hm => exists_messageTokens fun tc htc => ?_
  obtain ⟨msg, hmsg, htoLLM⟩ := exists_of_mem_windowMessages hm
  exact h msg hmsg tc (Message.calls_of_toLLM htoLLM tc htc)

/-- The loop raises just what `llm.chat` raises. -/
theorem chatLoop_raises (hO : O.FromProvider P) (n d : ℕ)
    (hs : CallsOfProvider P s.messages) (log : List ExecutionResult) {e : Exn}
    (h : (chatLoop P cfg reg O n d s cache log).result = .error e) :
    ∃ k, (chatLoop P cfg reg O n d s cache log).llm_calls.length = k + 1 ∧
      O.llm (d + k) = .error e := by
  -- By induction on the rounds left, with the calls recorded as the invariant.
  induction n generalizing d s cache log with
  | zero => cases h
  | succ n ih =>
    unfold chatLoop at h ⊢
    have hmsgs := roundHead_messages P cfg reg s
    obtain ⟨context, hcontext⟩ : ∃ call, (roundHead P cfg reg s).2 = .ok call := by
      have hcalls : CallsOfProvider P (roundHead P cfg reg s).1.messages := by rwa [hmsgs]
      obtain ⟨msgs, hbuild⟩ := hcalls.exists_build ⟨cfg.system_prompt⟩ cfg.context_window {}
        s.work_dir
      exact ⟨_, congrArg (Except.map _) hbuild⟩
    generalize roundHead P cfg reg s = head at hmsgs hcontext h ⊢
    obtain ⟨s₁, result⟩ := head
    obtain rfl := hcontext
    simp only at hmsgs h ⊢
    rcases onReply_cases P cfg s₁.session_id (O.llm d) with ⟨e', hr, hon⟩ |
      ⟨response, hr, hc, hon⟩ | ⟨response, e', hr, hc, hb, hon⟩ |
      ⟨response, requests, hr, hc, hb, hon⟩
    · -- `llm.chat` raises.
      simp only [hon] at h ⊢
      obtain rfl := Except.error.inj h
      exact ⟨0, rfl, hr⟩
    · -- The LLM ends the chat.
      simp only [hon] at h
      cases h
    · -- Decoding does not raise.
      obtain ⟨requests, hok⟩ := @exists_buildToolRequests P cfg response (hO.replies d response hr)
      cases hb.symm.trans hok
    · -- The loop goes on behind the round.
      rcases awaitBatch_cases P cfg reg O d requests cache with
        ⟨-, hbatch⟩ | ⟨e', hinterrupt, -⟩
      swap
      · rw [hO.awaited d] at hinterrupt
        cases hinterrupt
      simp only [hon, hbatch] at h ⊢
      have hround := CallsOfProvider.round (hO.replies d response hr)
        (cfg.toolExecutor.executeParallel P reg requests (O.tools d) (O.schedule d) cache).1
      obtain ⟨k, hk, hllm⟩ := ih (d + 1) (by simpa [hmsgs] using hs.append hround) _ h
      exact ⟨k + 1, by rw [List.length_cons, hk], by rwa [Nat.add_right_comm] at hllm⟩

/-- A chat on a recorded session raises just what its last call of `llm.chat` raises. -/
theorem Session.Recorded.chat_raises (hs : s.Recorded P) (hO : O.FromProvider P) {e : Exn}
    (h : (chat P cfg reg O s cache request).result = .error e) :
    ∃ k, (chat P cfg reg O s cache request).llm_calls.length = k + 1 ∧ O.llm k = .error e := by
  have hcalls : CallsOfProvider P (s.addMessages (O.clock 0) [userMessage request]).messages := by
    rw [Session.addMessages_messages]
    exact hs.calls.append (.singleton rfl)
  obtain ⟨k, hk, hllm⟩ := chatLoop_raises hO _ 0 hcalls [] h
  exact ⟨k, hk, by rwa [Nat.zero_add] at hllm⟩

/-- The rounds of a chat record tool calls of the provider. -/
theorem Transcript.callsOfProvider (hO : O.FromProvider P) {n d : ℕ} {run : ChatRun}
    {rounds : List (List Message)} {tail : List Message}
    (ht : Transcript P cfg reg O n d s cache run rounds tail) :
    CallsOfProvider P rounds.flatten := by
  intro msg hmsg
  obtain ⟨round, hround, hmsg⟩ := List.mem_flatten.mp hmsg
  obtain ⟨j, hj, rfl⟩ := List.getElem_of_mem hround
  obtain ⟨response, hreply, -, ⟨requests, hbuild⟩, -⟩ := ht.complete j hj
  rw [ht.executed j hj response hreply] at hmsg
  unfold toolMessages at hmsg
  rw [hbuild] at hmsg
  exact CallsOfProvider.round (hO.replies _ response hreply) _ msg hmsg

/-- A recorded session with a request and blocks behind it. -/
theorem Session.Recorded.extend (hs : s.Recorded P) {s' : Session} {msgs : List Message}
    (hmessages : s'.messages = s.messages ++ ([userMessage request] ++ msgs))
    (hblocks : Blocks Message.callIds Message.answerId msgs)
    (hroles : ∀ msg ∈ msgs, msg.role = .assistant ∨ msg.role = .tool)
    (hcalls : CallsOfProvider P msgs) : s'.Recorded P := by
  constructor
  · rw [hmessages]
    exact hs.blocks.append ((Blocks.singleton rfl rfl).append hblocks)
  · intro msg hmsg
    rw [hmessages] at hmsg
    simp only [List.mem_append, List.mem_singleton] at hmsg
    rcases hmsg with hmsg | rfl | hmsg
    · exact hs.role_ne_system msg hmsg
    · simp [userMessage]
    · rcases hroles msg hmsg with hrole | hrole <;> simp [hrole]
  · rw [hmessages]
    exact hs.calls.append (CallsOfProvider.append (.singleton rfl) hcalls)

/-- A chat leaves a recorded session recorded, whatever comes of it. -/
theorem Session.Recorded.kept (hs : s.Recorded P) (hO : O.FromProvider P) :
    (chat P cfg reg O s cache request).session.Recorded P := by
  obtain ⟨rounds, tail, ht⟩ := chat_transcript P cfg reg O s cache request
  have hmessages := ht.messages
  rw [Session.addMessages_messages, List.append_assoc] at hmessages
  -- At the end stands at most an ASSISTANT message without tool calls.
  have htail : Blocks Message.callIds Message.answerId tail ∧
      ∀ msg ∈ tail, msg.role = .assistant ∧ msg.tool_calls = none := by
    rcases ht.ending with ⟨reply, -, -, -, -, -⟩ | ⟨-, -, -⟩ | ⟨e, -, -, -⟩ | ⟨e, -, -, -, -⟩ |
      ⟨reply, e, -, hreply, -, hopen, -, -⟩
    · exact ⟨.singleton rfl rfl, by simp [finalMessage]⟩
    · exact ⟨.singleton rfl rfl, by simp [fallbackMessage]⟩
    · exact ⟨.nil, by simp⟩
    · exact ⟨.nil, by simp⟩
    · -- Decoding does not raise, and the batch is awaited to its end.
      rcases hopen with hbuild | ⟨-, hinterrupt⟩
      · obtain ⟨requests, hok⟩ := @exists_buildToolRequests P cfg reply (hO.replies _ reply hreply)
        cases hbuild.symm.trans hok
      · rw [hO.awaited] at hinterrupt
        cases hinterrupt
  refine hs.extend hmessages (ht.rounds_blocks.append htail.1) (fun msg hmsg => ?_) ?_
  · rcases List.mem_append.mp hmsg with hmsg | hmsg
    · exact ht.rounds_role hmsg
    · exact .inl (htail.2 msg hmsg).1
  · refine (ht.callsOfProvider hO).append fun msg hmsg tc htc => ?_
    rw [(htail.2 msg hmsg).2] at htc
    cases htc

end Chat

/-! ## The messages for Anthropic -/

/-- TOOL messages may follow an ASSISTANT message, in front of messages that may follow anything. -/
theorem AnswersFollow.tools {tools msgs : List LLMMessage} (htools : ∀ m ∈ tools, m.role = .tool)
    (h : ∀ previous, AnswersFollow previous msgs) {previous : Option Role}
    (hprevious : tools = [] ∨ previous = some .assistant ∨ previous = some .tool) :
    AnswersFollow previous (tools ++ msgs) := by
  induction tools generalizing previous with
  | nil => exact h previous
  | cons tool tools ih =>
    have hrole := htools tool List.mem_cons_self
    refine ⟨fun _ => hprevious.resolve_left (List.cons_ne_nil _ _), ?_⟩
    exact ih (fun m hm => htools m (List.mem_cons_of_mem _ hm)) (.inr (.inr (congrArg some hrole)))

/-- In blocks, answers follow what they answer. -/
theorem answersFollow_of_blocks {msgs : List LLMMessage}
    (h : Blocks LLMMessage.callIds LLMMessage.answerId msgs) (previous : Option Role) :
    AnswersFollow previous msgs := by
  induction h generalizing previous with
  | nil => trivial
  | @cons m tools msgs hm htools _ ih =>
    have hrole : m.role ≠ .tool := LLMMessage.answerId_eq_none.mp hm
    have hroles : ∀ tool ∈ tools, tool.role = .tool := by
      intro tool htool
      have hsome := isSome_of_map_eq htools tool htool
      by_contra hne
      rw [LLMMessage.answerId_eq_none.mpr hne] at hsome
      cases hsome
    refine ⟨fun htool => absurd htool hrole, AnswersFollow.tools hroles ih ?_⟩
    -- A message with answers makes calls, so that it is an ASSISTANT message.
    by_cases hassistant : m.role = .assistant
    · exact .inr (.inl (congrArg some hassistant))
    · have hnone : m.callIds = [] := if_neg hassistant
      rw [hnone] at htools
      exact .inl (List.map_eq_nil_iff.mp htools)

/-- What the loop of `AnthropicLLM.chat` makes of a context: behind the SYSTEM messages, the answers
whose calls fell out of the window are one message of the user, and all others are `Encoded`. -/
def EncodesContext (P : Platform) (context : List LLMMessage) : Prop :=
  ∃ (systems tools rest : List LLMMessage) (prompt : Option String) (out : List AnthropicMessage),
    context = systems ++ (tools ++ rest) ∧ (∀ msg ∈ systems, msg.role = .system) ∧
    (∀ msg ∈ tools, msg.role = .tool) ∧ (∀ msg ∈ rest, msg.role ≠ .system) ∧
    encodeMessages P (none, []) context = .ok (prompt, toolResults tools ++ out) ∧
    Encoded P rest out

section Contexts

variable {P : Platform} {s : Session}

/-- TOOL messages in front of all others make a message of the user. -/
theorem encodeMessages_stray {tools : List LLMMessage} (htools : ∀ tool ∈ tools, tool.role = .tool)
    (prompt : Option String) (rest : List LLMMessage) :
    encodeMessages P (prompt, []) (tools ++ rest) =
      encodeMessages P (prompt, toolResults tools) rest := by
  cases tools with
  | nil => rfl
  | cons tool tools =>
    have htool : encodeMessage P (prompt, []) tool =
        .ok (prompt, [] ++ [⟨"user", .blocks [toolResult tool]⟩]) := by
      unfold encodeMessage
      rw [htools tool List.mem_cons_self]
      rfl
    rw [List.cons_append, encodeMessages, htool]
    change encodeMessages P _ (tools ++ rest) = _
    rw [encodeMessages_extend fun tool htool => htools tool (List.mem_cons_of_mem _ htool)]
    rfl

/-- The part of a recorded session that a context takes is encoded, wherever it starts. -/
theorem Session.Recorded.encodes_suffix (hs : s.Recorded P) {msgs : List LLMMessage}
    (hsuffix : msgs <:+ s.messages.filterMap Message.toLLM) {systems : List LLMMessage}
    (hsystems : ∀ msg ∈ systems, msg.role = .system) : EncodesContext P (systems ++ msgs) := by
  have hall : Blocks LLMMessage.callIds LLMMessage.answerId
      (s.messages.filterMap Message.toLLM) :=
    hs.blocks.filterMap fun msg hmsg => Message.toLLM_spec (hs.role_ne_system msg hmsg)
  -- Every message is the conversion of one of the session.
  have hof : ∀ m ∈ msgs, ∃ msg ∈ s.messages, msg.toLLM = some m := fun m hm =>
    List.mem_filterMap.mp (hsuffix.subset hm)
  obtain ⟨tools, rest, rfl, htools, hrest⟩ := hall.suffix hsuffix
  have hroles : ∀ tool ∈ tools, tool.role = .tool := by
    intro tool htool
    have hsome := htools tool htool
    by_contra hne
    rw [LLMMessage.answerId_eq_none.mpr hne] at hsome
    cases hsome
  have hsystem : ∀ m ∈ rest, m.role ≠ .system := by
    intro m hm
    obtain ⟨msg, hmsg, htoLLM⟩ := hof m (List.mem_append_right _ hm)
    obtain ⟨role, content, tool_calls, tool_call_id⟩ := msg
    cases role with
    | system => cases htoLLM
    | user => simp [← Option.some.inj htoLLM]
    | assistant => simp [← Option.some.inj htoLLM]
    | tool => simp [← Option.some.inj htoLLM]
  have hhead : ∀ next ∈ rest.head?, next.role ≠ .tool := by
    intro next hnext
    cases hrest with
    | nil => cases hnext
    | cons ha _ _ =>
      obtain rfl := Option.some.inj hnext
      exact LLMMessage.answerId_eq_none.mp ha
  have hcalls : ∀ m ∈ rest, m.role = .assistant → CallsDecode P m := by
    intro m hm _ tc htc
    obtain ⟨msg, hmsg, htoLLM⟩ := hof m (List.mem_append_right _ hm)
    exact (hs.calls msg hmsg tc (Message.calls_of_toLLM htoLLM tc htc)).callsFunction
  obtain ⟨prompt, hprompt⟩ := @encodeMessages_systems P systems hsystems none [] (tools ++ rest)
  obtain ⟨out, hout, hencoded⟩ := encodeMessages_encoded hsystem hhead
    (answersFollow_of_blocks hrest none) hcalls prompt (toolResults tools)
  refine ⟨systems, tools, rest, prompt, out, rfl, hsystems, hroles, hsystem, ?_, hencoded⟩
  rw [hprompt, encodeMessages_stray hroles, hout]

/-- Every context that is built of a recorded session is encoded. -/
theorem Session.Recorded.encodes (hs : s.Recorded P) {b : ContextBuilder} {window_size : ℤ}
    {work_dir : Option String} {context : List LLMMessage}
    (h : ContextBuilder.build P b s window_size {} work_dir = .ok context) :
    EncodesContext P context := by
  have hwindow := windowMessages_suffix hs.role_ne_system window_size
  have hprompts (prompts : List String) :
      ∀ msg ∈ prompts.map systemMessage, msg.role = .system := by
    intro msg hmsg
    obtain ⟨prompt, -, rfl⟩ := List.mem_map.mp hmsg
    rfl
  rcases (build_eq_ok h).kept (by decide) with ⟨-, rfl⟩ | ⟨-, prompts, kept, rfl, -, hkept⟩
  · exact hs.encodes_suffix hwindow (hprompts [_])
  · exact hs.encodes_suffix (hkept.trans hwindow) (hprompts prompts)

/-- The sessions that a chat builds its contexts of are recorded. -/
theorem Session.Recorded.contexts {cfg : AgentConfig} {reg : ToolRegistry} {O : Behaviour}
    {cache : Cache} {request : ChatRequest} (hs : s.Recorded P) (hO : O.FromProvider P) :
    ∀ call ∈ (chat P cfg reg O s cache request).llm_calls, EncodesContext P call.messages := by
  obtain ⟨rounds, tail, ht⟩ := chat_transcript P cfg reg O s cache request
  intro call hcall
  obtain ⟨j, hj, rfl⟩ := List.getElem_of_mem hcall
  obtain ⟨sj, hsj, -, hbuild⟩ := ht.contexts j hj
  rw [Session.addMessages_messages, List.append_assoc] at hsj
  -- The rounds before the call are complete ones.
  have hrounds : Blocks Message.callIds Message.answerId (rounds.take j).flatten := by
    refine .flatten fun round hround => ?_
    obtain ⟨i, hi, rfl⟩ := List.getElem_of_mem (List.mem_of_mem_take hround)
    obtain ⟨response, -, -, -, hresponse⟩ := ht.complete i hi
    exact hresponse.blocks
  have hsub : ∀ msg ∈ (rounds.take j).flatten, msg ∈ rounds.flatten := by
    intro msg hmsg
    obtain ⟨round, hround, hmem⟩ := List.mem_flatten.mp hmsg
    exact List.mem_flatten.mpr ⟨round, List.mem_of_mem_take hround, hmem⟩
  have hrecorded : sj.Recorded P :=
    hs.extend hsj hrounds (fun msg hmsg => ht.rounds_role (hsub msg hmsg)) fun msg hmsg =>
      ht.callsOfProvider hO msg (hsub msg hmsg)
  exact hrecorded.encodes hbuild

end Contexts

/-! ## The messages for OpenAI -/

/-- A message whose conversion is sent as it is: a TOOL message has a text, and no message has an
empty list of tool calls. -/
def Message.Sendable (msg : Message) : Prop :=
  (msg.role = .tool → msg.content.isSome) ∧ msg.tool_calls ≠ some []

/-- A message of another role needs no text. -/
theorem Message.sendable_of_role {msg : Message} (hrole : msg.role ≠ .tool)
    (hcalls : msg.tool_calls ≠ some []) : msg.Sendable :=
  ⟨fun h => absurd h hrole, hcalls⟩

/-- What is sent of such a message is its conversion. -/
theorem Message.Sendable.sent_eq {msg : Message} (h : msg.Sendable) {m : LLMMessage}
    (hm : msg.toLLM = some m) : m.sent = m := by
  obtain ⟨role, content, tool_calls, tool_call_id⟩ := msg
  -- Only an ASSISTANT message can have calls, and only a TOOL message a content that is required.
  cases role with
  | system => cases hm
  | user =>
    obtain rfl := Option.some.inj hm
    rfl
  | assistant =>
    obtain rfl := Option.some.inj hm
    unfold LLMMessage.sent
    cases tool_calls with
    | none => rfl
    | some calls =>
      -- An empty list of calls would not be sent, but the session has none.
      have hne : calls ≠ [] := fun hnil => h.2 (congrArg some hnil)
      simp [hne]
  | tool =>
    obtain rfl := Option.some.inj hm
    obtain ⟨text, rfl⟩ := Option.isSome_iff_exists.mp (h.1 rfl)
    rfl

section Sent

variable {P : Platform} {cfg : AgentConfig} {reg : ToolRegistry} {O : Behaviour} {s : Session}
variable {cache : Cache} {request : ChatRequest}

/-- The rounds of a chat can be sent. -/
theorem Transcript.sendable {n d : ℕ} {run : ChatRun} {rounds : List (List Message)}
    {tail : List Message} (ht : Transcript P cfg reg O n d s cache run rounds tail) :
    ∀ msg ∈ rounds.flatten, msg.Sendable := by
  intro msg hmsg
  obtain ⟨round, hround, hmsg⟩ := List.mem_flatten.mp hmsg
  obtain ⟨j, hj, rfl⟩ := List.getElem_of_mem hround
  obtain ⟨response, hreply, hcalls, ⟨requests, hbuild⟩, -⟩ := ht.complete j hj
  rw [ht.executed j hj response hreply] at hmsg
  unfold toolMessages at hmsg
  rw [hbuild] at hmsg
  rcases List.mem_cons.mp hmsg with rfl | hmsg
  · exact Message.sendable_of_role (by simp [callMessage]) (by simpa [callMessage] using hcalls)
  · obtain ⟨i, hi, rfl⟩ := List.mem_mapIdx.mp hmsg
    exact ⟨fun _ => rfl, by simp⟩

/-- The request of a chat can be sent. -/
theorem sendable_userMessage (request : ChatRequest) : (userMessage request).Sendable :=
  Message.sendable_of_role (by simp [userMessage]) (by simp [userMessage])

/-- A chat records messages that can be sent, whatever the LLM replies. -/
theorem sendable_chat (hs : ∀ msg ∈ s.messages, msg.Sendable) :
    ∀ msg ∈ (chat P cfg reg O s cache request).session.messages, msg.Sendable := by
  obtain ⟨rounds, tail, ht⟩ := chat_transcript P cfg reg O s cache request
  intro msg hmsg
  rw [ht.messages, Session.addMessages_messages] at hmsg
  simp only [List.mem_append, List.mem_singleton] at hmsg
  rcases hmsg with (hmsg | rfl) | hmsg | hmsg
  · exact hs msg hmsg
  · exact sendable_userMessage request
  · exact ht.sendable msg hmsg
  · -- The last message, if there is one, is an ASSISTANT message.
    rcases ht.ending with ⟨reply, -, -, -, -, -⟩ | ⟨-, -, -⟩ | ⟨e, -, -, -⟩ | ⟨e, -, -, -, -⟩ |
      ⟨reply, e, -, -, hcalls, -, -, -⟩
    · obtain rfl := List.mem_singleton.mp hmsg
      exact Message.sendable_of_role (by simp [finalMessage]) (by simp [finalMessage])
    · obtain rfl := List.mem_singleton.mp hmsg
      exact Message.sendable_of_role (by simp [fallbackMessage]) (by simp [fallbackMessage])
    · cases hmsg
    · cases hmsg
    · obtain rfl := List.mem_singleton.mp hmsg
      exact Message.sendable_of_role (by simp [callMessage])
        (by simpa [callMessage] using hcalls)

/-- The contexts of a chat are sent as they are. -/
theorem map_sent_of_mem_llm_calls (hs : ∀ msg ∈ s.messages, msg.Sendable) :
    ∀ call ∈ (chat P cfg reg O s cache request).llm_calls,
      call.messages.map LLMMessage.sent = call.messages := by
  obtain ⟨rounds, tail, ht⟩ := chat_transcript P cfg reg O s cache request
  generalize chat P cfg reg O s cache request = run at ht ⊢
  intro call hcall
  obtain ⟨j, hj, rfl⟩ := List.getElem_of_mem hcall
  obtain ⟨sj, hsj, -, hbuild⟩ := ht.contexts j hj
  -- The session of round `j` has what was there before, the request, and whole earlier rounds.
  have hsendable : ∀ msg ∈ sj.messages, msg.Sendable := by
    intro msg hmsg
    rw [hsj, Session.addMessages_messages] at hmsg
    simp only [List.mem_append, List.mem_singleton] at hmsg
    rcases hmsg with (hmsg | rfl) | hmsg
    · exact hs msg hmsg
    · exact sendable_userMessage request
    · obtain ⟨round, hround, hmem⟩ := List.mem_flatten.mp hmsg
      exact ht.sendable msg (List.mem_flatten.mpr ⟨round, List.mem_of_mem_take hround, hmem⟩)
  have hwindow : ∀ m ∈ windowMessages sj cfg.context_window, m.sent = m := by
    intro m hm
    obtain ⟨msg, hmsg, htoLLM⟩ := exists_of_mem_windowMessages hm
    exact (hsendable msg hmsg).sent_eq htoLLM
  -- The summary and the prompt are SYSTEM messages, which are sent as they are.
  have hsystem (prompts : List String) :
      ∀ m ∈ prompts.map systemMessage, m.sent = m := by
    intro m hm
    obtain ⟨prompt, -, rfl⟩ := List.mem_map.mp hm
    rfl
  have hcontext : ∀ m ∈ (run.llm_calls[j]).messages, m.sent = m := by
    -- The context is the window, or a part of it behind the prompts.
    rcases (build_eq_ok hbuild).kept (by decide) with ⟨-, hmsgs⟩ |
      ⟨-, prompts, kept, hmsgs, -, hkept⟩
    · rw [hmsgs]
      exact List.forall_mem_cons.mpr ⟨rfl, hwindow⟩
    · rw [hmsgs]
      exact List.forall_mem_append.mpr ⟨hsystem prompts, fun m hm => hwindow m (hkept.subset hm)⟩
  exact (List.map_congr_left hcontext).trans (List.map_id _)

end Sent

end YellowBull
