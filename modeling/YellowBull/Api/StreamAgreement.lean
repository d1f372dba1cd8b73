import YellowBull.Agent.Transcript
import YellowBull.Api.Streaming
import YellowBull.ContextBuilder.Turns

/-!
# The streaming chat and the chat

A streamed turn agrees with `Agent.chat` when it gives the LLM the same contexts, leaves the session
with the same messages, and ends without an exception. `stream_chat_response` never does: the class
`Agent` has no attribute `ChatRequest`, so that it raises before it has looked for a session.

The rest of the function would agree with a chat of one round on sessions without a working
directory, and there on answers that are not empty: it builds its context without the directory, and
it records an empty answer as the text `(empty response)`.
-/

namespace YellowBull

open Py

/-- A streamed turn, which leaves the session as `s`, does what the chat does. -/
structure StreamRun.Agrees (stream : StreamRun) (s : Session) (run : ChatRun) : Prop where
  contexts : stream.llm_calls.map LLMCall.messages = run.llm_calls.map LLMCall.messages
  messages : s.messages = run.session.messages
  ends : stream.raised = none

/-! ## The loop over the chunks -/

/-- The loop over deltas: it yields those that are not empty and records the whole text. -/
theorem streamChunks_deltas (clock : ℕ → Time) (k : ℕ) (deltas : List String)
    (full_content : String) (s : Session) :
    streamChunks clock k (deltaChunks deltas) full_content s =
      (s.addMessage (clock (k + deltas.length)) (streamedMessage (full_content ++ join "" deltas)),
        (deltas.filter (· ≠ "")).map dataFrame ++ [dataFrame (sessionText s.session_id)]) := by
  induction deltas generalizing k full_content with
  | nil => simp [deltaChunks, streamChunks, onChunk, join]
  | cons delta deltas ih =>
    have hcons : deltaChunks (delta :: deltas) = some { delta } :: deltaChunks deltas := rfl
    have hlast : k + 1 + deltas.length = k + (deltas.length + 1) := by omega
    rw [hcons, streamChunks, join_empty_cons, List.length_cons]
    by_cases hdelta : delta = ""
    · simp [onChunk, hdelta, ih, hlast]
    · simp [onChunk, hdelta, ih, hlast, String.append_assoc]

/-! ## The turn on the session -/

section Turn

variable {P : Platform} {cfg : AgentConfig} {reg : ToolRegistry} {O : Behaviour}
variable {S : StreamBehaviour} {s : Session} {cache : Cache} {request : ChatRequest}

/-- A round in which `build` does not raise. -/
theorem roundHead_of_build {context : List LLMMessage}
    (h : ContextBuilder.build P ⟨cfg.system_prompt⟩ s cfg.context_window {} s.work_dir =
      .ok context) :
    roundHead P cfg reg s =
      ({ s with state := { s.state with chain_depth := s.state.chain_depth + 1 } },
        .ok { messages := context, tools := reg.toFunctionDefinitions }) := by
  have hsame : ContextBuilder.build P ⟨cfg.system_prompt⟩
      { s with state := { s.state with chain_depth := s.state.chain_depth + 1 } }
      cfg.context_window {} s.work_dir = .ok context := by
    rw [← h]
    exact build_congr rfl s.work_dir
  unfold roundHead
  simp only [hsame]
  rfl

/-- A chat that the LLM answers at once: it records the request and the answer. -/
theorem chat_of_answer (hdepth : 0 < cfg.max_chain_depth) {response : LLMResponse}
    (hreply : O.llm 0 = .ok response) (hcalls : response.tool_calls = [])
    {context : List LLMMessage} (hbuild : ContextBuilder.build P ⟨cfg.system_prompt⟩
      (s.addMessages (O.clock 0) [userMessage request]) cfg.context_window {} s.work_dir =
        .ok context) :
    (chat P cfg reg O s cache request).llm_calls.map LLMCall.messages = [context] ∧
      (chat P cfg reg O s cache request).session.messages =
        s.messages ++ [userMessage request, finalMessage response] := by
  -- One round, the first.
  obtain ⟨n, hn⟩ : ∃ n, cfg.max_chain_depth.toNat = n + 1 :=
    ⟨cfg.max_chain_depth.toNat - 1, by omega⟩
  have hdir : (s.addMessages (O.clock 0) [userMessage request]).work_dir = s.work_dir :=
    Session.addMessages_work_dir ..
  have hanswer : onReply P cfg s.session_id (O.llm 0) = ([finalMessage response],
      .returns ⟨response.content.getD "", s.session_id, response.usage⟩) := by
    rw [hreply, onReply, if_pos hcalls]
  rw [← hdir] at hbuild
  unfold chat
  rw [hn, chatLoop, roundHead_of_build hbuild]
  simp only [Session.addMessages_session_id]
  rw [hanswer]
  simp

/-- A turn in which the LLM streams deltas: it records the request and their text. -/
theorem streamTurn_deltas {deltas : List String}
    (hstream : S.llm = .ok (.iterator (deltaChunks deltas) none)) {context : List LLMMessage}
    (hbuild : ContextBuilder.build P ⟨cfg.system_prompt⟩ (s.addMessages (S.clock 0)
      [userMessage request]) cfg.context_window {} none = .ok context) :
    (streamTurn P cfg reg S s request).1.messages =
        s.messages ++ [userMessage request, streamedMessage (join "" deltas)] ∧
      (streamTurn P cfg reg S s request).2 =
        { yielded := (deltas.filter (· ≠ "")).map dataFrame ++
            [dataFrame (sessionText s.session_id)]
          llm_calls := [{ messages := context, tools := reg.toFunctionDefinitions }]
          raised := none } := by
  unfold streamTurn
  simp only [hbuild, streamReply, hstream, streamChunks_deltas]
  simp [Session.addMessage]

/-- A working directory shows in the system prompt. -/
theorem effectivePrompt_eq_iff (b : ContextBuilder) (work_dir : Option String) :
    b.effectivePrompt work_dir = b.effectivePrompt none ↔ work_dir.getD "" = "" := by
  unfold ContextBuilder.effectivePrompt
  by_cases hdir : work_dir.getD "" = ""
  · simp [hdir]
  · -- The section on the directory makes the prompt longer.
    simp only [hdir, if_false, Option.getD_none, if_true, iff_false]
    intro h
    have hlength := congrArg String.length h
    simp only [String.length_append] at hlength
    have hpos : 0 < ("\n\n## Working Directory\n" : String).length := by decide
    omega

/-- The answer is recorded as `chat` records it, unless it is empty. -/
theorem streamedMessage_eq_iff {full_content : String} {response : LLMResponse}
    (h : full_content = response.content.getD "") :
    streamedMessage full_content = finalMessage response ↔ response.content.getD "" ≠ "" := by
  subst h
  unfold streamedMessage finalMessage
  cases hcontent : response.content with
  | none => simp
  | some content =>
    by_cases hempty : content = ""
    · simp [hempty]
    · simp [hempty]

/-- If the lookup of the class succeeded, a streamed turn would agree with the chat on sessions
without a working directory and answers that are not empty. -/
theorem streamTurn_agrees_iff (hdepth : 0 < cfg.max_chain_depth) {response : LLMResponse}
    (hreply : O.llm 0 = .ok response) (hcalls : response.tool_calls = []) {deltas : List String}
    (hstream : S.llm = .ok (.iterator (deltaChunks deltas) none))
    (hcontent : join "" deltas = response.content.getD "") {context : List LLMMessage}
    (hbuild : ContextBuilder.build P ⟨cfg.system_prompt⟩ (s.addMessages (O.clock 0)
      [userMessage request]) cfg.context_window {} s.work_dir = .ok context) :
    (streamTurn P cfg reg S s request).2.Agrees (streamTurn P cfg reg S s request).1
        (chat P cfg reg O s cache request) ↔
      s.work_dir.getD "" = "" ∧ response.content.getD "" ≠ "" := by
  obtain ⟨hchatted, hrecorded⟩ : (chat P cfg reg O s cache request).llm_calls.map
      LLMCall.messages = [context] ∧ (chat P cfg reg O s cache request).session.messages =
        s.messages ++ [userMessage request, finalMessage response] :=
    chat_of_answer hdepth hreply hcalls hbuild
  obtain ⟨rest, rfl, hnone⟩ := build_without_work_dir hbuild
  have hsame : (s.addMessages (O.clock 0) [userMessage request]).messages =
      (s.addMessages (S.clock 0) [userMessage request]).messages := by simp
  rw [build_congr hsame] at hnone
  obtain ⟨hstreamed, hrun⟩ := @streamTurn_deltas P cfg reg S s request _ hstream _ hnone
  have hprompt := effectivePrompt_eq_iff ⟨cfg.system_prompt⟩ s.work_dir
  have hanswer := streamedMessage_eq_iff hcontent
  -- The contexts differ in the prompt alone, and the messages in the answer alone.
  constructor
  · intro hagrees
    have hcontexts := hagrees.contexts
    have hmessages := hagrees.messages
    rw [hrun, hchatted] at hcontexts
    rw [hstreamed, hrecorded] at hmessages
    refine ⟨hprompt.mp ?_, hanswer.mp ?_⟩
    · simpa [systemMessage] using hcontexts.symm
    · simpa using hmessages
  · rintro ⟨hdir, hcontent'⟩
    refine ⟨?_, ?_, by rw [hrun]⟩
    · rw [hrun, hchatted, hprompt.mpr hdir]
      rfl
    · rw [hstreamed, hrecorded, hanswer.mpr hcontent']

end Turn

/-! ## The whole function -/

section Whole

variable {σ : Type} (P : Platform) (cfg : AgentConfig) (reg : ToolRegistry) (M : SessionManager σ)
variable (O : Behaviour) (S : StreamBehaviour) (request : ChatRequest) (session_id : String)
variable (now : Time) (h : AgentState σ)

/-- `stream_chat_response` on a request, and `Agent.chat` on the same request, agree. -/
def AgentState.StreamAgrees : Prop :=
  let session := (getOrCreateSession M request session_id now h.world).1
  (h.streamChatResponse P cfg reg S M request session_id now).2.Agrees
    ((h.streamChatResponse P cfg reg S M request session_id now).1.world.heap.read session)
    (h.chatRun P cfg reg M request session_id now O)

/-- There is no request on which the two agree. -/
theorem streamChatResponse_never_agrees :
    ¬ h.StreamAgrees P cfg reg M O S request session_id now := by
  intro hagrees
  have hends : (h.streamChatResponse P cfg reg S M request session_id now).2.raised = none :=
    hagrees.ends
  rw [streamChatResponse_eq] at hends
  cases hends

end Whole

/-- A new session, and an LLM whose deltas are the two halves of its answer. -/
theorem not_streamAgrees_two_deltas :
    ¬ (AgentState.start .empty).StreamAgrees .bare { system_prompt := "p" } .empty
      (memorySessionManager 7200)
      (.scripted [{ content := some "ok" }] (.error ⟨.other, ""⟩)) (.deltas ["o", "k"])
      { user_id := "u", message := "hi" } "s" 0 := by
  intro hagrees
  have hends := hagrees.ends
  revert hends
  decide

end YellowBull
