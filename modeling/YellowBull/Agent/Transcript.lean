import YellowBull.Agent
import YellowBull.Lib.CallBlocks
import YellowBull.Lib.Except

/-!
# What a chat records

`chatLoop_transcript` describes every run of the loop of `Agent.chat`, for any LLM and tools: it
records complete rounds, each an ASSISTANT message with tool calls and the TOOL messages of its
calls, and then ends in one of five ways (`Ending`). All that later modules prove about a chat with
no other writer on the session is read off it.

The proof is an induction on the rounds left, over one segment after another. Each segment has its
specification first: `onReply` by its four cases (`onReply_cases`), `resultMessages` by the ids that
it answers (`resultMessages_answers`).
-/

namespace YellowBull

open Py CallBlocks

/-! ## The segments -/

/-- The TOOL messages of a round have the ids of its calls, in order. -/
theorem resultMessages_answers (calls : List ToolCall) (results : List ExecutionResult) :
    (resultMessages calls results).map (fun m => (m.role, m.tool_call_id)) =
      calls.map fun tc => (MessageRole.tool, tc.id) := by
  -- Position by position: the content plays no part.
  apply List.ext_getElem
  · simp [resultMessages]
  · intro i hi hi'
    simp [resultMessages]

/-- TOOL messages with the ids of some calls answer those calls. -/
theorem map_answerId {tools : List Message} {calls : List ToolCall}
    (h : tools.map (fun m => (m.role, m.tool_call_id)) =
      calls.map fun tc => (MessageRole.tool, tc.id)) :
    tools.map Message.answerId = (calls.map ToolCall.id).map some := by
  -- The id that a message answers is read off its role and `tool_call_id` alone.
  have hanswer : Message.answerId = (fun x : MessageRole × Val =>
      if x.1 = .tool then some x.2 else none) ∘ fun m => (m.role, m.tool_call_id) := rfl
  rw [hanswer, ← List.map_map, h, List.map_map, List.map_map]
  rfl

/-- The four ways in which the segment after a reply ends. -/
theorem onReply_cases (P : Platform) (cfg : AgentConfig) (sid : String)
    (reply : Except Exn LLMResponse) :
    (∃ e, reply = .error e ∧ onReply P cfg sid reply = ([], .raises e)) ∨
    (∃ response, reply = .ok response ∧ response.tool_calls = [] ∧
      onReply P cfg sid reply = ([finalMessage response],
        .returns ⟨response.content.getD "", sid, response.usage⟩)) ∨
    (∃ response e, reply = .ok response ∧ response.tool_calls ≠ [] ∧
      buildToolRequests P cfg response.tool_calls = .error e ∧
      onReply P cfg sid reply = ([callMessage response], .raises e)) ∨
    (∃ response requests, reply = .ok response ∧ response.tool_calls ≠ [] ∧
      buildToolRequests P cfg response.tool_calls = .ok requests ∧
      onReply P cfg sid reply =
        ([callMessage response], .executes response.tool_calls requests)) := by
  -- The split is the code's own: the LLM raises, there are no calls, a call cannot be decoded, or
  -- all are handed to the executor.
  cases reply with
  | error e => exact .inl ⟨e, rfl, rfl⟩
  | ok response =>
    refine .inr ?_
    by_cases hc : response.tool_calls = []
    · exact .inl ⟨response, rfl, hc, by simp [onReply, hc]⟩
    · refine .inr ?_
      cases hb : buildToolRequests P cfg response.tool_calls with
      | error e => exact .inl ⟨response, e, rfl, hc, hb, by simp [onReply, hc, hb]⟩
      | ok requests => exact .inr ⟨response, requests, rfl, hc, hb, by simp [onReply, hc, hb]⟩

/-- The agent's executor is parallel, so that a batch that is awaited to its end gives results. -/
theorem executeBatch_toolExecutor (P : Platform) (cfg : AgentConfig) (reg : ToolRegistry)
    (requests : List ToolCallRequest) (outcomes : ℕ → ℕ → Except Exn ToolResult)
    (schedule : List ℕ) (cache : Cache) :
    cfg.toolExecutor.executeBatch P reg requests outcomes schedule cache =
      (.ok (cfg.toolExecutor.executeParallel P reg requests outcomes schedule cache).1,
        (cfg.toolExecutor.executeParallel P reg requests outcomes schedule cache).2) := by
  simp [ToolExecutor.executeBatch, AgentConfig.toolExecutor]

/-- A batch is awaited to its end, or an exception is thrown into the chat before. -/
theorem awaitBatch_cases (P : Platform) (cfg : AgentConfig) (reg : ToolRegistry) (O : Behaviour)
    (d : ℕ) (requests : List ToolCallRequest) (cache : Cache) :
    (O.interrupt d = none ∧ awaitBatch P cfg reg O d requests cache =
      (.ok (cfg.toolExecutor.executeParallel P reg requests (O.tools d) (O.schedule d) cache).1,
        (cfg.toolExecutor.executeParallel P reg requests (O.tools d) (O.schedule d) cache).2)) ∨
    (∃ e, O.interrupt d = some e ∧ awaitBatch P cfg reg O d requests cache =
      (.error e, ((Batch.start cache).run P cfg.toolExecutor reg requests (O.tools d)
        (O.schedule d)).cache)) := by
  unfold awaitBatch
  cases O.interrupt d with
  | none => exact .inl ⟨rfl, executeBatch_toolExecutor ..⟩
  | some e => exact .inr ⟨e, rfl, rfl⟩

/-- The head of a round changes no message. -/
@[simp]
theorem roundHead_messages (P : Platform) (cfg : AgentConfig) (reg : ToolRegistry) (s : Session) :
    (roundHead P cfg reg s).1.messages = s.messages := rfl

/-- The call of the LLM at the head of a round is given the context of the session. -/
theorem roundHead_context {P : Platform} {cfg : AgentConfig} {reg : ToolRegistry} {s : Session}
    {call : LLMCall} (h : (roundHead P cfg reg s).2 = .ok call) :
    ContextBuilder.build P ⟨cfg.system_prompt⟩ (roundHead P cfg reg s).1 cfg.context_window {}
      (roundHead P cfg reg s).1.work_dir = .ok call.messages := by
  obtain ⟨messages, hbuild, rfl⟩ := Except.map_eq_ok.mp h
  exact hbuild

/-! ## The loop -/

/-- A complete round: the ASSISTANT message with the reply's tool calls, then one TOOL message for
each call, in order, with its id. -/
def IsRound (response : LLMResponse) (block : List Message) : Prop :=
  ∃ tools, block = callMessage response :: tools ∧
    tools.map (fun m => (m.role, m.tool_call_id)) =
      response.tool_calls.map fun tc => (MessageRole.tool, tc.id)

section Loop

variable (P : Platform) (cfg : AgentConfig) (reg : ToolRegistry) (O : Behaviour)

/-- The TOOL messages that a round records for the calls of a reply, none where decoding them
raises. -/
def toolMessages (tools : ℕ → ℕ → Except Exn ToolResult) (schedule : List ℕ) (cache : Cache)
    (calls : List ToolCall) : List Message :=
  match buildToolRequests P cfg calls with
  | .error _ => []
  | .ok requests =>
    resultMessages calls
      (cfg.toolExecutor.executeParallel P reg requests tools schedule cache).1

/-- The cache after round `d`. -/
def cacheAfter (d : ℕ) (cache : Cache) : Cache :=
  match O.llm d with
  | .error _ => cache
  | .ok response =>
    match buildToolRequests P cfg response.tool_calls with
    | .error _ => cache
    | .ok requests =>
      (cfg.toolExecutor.executeParallel P reg requests (O.tools d) (O.schedule d) cache).2

/-- The cache `j` rounds after the head of round `d`. -/
def cacheBefore : ℕ → Cache → ℕ → Cache
  | _, cache, 0 => cache
  | d, cache, j + 1 => cacheBefore (d + 1) (cacheAfter P cfg reg O d cache) j

/-- How a run of the loop with `n` rounds left, the next of them round `d`, ends after `k` complete
rounds, and the messages that it still records. -/
inductive Ending (n d k : ℕ) (sid : String) (run : ChatRun) : List Message → Prop
  /-- The LLM ends the chat. -/
  | answered (response : LLMResponse) (hk : k < n) (hreply : O.llm (d + k) = .ok response)
      (hnone : response.tool_calls = [])
      (hresult : run.result = .ok ⟨response.content.getD "", sid, response.usage⟩)
      (hcalls : run.llm_calls.length = k + 1) : Ending n d k sid run [finalMessage response]
  /-- The depth limit ends it. -/
  | limit (hk : k = n)
      (hresult : run.result = .ok ⟨fallbackText P run.tool_results_log, sid, none⟩)
      (hcalls : run.llm_calls.length = k) :
      Ending n d k sid run [fallbackMessage P run.tool_results_log]
  /-- Building the context raises. -/
  | contextFailed (e : Exn) (hk : k < n) (hresult : run.result = .error e)
      (hcalls : run.llm_calls.length = k) : Ending n d k sid run []
  /-- `llm.chat` raises. -/
  | llmFailed (e : Exn) (hk : k < n) (hreply : O.llm (d + k) = .error e)
      (hresult : run.result = .error e) (hcalls : run.llm_calls.length = k + 1) :
      Ending n d k sid run []
  /-- Decoding the tool calls raises, or an exception is thrown in while they are executed. -/
  | callsOpen (response : LLMResponse) (e : Exn) (hk : k < n)
      (hreply : O.llm (d + k) = .ok response) (hsome : response.tool_calls ≠ [])
      (hopen : buildToolRequests P cfg response.tool_calls = .error e ∨
        ((∃ requests, buildToolRequests P cfg response.tool_calls = .ok requests) ∧
          O.interrupt (d + k) = some e))
      (hresult : run.result = .error e) (hcalls : run.llm_calls.length = k + 1) :
      Ending n d k sid run [callMessage response]

/-- A run of the loop from the session `s`: the complete rounds that it records and its ending. -/
structure Transcript (n d : ℕ) (s : Session) (cache : Cache) (run : ChatRun)
    (rounds : List (List Message)) (tail : List Message) : Prop where
  messages : run.session.messages = s.messages ++ (rounds.flatten ++ tail)
  /-- Each round is that of a reply with tool calls, whose requests could be built. -/
  complete : ∀ j (h : j < rounds.length), ∃ response, O.llm (d + j) = .ok response ∧
    response.tool_calls ≠ [] ∧
    (∃ requests, buildToolRequests P cfg response.tool_calls = .ok requests) ∧
    IsRound response rounds[j]
  /-- Its batch was awaited to its end. -/
  awaited : ∀ j < rounds.length, O.interrupt (d + j) = none
  /-- Its TOOL messages are those of its batch, with the cache that the rounds before it left. -/
  executed : ∀ j (h : j < rounds.length), ∀ response, O.llm (d + j) = .ok response →
    rounds[j] = callMessage response :: toolMessages P cfg reg (O.tools (d + j))
      (O.schedule (d + j)) (cacheBefore P cfg reg O d cache j) response.tool_calls
  /-- Each call of the LLM is given the context of the session with the rounds before it. -/
  contexts : ∀ j (h : j < run.llm_calls.length), ∃ sj : Session,
    sj.messages = s.messages ++ (rounds.take j).flatten ∧ sj.work_dir = s.work_dir ∧
    ContextBuilder.build P ⟨cfg.system_prompt⟩ sj cfg.context_window {} sj.work_dir =
      .ok (run.llm_calls[j]).messages
  ending : Ending P cfg O n d rounds.length s.session_id run tail

/-- Recording messages keeps the id of the session. -/
@[simp]
theorem Session.addMessages_session_id (s : Session) (now : Time) (msgs : List Message) :
    (s.addMessages now msgs).session_id = s.session_id := by
  induction msgs generalizing s with
  | nil => rfl
  | cons msg msgs ih => rw [Session.addMessages_cons, ih]; rfl

/-- It keeps the working directory. -/
@[simp]
theorem Session.addMessages_work_dir (s : Session) (now : Time) (msgs : List Message) :
    (s.addMessages now msgs).work_dir = s.work_dir := by
  induction msgs generalizing s with
  | nil => rfl
  | cons msg msgs ih => rw [Session.addMessages_cons, ih]; rfl

/-- It keeps the user. -/
@[simp]
theorem Session.addMessages_user_id (s : Session) (now : Time) (msgs : List Message) :
    (s.addMessages now msgs).user_id = s.user_id := by
  induction msgs generalizing s with
  | nil => rfl
  | cons msg msgs ih => rw [Session.addMessages_cons, ih]; rfl

variable {P cfg reg O}

/-- A run of the loop, after a complete round at its front. -/
theorem Transcript.cons {n d : ℕ} {s s' : Session} {cache : Cache} {run : ChatRun}
    {rounds : List (List Message)} {tail round : List Message} {call : LLMCall}
    {response : LLMResponse} {requests : List ToolCallRequest}
    (ht : Transcript P cfg reg O n (d + 1) s' (cacheAfter P cfg reg O d cache) run rounds tail)
    (hs' : s'.messages = s.messages ++ round) (hdir : s'.work_dir = s.work_dir)
    (hid : s'.session_id = s.session_id) (hreply : O.llm d = .ok response)
    (hsome : response.tool_calls ≠ [])
    (hbuild : buildToolRequests P cfg response.tool_calls = .ok requests)
    (hround : IsRound response round) (hawaited : O.interrupt d = none)
    (hexecuted : round = callMessage response :: toolMessages P cfg reg (O.tools d) (O.schedule d)
      cache response.tool_calls)
    (hctx : ∃ sj : Session, sj.messages = s.messages ∧ sj.work_dir = s.work_dir ∧
      ContextBuilder.build P ⟨cfg.system_prompt⟩ sj cfg.context_window {} sj.work_dir =
        .ok call.messages) :
    Transcript P cfg reg O (n + 1) d s cache { run with llm_calls := call :: run.llm_calls }
      (round :: rounds) tail where
  messages := by
    show run.session.messages = _
    rw [ht.messages, hs']
    simp
  complete j hj := by
    cases j with
    | zero => exact ⟨response, hreply, hsome, ⟨requests, hbuild⟩, hround⟩
    | succ j =>
      -- Round `j` of the rest is round `j + 1` of the whole.
      have h := ht.complete j (by simpa using hj)
      rwa [Nat.add_right_comm] at h
  awaited j hj := by
    cases j with
    | zero => exact hawaited
    | succ j =>
      have h := ht.awaited j (by simpa using hj)
      rwa [Nat.add_right_comm] at h
  executed j hj resp hresp := by
    cases j with
    | zero =>
      obtain rfl := Except.ok.inj (hreply.symm.trans hresp)
      exact hexecuted
    | succ j =>
      have h := ht.executed j (by simpa using hj) resp
      rw [Nat.add_right_comm] at h
      exact h hresp
  contexts j hj := by
    cases j with
    | zero => simpa using hctx
    | succ j =>
      -- The session of a later call starts with the round at the front.
      obtain ⟨sj, hsj, hdir', hb⟩ := ht.contexts j (by simpa using hj)
      refine ⟨sj, ?_, by rw [hdir', hdir], hb⟩
      rw [hsj, hs']
      simp
  ending := by
    -- The ending stays what it is, one round later.
    have hk : d + (rounds.length + 1) = d + 1 + rounds.length := by omega
    rcases ht.ending with ⟨resp, hlt, hr, hn, hres, hc⟩ | ⟨hlt, hres, hc⟩ | ⟨e, hlt, hres, hc⟩ |
      ⟨e, hlt, hr, hres, hc⟩ | ⟨resp, e, hlt, hr, hn, hb, hres, hc⟩
    · exact .answered resp (by simpa using hlt) (by simpa [hk] using hr) hn
        (by simpa [hid] using hres) (by simp [hc])
    · exact .limit (by simp [hlt]) (by simpa [hid] using hres) (by simp [hc])
    · exact .contextFailed e (by simpa using hlt) hres (by simp [hc])
    · exact .llmFailed e (by simpa using hlt) (by simpa [hk] using hr) hres (by simp [hc])
    · exact .callsOpen resp e (by simpa using hlt) (by simpa [hk] using hr) hn
        (by simpa [hk] using hb) hres (by simp [hc])

/-- Every run of the loop of `chat` records complete rounds and then ends in one of the five
ways. -/
theorem chatLoop_transcript (n d : ℕ) (s : Session) (cache : Cache) (log : List ExecutionResult) :
    ∃ rounds tail,
      Transcript P cfg reg O n d s cache (chatLoop P cfg reg O n d s cache log) rounds tail := by
  induction n generalizing d s cache log with
  | zero =>
    -- No round is left: the code after the loop.
    refine ⟨[], [fallbackMessage P log], ?_, by simp, by simp, by simp, by simp [chatLoop], ?_⟩
    · simp [chatLoop]
    · exact .limit rfl rfl rfl
  | succ n ih =>
    unfold chatLoop
    -- The head of the round, which leaves the messages alone.
    have hmsgs := roundHead_messages P cfg reg s
    have hdir : (roundHead P cfg reg s).1.work_dir = s.work_dir := rfl
    have hid : (roundHead P cfg reg s).1.session_id = s.session_id := rfl
    have hctx := @roundHead_context P cfg reg s
    generalize roundHead P cfg reg s = head at hmsgs hdir hid hctx
    obtain ⟨s₁, context⟩ := head
    cases context with
    | error e =>
      -- Building the context raises.
      refine ⟨[], [], by simpa using hmsgs, by simp, by simp, by simp, by simp, ?_⟩
      exact .contextFailed e (by simp) rfl rfl
    | ok call =>
      have hctx₀ : ∃ sj : Session, sj.messages = s.messages ∧ sj.work_dir = s.work_dir ∧
          ContextBuilder.build P ⟨cfg.system_prompt⟩ sj cfg.context_window {} sj.work_dir =
            .ok call.messages := ⟨s₁, hmsgs, hdir, hctx rfl⟩
      simp only at hmsgs hdir hid
      rcases onReply_cases P cfg s₁.session_id (O.llm d) with ⟨e, hr, hon⟩ |
        ⟨response, hr, hc, hon⟩ | ⟨response, e, hr, hc, hb, hon⟩ |
        ⟨response, requests, hr, hc, hb, hon⟩
      · -- `llm.chat` raises.
        simp only [hon]
        refine ⟨[], [], by simp [Session.addMessages, hmsgs], by simp, by simp, by simp, ?_, ?_⟩
        · simpa using hctx₀
        · exact .llmFailed e (by simp) hr rfl rfl
      · -- The LLM ends the chat.
        simp only [hon]
        refine ⟨[], [finalMessage response], by simp [hmsgs], by simp, by simp, by simp, ?_, ?_⟩
        · simpa using hctx₀
        · exact .answered response (by simp) hr hc (by simp [hid]) rfl
      · -- Decoding the tool calls raises.
        simp only [hon]
        refine ⟨[], [callMessage response], by simp [hmsgs], by simp, by simp, by simp, ?_, ?_⟩
        · simpa using hctx₀
        · exact .callsOpen response e (by simp) hr hc (.inl hb) rfl rfl
      rcases awaitBatch_cases P cfg reg O d requests cache with
        ⟨hawaited, hbatch⟩ | ⟨e, hinterrupt, hbatch⟩
      · -- The round completes, and the loop goes on.
        simp only [hon, hbatch]
        have hafter : cacheAfter P cfg reg O d cache = (cfg.toolExecutor.executeParallel P reg
            requests (O.tools d) (O.schedule d) cache).2 := by
          simp [cacheAfter, hr, hb]
        have htools : toolMessages P cfg reg (O.tools d) (O.schedule d) cache response.tool_calls =
            resultMessages response.tool_calls (cfg.toolExecutor.executeParallel P reg requests
              (O.tools d) (O.schedule d) cache).1 := by
          simp [toolMessages, hb]
        generalize (cfg.toolExecutor.executeParallel P reg requests (O.tools d) (O.schedule d)
          cache) = batch at hafter htools
        rw [← hafter]
        obtain ⟨rounds, tail, ht⟩ := ih (d + 1) _ (cacheAfter P cfg reg O d cache) (log ++ batch.1)
        refine ⟨(callMessage response :: resultMessages response.tool_calls batch.1) :: rounds,
          tail, ht.cons ?_ ?_ ?_ hr hc hb ⟨_, rfl, resultMessages_answers _ _⟩ hawaited ?_ hctx₀⟩
        · simp [hmsgs]
        · simp [hdir]
        · simp [hid]
        · rw [htools]
      · -- An exception is thrown in while the tasks of the batch run.
        simp only [hon, hbatch]
        refine ⟨[], [callMessage response], by simp [hmsgs], by simp, by simp, by simp, ?_, ?_⟩
        · simpa using hctx₀
        · exact .callsOpen response e (by simp) hr hc (.inr ⟨⟨requests, hb⟩, hinterrupt⟩) rfl rfl

/-- The loop keeps what recording messages and counting rounds keep. -/
theorem chatLoop_keeps {α : Type} (f : Session → α)
    (hadd : ∀ s now msgs, f (s.addMessages now msgs) = f s)
    (hhead : ∀ s, f (roundHead P cfg reg s).1 = f s) (n d : ℕ) (s : Session) (cache : Cache)
    (log : List ExecutionResult) :
    f (chatLoop P cfg reg O n d s cache log).session = f s := by
  induction n generalizing d s cache log with
  | zero => exact hadd ..
  | succ n ih =>
    have hs := hhead s
    unfold chatLoop
    generalize roundHead P cfg reg s = head at hs ⊢
    -- Every way out of the round has recorded messages on `s₁`, at most.
    obtain ⟨s₁, e | call⟩ := head
    · exact hs
    · simp only
      cases (onReply P cfg s₁.session_id (O.llm d)).2 with
      | returns response =>
        rw [hadd]
        exact hs
      | raises e =>
        rw [hadd]
        exact hs
      | executes calls requests =>
        simp only
        generalize awaitBatch P cfg reg O d requests cache = batch
        obtain ⟨e | results, cache'⟩ := batch
        · rw [hadd]
          exact hs
        · rw [ih, hadd, hadd]
          exact hs

end Loop

end YellowBull
