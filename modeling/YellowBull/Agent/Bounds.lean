import Mathlib.Algebra.Group.Action.Defs
import YellowBull.Agent.Outcomes
import YellowBull.ToolExecutor.Bounds

/-!
# The work of a chat is bounded

A chat calls the LLM at most `max_chain_depth` times and tools at most
`max_chain_depth * max_tool_calls_per_turn * (tool_retry_limit + 1)` times, whatever the LLM and
the tools do (`chat_bounded`). Each call of the LLM is followed by at most one batch
(`length_loopBatches_le`), each batch has the requests that the cap leaves of a reply
(`buildToolRequests_spec`), and each request has its attempts
(`Batch.length_toolCalls_start_le`).

`ChatRun` does not tell the batches of a chat, so `loopBatches` lists them along the loop; they are
those whose results the chat logs (`tool_results_log_eq`). A batch into which an exception is thrown
is the last one of its chat, and its calls count as well, those in flight included.
-/

namespace YellowBull

open Py

/-- A batch that a chat executes: its round, its requests, and the cache that it finds. -/
structure ChatBatch where
  round : ℕ
  requests : List ToolCallRequest
  cache : Cache

section Chat

variable (P : Platform) (cfg : AgentConfig) (reg : ToolRegistry) (O : Behaviour)

/-- The batches that the loop of `chat` executes with `n` rounds left, the next of them round
`d`. -/
def loopBatches : ℕ → ℕ → Session → Cache → List ChatBatch
  | 0, _, _, _ => []
  | n + 1, d, s, cache =>
    match roundHead P cfg reg s with
    | (_, .error _) => []
    | (s, .ok _) =>
      let reply := onReply P cfg s.session_id (O.llm d)
      let s := s.addMessages (O.clock (2 * d + 1)) reply.1
      match reply.2 with
      | .returns _ => []
      | .raises _ => []
      | .executes calls requests =>
        ⟨d, requests, cache⟩ ::
          match awaitBatch P cfg reg O d requests cache with
          | (.error _, _) => []
          | (.ok results, cache) =>
            let s := s.addMessages (O.clock (2 * d + 2)) (resultMessages calls results)
            loopBatches n (d + 1) s cache

/-- The batches of a whole chat. -/
def chatBatches (s : Session) (cache : Cache) (request : ChatRequest) : List ChatBatch :=
  loopBatches P cfg reg O cfg.max_chain_depth.toNat 0
    (s.addMessages (O.clock 0) [userMessage request]) cache

/-- The results of a batch, none if an exception is thrown into it. -/
def ChatBatch.results (b : ChatBatch) : List ExecutionResult :=
  match (awaitBatch P cfg reg O b.round b.requests b.cache).1 with
  | .ok results => results
  | .error _ => []

/-- The segments of a batch. -/
def ChatBatch.segments (b : ChatBatch) : List ℕ :=
  match O.interrupt b.round with
  | none => cfg.toolExecutor.batchSegments P reg b.requests (O.tools b.round) (O.schedule b.round)
      b.cache
  | some _ => O.schedule b.round

/-- The calls of `_invoke_tool` in a batch, those that are over and those in flight when it is
given up. -/
def ChatBatch.toolCalls (b : ChatBatch) : List (ℕ × ℕ) :=
  let start := Batch.start b.cache
  let segments := b.segments P cfg reg O
  start.toolCalls P cfg.toolExecutor reg b.requests (O.tools b.round) segments ++
    (start.run P cfg.toolExecutor reg b.requests (O.tools b.round) segments).inFlight b.requests

/-- The calls of `_invoke_tool` in a whole chat. -/
def chatToolCalls (s : Session) (cache : Cache) (request : ChatRequest) : List (ℕ × ℕ) :=
  (chatBatches P cfg reg O s cache request).flatMap (ChatBatch.toolCalls P cfg reg O)

/-- What a round of the loop does: it is the last one, and executes no batch; or it executes a batch
of requests that were built of its reply, and the loop goes on, unless an exception is thrown into
the batch. -/
theorem loop_round (n d : ℕ) (s : Session) (cache : Cache) (log : List ExecutionResult) :
    (loopBatches P cfg reg O (n + 1) d s cache = [] ∧
      (chatLoop P cfg reg O (n + 1) d s cache log).llm_calls.length ≤ 1 ∧
      (chatLoop P cfg reg O (n + 1) d s cache log).tool_results_log = log) ∨
    ∃ (b : ChatBatch) (response : LLMResponse),
      O.llm d = .ok response ∧ buildToolRequests P cfg response.tool_calls = .ok b.requests ∧
      b.round = d ∧
      ((∃ e, O.interrupt d = some e ∧ b.results P cfg reg O = [] ∧
          loopBatches P cfg reg O (n + 1) d s cache = [b] ∧
          (chatLoop P cfg reg O (n + 1) d s cache log).llm_calls.length = 1 ∧
          (chatLoop P cfg reg O (n + 1) d s cache log).tool_results_log = log) ∨
        ∃ (s' : Session) (cache' : Cache) (call : LLMCall),
          O.interrupt d = none ∧ s'.session_id = s.session_id ∧
          loopBatches P cfg reg O (n + 1) d s cache =
            b :: loopBatches P cfg reg O n (d + 1) s' cache' ∧
          chatLoop P cfg reg O (n + 1) d s cache log =
            { chatLoop P cfg reg O n (d + 1) s' cache' (log ++ b.results P cfg reg O) with
              llm_calls := call :: (chatLoop P cfg reg O n (d + 1) s' cache'
                (log ++ b.results P cfg reg O)).llm_calls }) := by
  have hid : (roundHead P cfg reg s).1.session_id = s.session_id := rfl
  rw [loopBatches, chatLoop]
  generalize roundHead P cfg reg s = head at hid ⊢
  obtain ⟨s₁, e | call⟩ := head
  -- The context cannot be built: the LLM is not called at all.
  · exact .inl ⟨rfl, Nat.zero_le _, rfl⟩
  simp only
  rcases onReply_cases P cfg s₁.session_id (O.llm d) with
    ⟨e, -, hon⟩ | ⟨response, -, -, hon⟩ | ⟨response, e, -, -, -, hon⟩ |
      ⟨response, requests, hreply, -, hbuild, hon⟩
  -- Neither a failing LLM, nor a final answer, nor a call that cannot be decoded reaches the
  -- executor.
  · exact .inl (by simp [hon])
  · exact .inl (by simp [hon])
  · exact .inl (by simp [hon])
  · refine .inr ⟨⟨d, requests, cache⟩, response, hreply, hbuild, rfl, ?_⟩
    rcases awaitBatch_cases P cfg reg O d requests cache with
      ⟨hnone, hawait⟩ | ⟨e, hsome, hawait⟩
    -- The batch comes back, and the loop goes on with its results in the log.
    · simp only [hon, hawait, ChatBatch.results]
      refine .inr ⟨_, _, call, hnone, ?_, rfl, rfl⟩
      rw [Session.addMessages_session_id, Session.addMessages_session_id]
      exact hid
    -- The await is interrupted: the batch has begun, but it leaves the log as it was.
    · have hresults : (⟨d, requests, cache⟩ : ChatBatch).results P cfg reg O = [] := by
        simp only [ChatBatch.results, hawait]
      exact .inl ⟨e, hsome, hresults, by simp [hon, hawait], by simp [hon, hawait],
        by simp [hon, hawait]⟩

variable {P cfg reg O}

/-- The batches are those whose results are logged. -/
theorem tool_results_log_eq (n d : ℕ) (s : Session) (cache : Cache) (log : List ExecutionResult) :
    (chatLoop P cfg reg O n d s cache log).tool_results_log =
      log ++ (loopBatches P cfg reg O n d s cache).flatMap (ChatBatch.results P cfg reg O) := by
  induction n generalizing d s cache log with
  | zero => exact (List.append_nil log).symm
  | succ n ih =>
    obtain ⟨hnone, -, hlog⟩ | ⟨b, response, -, -, -,
      ⟨e, -, hresults, hbatches, -, hlog⟩ | ⟨s', cache', call, -, -, hbatches, hloop⟩⟩ :=
      loop_round P cfg reg O n d s cache log
    · rw [hnone, hlog]
      exact (List.append_nil log).symm
    · rw [hbatches, hlog, List.flatMap_singleton, hresults, List.append_nil]
    · rw [hbatches, hloop, ih, List.flatMap_cons, List.append_assoc]

/-- Each batch follows a call of the LLM, and each round calls it once. -/
theorem length_loopBatches_le (n d : ℕ) (s : Session) (cache : Cache)
    (log : List ExecutionResult) :
    (loopBatches P cfg reg O n d s cache).length ≤
        (chatLoop P cfg reg O n d s cache log).llm_calls.length ∧
      (chatLoop P cfg reg O n d s cache log).llm_calls.length ≤ n := by
  -- Every batch of the loop belongs to a call of the LLM of its own, the one of its round.
  induction n generalizing d s cache log with
  | zero => exact ⟨le_rfl, le_rfl⟩
  | succ n ih =>
    obtain ⟨hnone, hcalls, -⟩ | ⟨b, response, -, -, -,
      ⟨e, -, -, hbatches, hcalls, -⟩ | ⟨s', cache', call, -, -, hbatches, hloop⟩⟩ :=
      loop_round P cfg reg O n d s cache log
    · rw [hnone]
      exact ⟨Nat.zero_le _, hcalls.trans (Nat.succ_le_succ n.zero_le)⟩
    · rw [hbatches, hcalls]
      exact ⟨le_rfl, Nat.succ_le_succ n.zero_le⟩
    · rw [hbatches, hloop]
      obtain ⟨hle, hn⟩ := ih (d + 1) s' cache' (log ++ b.results P cfg reg O)
      exact ⟨Nat.succ_le_succ hle, Nat.succ_le_succ hn⟩

/-- The requests of a batch are those that were built of a reply. -/
theorem requests_of_mem_loopBatches (n d : ℕ) (s : Session) (cache : Cache) :
    ∀ b ∈ loopBatches P cfg reg O n d s cache,
      ∃ calls, buildToolRequests P cfg calls = .ok b.requests := by
  induction n generalizing d s cache with
  | zero => simp [loopBatches]
  | succ n ih =>
    obtain ⟨hnone, -⟩ | ⟨b, response, -, hbuild, -,
      ⟨e, -, -, hbatches, -⟩ | ⟨s', cache', call, -, -, hbatches, -⟩⟩ :=
      loop_round P cfg reg O n d s cache []
    · simp [hnone]
    · rw [hbatches]
      exact List.forall_mem_singleton.mpr ⟨response.tool_calls, hbuild⟩
    · rw [hbatches]
      exact List.forall_mem_cons.mpr ⟨⟨response.tool_calls, hbuild⟩, ih (d + 1) s' cache'⟩

/-- A batch of the loop calls tools so often. -/
theorem length_toolCalls_of_mem_loopBatches (hcap : 0 ≤ cfg.max_tool_calls_per_turn) {n d : ℕ}
    {s : Session} {cache : Cache} {b : ChatBatch}
    (hb : b ∈ loopBatches P cfg reg O n d s cache) :
    (b.toolCalls P cfg reg O).length ≤
      cfg.max_tool_calls_per_turn.toNat * (cfg.tool_retry_limit + 1).toNat := by
  obtain ⟨calls, hbuild⟩ := requests_of_mem_loopBatches n d s cache b hb
  have hlength := (buildToolRequests_spec hcap hbuild).1
  calc (b.toolCalls P cfg reg O).length
      ≤ b.requests.length * (cfg.tool_retry_limit + 1).toNat :=
        List.length_append.trans_le (Batch.length_toolCalls_start_le b.cache _)
    _ ≤ _ := Nat.mul_le_mul_right _ (hlength.trans_le (min_le_left _ _))

variable (P cfg reg O) in
/-- The work of a chat is bounded, whatever the LLM and the tools do. -/
theorem chat_bounded (hdepth : 0 ≤ cfg.max_chain_depth) (hcap : 0 ≤ cfg.max_tool_calls_per_turn)
    (hretries : 0 ≤ cfg.tool_retry_limit) (s : Session) (cache : Cache) (request : ChatRequest) :
    ((chat P cfg reg O s cache request).llm_calls.length : ℤ) ≤ cfg.max_chain_depth ∧
      ((chatToolCalls P cfg reg O s cache request).length : ℤ) ≤
        cfg.max_chain_depth * cfg.max_tool_calls_per_turn * (cfg.tool_retry_limit + 1) := by
  obtain ⟨hbatches, hcalls⟩ : (chatBatches P cfg reg O s cache request).length ≤
      (chat P cfg reg O s cache request).llm_calls.length ∧
        (chat P cfg reg O s cache request).llm_calls.length ≤ cfg.max_chain_depth.toNat :=
    length_loopBatches_le ..
  -- The product of the bounds is first shown of natural numbers, where the sum over the batches is.
  refine ⟨by omega, ?_⟩
  have htools : (chatToolCalls P cfg reg O s cache request).length ≤
      cfg.max_chain_depth.toNat *
        (cfg.max_tool_calls_per_turn.toNat * (cfg.tool_retry_limit + 1).toNat) := by
    rw [chatToolCalls, List.length_flatMap]
    refine (List.sum_le_card_nsmul _
      (cfg.max_tool_calls_per_turn.toNat * (cfg.tool_retry_limit + 1).toNat) ?_).trans ?_
    -- In every batch at most the cap's number of requests, each with at most all its attempts.
    · intro k hk
      obtain ⟨b, hb, rfl⟩ := List.mem_map.mp hk
      exact length_toolCalls_of_mem_loopBatches hcap hb
    · rw [List.length_map, smul_eq_mul]
      exact Nat.mul_le_mul_right _ (hbatches.trans hcalls)
  calc ((chatToolCalls P cfg reg O s cache request).length : ℤ)
      ≤ (cfg.max_chain_depth.toNat *
          (cfg.max_tool_calls_per_turn.toNat * (cfg.tool_retry_limit + 1).toNat) : ℕ) :=
        Int.ofNat_le.mpr htools
    _ = _ := by
      push_cast
      rw [Int.toNat_of_nonneg hdepth, Int.toNat_of_nonneg hcap, Int.toNat_of_nonneg (by omega),
        mul_assoc]

end Chat

/-- The outside of a chat in which the LLM asks for two tools in every round, and every attempt
fails. -/
def insistent : Behaviour where
  llm _ := .ok { tool_calls := [plainCall "c1" "read", plainCall "c2" "read"] }
  schedule _ := []
  tools _ _ _ := .error ⟨.other, "no"⟩
  clock _ := 0

/-- Settings for a chat of two rounds, of one tool each, with one retry. -/
def smallSettings : AgentConfig where
  system_prompt := "p"
  max_chain_depth := 2
  max_tool_calls_per_turn := 1
  tool_retry_limit := 1

/-- The bounds for such a chat. -/
theorem chat_bounded_insistent :
    ((chat .bare smallSettings readRegistry insistent { session_id := "s" } .empty
        { user_id := "u", message := "hi" }).llm_calls.length : ℤ) ≤ 2 ∧
      ((chatToolCalls .bare smallSettings readRegistry insistent { session_id := "s" } .empty
        { user_id := "u", message := "hi" }).length : ℤ) ≤ 2 * 1 * (1 + 1) :=
  chat_bounded .bare smallSettings readRegistry insistent (by decide) (by decide) (by decide) _ _ _

/-- It reaches them. -/
example : (chatToolCalls .bare smallSettings readRegistry insistent { session_id := "s" } .empty
    { user_id := "u", message := "hi" }).length = 4 := by
  decide

end YellowBull
