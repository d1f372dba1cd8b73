import YellowBull.Agent.Transcript
import YellowBull.ToolExecutor.Footprint

/-!
# What a chat has to do with the cache

The keys that a chat may read and write are those of the tool calls that the LLM may ask for. From
two caches that have the same under the keys that it reads, a chat does the same
(`chat_congr`), and under a key that it does not write it leaves the cache alone (`chat_get?`).
-/

namespace YellowBull

open Py

open OrderedMap (AgreeOn)

section Footprint

variable (P : Platform) (cfg : AgentConfig) (reg : ToolRegistry) (O : Behaviour)

/-- The requests of a tool batch that the LLM asks for in a round. -/
def Behaviour.Asks (d : ℕ) (requests : List ToolCallRequest) : Prop :=
  ∃ response, O.llm d = .ok response ∧
    buildToolRequests P cfg response.tool_calls = .ok requests

/-- The LLM may ask for a tool call with the key, while the cache is on. -/
def Behaviour.Reads (key : String) : Prop :=
  ∃ d requests, O.Asks P cfg d requests ∧ cfg.toolExecutor.Reads P requests key

/-- The LLM may ask for a tool call with the key that succeeds, while the cache is on. -/
def Behaviour.Writes (key : String) : Prop :=
  ∃ d requests, O.Asks P cfg d requests ∧
    cfg.toolExecutor.Writes P reg requests (O.tools d) key

variable {P cfg reg O} {K : String → Prop}

/-- The loop from caches that have the same under the keys that are read. -/
theorem chatLoop_congr (hkeys : ∀ key, O.Reads P cfg key → K key) (n d : ℕ) (s : Session)
    {c c' : Cache} (hc : AgreeOn K c c') (log : List ExecutionResult) :
    ∃ cache', chatLoop P cfg reg O n d s c' log =
        { chatLoop P cfg reg O n d s c log with cache := cache' } ∧
      AgreeOn K (chatLoop P cfg reg O n d s c log).cache cache' := by
  induction n generalizing d s c c' log with
  | zero => exact ⟨c', rfl, hc⟩
  | succ n ih =>
    unfold chatLoop
    obtain ⟨s₁, e | call⟩ := roundHead P cfg reg s
    · exact ⟨c', rfl, hc⟩
    simp only
    rcases onReply_cases P cfg s₁.session_id (O.llm d) with
      ⟨e, -, hon⟩ | ⟨response, -, -, hon⟩ | ⟨response, e, -, -, -, hon⟩ |
        ⟨response, requests, hr, -, hb, hon⟩
    · rw [hon]
      exact ⟨c', rfl, hc⟩
    · rw [hon]
      exact ⟨c', rfl, hc⟩
    · rw [hon]
      exact ⟨c', rfl, hc⟩
    · have hbatch : ∀ key, cfg.toolExecutor.Reads P requests key → K key := fun key hkey =>
        hkeys key ⟨d, requests, ⟨response, hr, hb⟩, hkey⟩
      cases hinterrupt : O.interrupt d with
      | none =>
        -- The round has a batch, which gives the same results.
        obtain ⟨hresults, hcache⟩ := executeParallel_congr reg (O.tools d) hc hbatch (O.schedule d)
        simp only [hon, awaitBatch, hinterrupt, executeBatch_toolExecutor, ← hresults]
        obtain ⟨cache', hloop, hagree⟩ := ih (d + 1) _ hcache _
        exact ⟨cache', by rw [hloop], hagree⟩
      | some e =>
        -- The batch comes to the same point.
        have hstart : (Batch.start c).Agree K (Batch.start c') := ⟨rfl, hc⟩
        simp only [hon, awaitBatch, hinterrupt]
        exact ⟨_, rfl, (hstart.run reg (O.tools d) hbatch (O.schedule d)).cache⟩

/-- The loop leaves the cache alone under a key that the chat does not write. -/
theorem chatLoop_get? {key : String} (hkey : ¬ O.Writes P cfg reg key) (n d : ℕ) (s : Session)
    (cache : Cache) (log : List ExecutionResult) :
    (chatLoop P cfg reg O n d s cache log).cache.get? key = cache.get? key := by
  -- The cache changes in the batches of the rounds alone.
  induction n generalizing d s cache log with
  | zero => rfl
  | succ n ih =>
    unfold chatLoop
    obtain ⟨s₁, e | call⟩ := roundHead P cfg reg s
    · rfl
    simp only
    rcases onReply_cases P cfg s₁.session_id (O.llm d) with
      ⟨e, -, hon⟩ | ⟨response, -, -, hon⟩ | ⟨response, e, -, -, -, hon⟩ |
        ⟨response, requests, hr, -, hb, hon⟩
    · rw [hon]
    · rw [hon]
    · rw [hon]
    · have hbatch : ¬ cfg.toolExecutor.Writes P reg requests (O.tools d) key := fun hwrites =>
        hkey ⟨d, requests, ⟨response, hr, hb⟩, hwrites⟩
      rcases awaitBatch_cases P cfg reg O d requests cache with ⟨-, hawait⟩ | ⟨e, -, hawait⟩
      · simp only [hon, hawait]
        rw [ih, executeParallel_get? _ _ hbatch]
      · simp only [hon, hawait]
        exact Batch.run_get? _ _ hbatch

variable (reg) in
/-- A chat from caches that have the same under the keys that it reads. -/
theorem chat_congr (hkeys : ∀ key, O.Reads P cfg key → K key) (s : Session) {c c' : Cache}
    (hc : AgreeOn K c c') (request : ChatRequest) :
    ∃ cache', chat P cfg reg O s c' request =
        { chat P cfg reg O s c request with cache := cache' } ∧
      AgreeOn K (chat P cfg reg O s c request).cache cache' :=
  chatLoop_congr hkeys _ _ _ hc _

/-- A chat leaves the cache alone under a key that it does not write. -/
theorem chat_get? {key : String} (hkey : ¬ O.Writes P cfg reg key) (s : Session) (cache : Cache)
    (request : ChatRequest) :
    (chat P cfg reg O s cache request).cache.get? key = cache.get? key :=
  chatLoop_get? hkey _ _ _ _ _

end Footprint

end YellowBull
