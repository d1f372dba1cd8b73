import YellowBull.Agent.Bounds

/-!
# The report at the depth limit

When no round is left, `chat` answers with a text of its own, the only report that the user gets of
the tools that ran. `AccountsFor` says of a text that it accounts for a list of results, and
`fallback_accounts` that the text accounts for the results of all batches of the chat, one batch for
each round. Their number is that of the calls which the slice `tool_calls[:max_calls]` keeps: with a
negative cap, which the settings do not exclude, it keeps all but the last calls of a reply.
-/

namespace YellowBull

open Py

/-! ## What the text reports -/

/-- A group of the report, under its heading with a line for each entry, absent if there are
none. -/
def reportGroup (heading : String) (entries : List String) : String :=
  if entries = [] then "" else "\n\n" ++ (heading ++ join "\n" entries)

/-- The text accounts for the results: it lists each of them once, in order within its group, a
success with at most 100 characters of its content and any other result with a reason. -/
structure AccountsFor (P : Platform) (text : String) (results : List ExecutionResult)
    (done errors : List String) : Prop where
  text_eq : text = "任务处理已达到最大步骤限制。" ++ reportGroup "已完成的操作：\n" done ++
    reportGroup "失败的操作：\n" errors ++ "\n\n请继续对话让我完成剩余部分，或分步提交子任务。"
  completed : List.Forall₂
    (fun r entry => entry =
      "- " ++ P.fmt r.tool_name ++ ": " ++ String.ofList (r.content.toList.take 100))
    (results.filter fun r => r.status = .success) done
  failed : List.Forall₂
    (fun r entry => ∃ reason, reason ≠ "" ∧ (r.error ≠ "" → reason = r.error) ∧
      entry = "- " ++ P.fmt r.tool_name ++ ": " ++ reason)
    (results.filter fun r => r.status ≠ .success) errors

/-- The groups together have an entry for each result. -/
theorem AccountsFor.count {P : Platform} {text : String} {results : List ExecutionResult}
    {done errors : List String} (h : AccountsFor P text results done errors) :
    done.length + errors.length = results.length := by
  have hsplit := results.length_eq_length_filter_add fun r => decide (r.status = .success)
  rw [← h.completed.length_eq, ← h.failed.length_eq, hsplit]
  simp only [ne_eq, decide_not]

/-- Two groups, put together as `fallbackText` does. -/
theorem join_groups (heading heading' : String) (done errors : List String) :
    let parts := (if done = [] then [] else [heading ++ join "\n" done]) ++
      (if errors = [] then [] else [heading' ++ join "\n" errors])
    (if parts = [] then "" else "\n\n" ++ join "\n\n" parts) =
      reportGroup heading done ++ reportGroup heading' errors := by
  have hone : ∀ s, join "\n\n" [s] = s := fun _ => rfl
  have htwo : ∀ s t, join "\n\n" [s, t] = s ++ "\n\n" ++ t := fun _ _ => rfl
  unfold reportGroup
  cases done with
  | nil =>
    cases errors with
    | nil => rfl
    | cons error errors => simp [hone]
  | cons entry done =>
    cases errors with
    | nil => simp [hone]
    | cons error errors => simp [htwo, String.append_assoc]

/-- `fallbackText` accounts for what is logged. -/
theorem fallbackText_accountsFor (P : Platform) (log : List ExecutionResult) :
    ∃ done errors, AccountsFor P (fallbackText P log) log done errors := by
  have herrors : log.filter (!·.success) = log.filter fun r => r.status ≠ .success := by
    simp only [ExecutionResult.success, ne_eq, decide_not]
  -- One line for every success, one for every failure, in the order of the log.
  refine ⟨(log.filter fun r => r.status = .success).map fun r =>
      "- " ++ P.fmt r.tool_name ++ ": " ++ String.ofList (r.content.toList.take 100),
    (log.filter fun r => r.status ≠ .success).map fun r =>
      "- " ++ P.fmt r.tool_name ++ ": " ++ if r.error = "" then "unknown" else r.error,
    ?_, List.forall₂_map_right_iff.mpr (List.forall₂_same.mpr fun r _ => rfl),
    List.forall₂_map_right_iff.mpr (List.forall₂_same.mpr fun r _ => ?_)⟩
  -- The text is built by concatenation from the left; the groups are joined from the right.
  · have hassoc : ∀ a b c d : String, a ++ b ++ c ++ d = a ++ (b ++ c) ++ d := by
      intro a b c d
      simp only [String.append_assoc]
    rw [hassoc, ← join_groups, ← herrors]
    simp only [List.map_eq_nil_iff]
    rfl
  -- Whatever `error` says, the line of a failure is not empty.
  · refine ⟨if r.error = "" then "unknown" else r.error, ?_, fun h => if_neg h, rfl⟩
    split_ifs with h
    · decide
    · exact h

/-! ## The chat at the depth limit -/

/-- The tool calls of the reply in a round. -/
def Behaviour.replyCalls (O : Behaviour) (d : ℕ) : List ToolCall :=
  match O.llm d with
  | .ok response => response.tool_calls
  | .error _ => []

section Chat

variable {P : Platform} {cfg : AgentConfig} {reg : ToolRegistry} {O : Behaviour}

/-- A batch has a result for each request, unless an exception is thrown into it. -/
theorem ChatBatch.length_results {b : ChatBatch} (h : O.interrupt b.round = none) :
    (b.results P cfg reg O).length = b.requests.length := by
  rcases awaitBatch_cases P cfg reg O b.round b.requests b.cache with
    ⟨-, hawait⟩ | ⟨e, hsome, -⟩
  · rw [ChatBatch.results, hawait]
    exact List.length_mapIdx
  · rw [h] at hsome
    cases hsome

/-- The requests of a batch are those of the calls that the cap leaves. -/
theorem length_requests {calls : List ToolCall} {requests : List ToolCallRequest}
    (h : buildToolRequests P cfg calls = .ok requests) :
    requests.length = (sliceTo calls cfg.max_tool_calls_per_turn).length :=
  (Except.mapM_eq_ok.mp h).length_eq.symm

variable (O) in
/-- None of `n` rounds from round `d` on has an exception thrown into its batch. -/
def Behaviour.Quiet (n d : ℕ) : Prop := ∀ j < n, O.interrupt (d + j) = none

/-- The first round is one of them, and the others come after it. -/
theorem Behaviour.Quiet.succ {n d : ℕ} (h : O.Quiet (n + 1) d) :
    O.interrupt d = none ∧ O.Quiet n (d + 1) := by
  refine ⟨h 0 n.succ_pos, fun j hj => ?_⟩
  rw [Nat.add_assoc, Nat.add_comm 1 j]
  exact h (j + 1) (Nat.succ_lt_succ hj)

/-- If each round that is left executes a batch to its end, the loop runs out: it answers with the
text for what was logged and for the results of the batches. -/
theorem chatLoop_at_limit (n d : ℕ) (s : Session) (cache : Cache) (log : List ExecutionResult)
    (hlimit : (loopBatches P cfg reg O n d s cache).length = n) (hquiet : O.Quiet n d) :
    let results := log ++
      (loopBatches P cfg reg O n d s cache).flatMap (ChatBatch.results P cfg reg O)
    (chatLoop P cfg reg O n d s cache log).result =
        .ok { content := fallbackText P results, session_id := s.session_id } ∧
      (chatLoop P cfg reg O n d s cache log).session.messages.getLast? =
        some (fallbackMessage P results) := by
  -- A round without a batch would leave fewer batches than rounds, and none is interrupted.
  induction n generalizing d s cache log with
  | zero => simp [chatLoop, loopBatches]
  | succ n ih =>
    obtain ⟨hfirst, hlater⟩ := hquiet.succ
    obtain ⟨hnone, -⟩ | ⟨b, response, -, -, -,
      ⟨e, hsome, -⟩ | ⟨s', cache', call, -, hid, hbatches, hloop⟩⟩ :=
      loop_round P cfg reg O n d s cache log
    · rw [hnone] at hlimit
      cases hlimit
    · rw [hfirst] at hsome
      cases hsome
    -- A whole round: the results join the log, and the rest of the loop is at its limit too.
    · rw [hbatches, List.length_cons] at hlimit
      have hrest := ih (d + 1) s' cache' (log ++ b.results P cfg reg O) (by omega) hlater
      rw [hbatches, hloop, List.flatMap_cons, ← List.append_assoc, ← hid]
      exact hrest

/-- The batches are those of the rounds in order, each of the calls that the cap leaves of the
reply, and their results are as many as these calls. -/
theorem loopBatches_at_limit (n d : ℕ) (s : Session) (cache : Cache)
    (hlimit : (loopBatches P cfg reg O n d s cache).length = n) (hquiet : O.Quiet n d) :
    (∀ j < n, ∃ b, (loopBatches P cfg reg O n d s cache)[j]? = some b ∧ b.round = d + j ∧
        buildToolRequests P cfg (O.replyCalls (d + j)) = .ok b.requests) ∧
      ((loopBatches P cfg reg O n d s cache).flatMap (ChatBatch.results P cfg reg O)).length =
        ((List.range n).map fun j =>
          (sliceTo (O.replyCalls (d + j)) cfg.max_tool_calls_per_turn).length).sum := by
  -- As in the induction before it: each of the rounds has to have its batch, and to finish it.
  induction n generalizing d s cache with
  | zero => simp [loopBatches]
  | succ n ih =>
    obtain ⟨hfirst, hlater⟩ := hquiet.succ
    obtain ⟨hnone, -⟩ | ⟨b, response, hreply, hbuild, hround,
      ⟨e, hsome, -⟩ | ⟨s', cache', call, -, -, hbatches, -⟩⟩ :=
      loop_round P cfg reg O n d s cache []
    · rw [hnone] at hlimit
      cases hlimit
    · rw [hfirst] at hsome
      cases hsome
    · rw [hbatches, List.length_cons] at hlimit
      obtain ⟨hrounds, hlength⟩ := ih (d + 1) s' cache' (by omega) hlater
      have hresults : (b.results P cfg reg O).length = b.requests.length :=
        ChatBatch.length_results (by rw [hround, hfirst])
      have hcalls : O.replyCalls d = response.tool_calls := by rw [Behaviour.replyCalls, hreply]
      have hnext : ∀ j, d + (j + 1) = d + 1 + j := fun j => by omega
      rw [hbatches]
      -- Round `d` is that of the first batch, the others are those of the rest of the loop.
      refine ⟨fun j hj => ?_, ?_⟩
      · cases j with
        | zero => exact ⟨b, rfl, hround, by rw [Nat.add_zero, hcalls, hbuild]⟩
        | succ j =>
          rw [List.getElem?_cons_succ, hnext j]
          exact hrounds j (by omega)
      -- The sum over the rounds splits off round `d`.
      · have hshift : (fun j => (sliceTo (O.replyCalls (d + 1 + j))
            cfg.max_tool_calls_per_turn).length) =
              (fun j => (sliceTo (O.replyCalls (d + j)) cfg.max_tool_calls_per_turn).length) ∘
                Nat.succ :=
          funext fun j => by rw [Function.comp_apply, ← hnext j]
        rw [List.flatMap_cons, List.length_append, hlength, List.range_succ_eq_map, List.map_cons,
          List.sum_cons, List.map_map, hresults, length_requests hbuild, Nat.add_zero d,
          hcalls, hshift]

variable (P cfg reg O) in
/-- The chat ends at the depth limit: each of its rounds executes a batch, and to its end. -/
def EndsAtLimit (s : Session) (cache : Cache) (request : ChatRequest) : Prop :=
  (chatBatches P cfg reg O s cache request).length = cfg.max_chain_depth.toNat ∧
    O.Quiet cfg.max_chain_depth.toNat 0

variable (P cfg reg O) in
/-- A chat that ends at the depth limit answers with a text that accounts for the results of all
batches, in order. It has an entry for each call that the cap leaves of a reply. -/
theorem fallback_accounts (s : Session) (cache : Cache) (request : ChatRequest)
    (hlimit : EndsAtLimit P cfg reg O s cache request) :
    ∃ text done errors,
      (chat P cfg reg O s cache request).result =
          .ok { content := text, session_id := s.session_id } ∧
        (chat P cfg reg O s cache request).session.messages.getLast? =
          some { role := .assistant, content := some text } ∧
        AccountsFor P text
          ((chatBatches P cfg reg O s cache request).flatMap (ChatBatch.results P cfg reg O))
          done errors ∧
        (∀ d < cfg.max_chain_depth.toNat,
          ∃ b, (chatBatches P cfg reg O s cache request)[d]? = some b ∧ b.round = d ∧
            buildToolRequests P cfg (O.replyCalls d) = .ok b.requests) ∧
        done.length + errors.length =
          ((List.range cfg.max_chain_depth.toNat).map fun d =>
            (sliceTo (O.replyCalls d) cfg.max_tool_calls_per_turn).length).sum ∧
        (0 ≤ cfg.max_tool_calls_per_turn → done.length + errors.length =
          ((List.range cfg.max_chain_depth.toNat).map fun d =>
            min (O.replyCalls d).length cfg.max_tool_calls_per_turn.toNat).sum) := by
  -- The two facts about the loop, on the batches of a chat that ends at its limit.
  obtain ⟨hlength, hquiet⟩ := hlimit
  obtain ⟨hresult, hlast⟩ := chatLoop_at_limit _ _ _ _ [] hlength hquiet
  obtain ⟨hrounds, hresults⟩ := loopBatches_at_limit _ _ _ _ hlength hquiet
  simp only [Nat.zero_add] at hrounds hresults
  rw [List.nil_append] at hresult hlast
  rw [Session.addMessages_session_id] at hresult
  obtain ⟨done, errors, haccounts⟩ := fallbackText_accountsFor P
    ((chatBatches P cfg reg O s cache request).flatMap (ChatBatch.results P cfg reg O))
  have hcount := haccounts.count.trans hresults
  refine ⟨_, done, errors, hresult, hlast, haccounts, hrounds, hcount, fun hcap => ?_⟩
  -- With a cap that is not negative the slice of the calls is as long as the smaller of the two.
  rw [hcount]
  congr 2
  funext d
  rw [sliceTo_of_nonneg _ hcap, List.length_take, Nat.min_comm]

end Chat

/-- The outside of a chat in which the LLM asks for two tools in every round, of which the second
fails. -/
def halfFailing : Behaviour where
  llm _ := .ok { tool_calls := [plainCall "c1" "read", plainCall "c2" "read"] }
  schedule _ := []
  tools _ i _ := if i = 0 then .ok { content := "text" } else .error ⟨.other, "no"⟩
  clock _ := 0

/-- Settings for a chat of two rounds, with a cap. -/
def cappedSettings (max_tool_calls_per_turn : ℤ) : AgentConfig where
  system_prompt := "p"
  max_chain_depth := 2
  max_tool_calls_per_turn := max_tool_calls_per_turn
  tool_retry_limit := 0

/-- Four calls are accounted for. -/
theorem fallback_accounts_halfFailing :
    ∃ text done errors,
      (chat .bare (cappedSettings 5) readRegistry halfFailing { session_id := "s" } .empty
        { user_id := "u", message := "hi" }).result = .ok { content := text, session_id := "s" } ∧
      AccountsFor .bare text
        ((chatBatches .bare (cappedSettings 5) readRegistry halfFailing { session_id := "s" } .empty
          { user_id := "u", message := "hi" }).flatMap
            (ChatBatch.results .bare (cappedSettings 5) readRegistry halfFailing)) done errors ∧
      done.length + errors.length = 4 := by
  obtain ⟨text, done, errors, hresult, -, haccounts, -, hcount, -⟩ :=
    fallback_accounts .bare (cappedSettings 5) readRegistry halfFailing { session_id := "s" } .empty
      { user_id := "u", message := "hi" } ⟨by decide, fun _ _ => rfl⟩
  exact ⟨text, done, errors, hresult, haccounts, hcount⟩

/-- With a cap of -1 each round executes one of its two calls, which is not the smaller of 2 and
-1. -/
theorem negative_cap_executes :
    ¬ ∀ cfg : AgentConfig,
      EndsAtLimit .bare cfg readRegistry halfFailing { session_id := "s" } .empty
        { user_id := "u", message := "hi" } →
      ∃ text done errors,
        (chat .bare cfg readRegistry halfFailing { session_id := "s" } .empty
          { user_id := "u", message := "hi" }).result =
            .ok { content := text, session_id := "s" } ∧
        AccountsFor .bare text
          ((chatBatches .bare cfg readRegistry halfFailing { session_id := "s" } .empty
            { user_id := "u", message := "hi" }).flatMap
              (ChatBatch.results .bare cfg readRegistry halfFailing)) done errors ∧
        (done.length + errors.length : ℤ) =
          ((List.range cfg.max_chain_depth.toNat).map fun d =>
            min ((halfFailing.replyCalls d).length : ℤ) cfg.max_tool_calls_per_turn).sum := by
  intro h
  obtain ⟨text, done, errors, -, haccounts, hcount⟩ :=
    h (cappedSettings (-1)) ⟨by decide, fun _ _ => rfl⟩
  -- One of the two calls is executed, but the minimum with the cap is `-1` in each round.
  have hlength := haccounts.count
  have hresults : ((chatBatches .bare (cappedSettings (-1)) readRegistry halfFailing
      { session_id := "s" } .empty { user_id := "u", message := "hi" }).flatMap
        (ChatBatch.results .bare (cappedSettings (-1)) readRegistry halfFailing)).length = 2 := by
    decide
  have hmin : ((List.range (cappedSettings (-1)).max_chain_depth.toNat).map fun d =>
      min ((halfFailing.replyCalls d).length : ℤ)
        (cappedSettings (-1)).max_tool_calls_per_turn).sum = -2 := by
    decide
  omega

end YellowBull
