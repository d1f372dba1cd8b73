import YellowBull.Agent.Transcript
import YellowBull.Lib.Except

/-!
# How a chat leaves its session

The two exits of `Agent.chat`. When it returns, it has recorded the USER message, at most
`max_chain_depth` complete rounds, and one last ASSISTANT message without tool calls
(`chat_returns_shape`). When it raises, the session keeps the invariant that every tool call is
answered right behind its message, except where decoding the tool calls of a reply raised, or an
exception was thrown in while they were executed (`chat_raises_answered_iff`): the ASSISTANT message
is recorded first, and its TOOL messages never follow.
-/

namespace YellowBull

open Py CallBlocks

/-! ## Replies whose tool calls can be decoded -/

/-- A tool call that `_build_tool_requests` can decode: `function` is a dict with a `name`, and its
`arguments` are missing or a text on which `json.loads` raises nothing but an exception that the
code catches. -/
def Decodable (P : Platform) (tc : ToolCall) : Prop :=
  ∃ fields name, tc.lookup "function" = some (.dict fields) ∧ fields.lookup "name" = some name ∧
    (fields.lookup "arguments" = none ∨ ∃ text, fields.lookup "arguments" = some (.str text) ∧
      ∀ e, P.loads text = .error e → e.cls = .jsonDecodeError ∨ e.cls = .keyError)

/-- A dict's `d[key]` gives the value under the key. -/
theorem dict_item_ok {d : Dict} {key : String} {v : Val} :
    Py.Dict.item d key = .ok v ↔ d.lookup key = some v := by
  unfold Py.Dict.item Val.item
  cases h : d.lookup key <;> simp [h]

/-- A subscript with a string works on dicts only. -/
theorem item_ok {x : Val} {key : String} {v : Val} :
    x.item key = .ok v ↔ ∃ fields, x = .dict fields ∧ fields.lookup key = some v := by
  cases x with
  | dict fields =>
    have h : (Val.dict fields).item key = .ok v ↔ fields.lookup key = some v := dict_item_ok
    simp [h]
  | _ => simp [Val.item]

/-- The `try` block on a call whose `function` is a dict. -/
theorem decodeArguments_ok_iff {P : Platform} {tc : ToolCall} {fields : Dict}
    (hf : tc.lookup "function" = some (.dict fields)) :
    (∃ args, decodeArguments P tc = .ok args) ↔
      (fields.lookup "arguments" = none ∨ ∃ text, fields.lookup "arguments" = some (.str text) ∧
        ∀ e, P.loads text = .error e → e.cls = .jsonDecodeError ∨ e.cls = .keyError) := by
  have hfun : Py.Dict.item tc "function" = .ok (.dict fields) := dict_item_ok.mpr hf
  unfold decodeArguments
  simp only [hfun, Except.bind, bind]
  cases ha : fields.lookup "arguments" with
  | none => simp [Val.item, ha, Exn.keyError]
  | some v =>
    have hitem : (Val.dict fields).item "arguments" = .ok v := item_ok.mpr ⟨fields, rfl, ha⟩
    simp only [hitem]
    cases v with
    | str text =>
      simp only [jsonLoads]
      cases hl : P.loads text with
      | ok args => simp [hl]
      | error e =>
        -- Only two of the classes are caught.
        obtain ⟨cls, msg⟩ := e
        cases cls <;> simp [hl]
    -- `json.loads` of anything but a text raises a `TypeError`, which is not caught.
    | _ => simp [jsonLoads]

/-- `_build_tool_requests` gets past a call exactly when it can be decoded. -/
theorem buildToolRequest_ok_iff {P : Platform} {tc : ToolCall} :
    (∃ req, buildToolRequest P tc = .ok req) ↔ Decodable P tc := by
  constructor
  · rintro ⟨req, h⟩
    obtain ⟨function, hfun, h⟩ := Except.bind_eq_ok.mp h
    obtain ⟨name, hname, h⟩ := Except.bind_eq_ok.mp h
    obtain ⟨args, hargs, -⟩ := Except.bind_eq_ok.mp h
    obtain ⟨fields, rfl, hlookup⟩ := item_ok.mp hname
    have hfun := dict_item_ok.mp hfun
    exact ⟨fields, name, hfun, hlookup, (decodeArguments_ok_iff hfun).mp ⟨args, hargs⟩⟩
  · rintro ⟨fields, name, hfun, hname, hargs⟩
    obtain ⟨args, hargs⟩ := (decodeArguments_ok_iff hfun).mpr hargs
    refine ⟨⟨name, args⟩, Except.bind_eq_ok.mpr ⟨_, dict_item_ok.mpr hfun, ?_⟩⟩
    refine Except.bind_eq_ok.mpr ⟨name, item_ok.mpr ⟨fields, rfl, hname⟩, ?_⟩
    exact Except.bind_eq_ok.mpr ⟨args, hargs, rfl⟩

/-- `_build_tool_requests` gets through a reply exactly when it can decode each of the calls that
the cap leaves. -/
theorem buildToolRequests_ok_iff {P : Platform} {cfg : AgentConfig} {calls : List ToolCall} :
    (∃ requests, buildToolRequests P cfg calls = .ok requests) ↔
      ∀ tc ∈ sliceTo calls cfg.max_tool_calls_per_turn, Decodable P tc := by
  unfold buildToolRequests
  rw [Except.exists_mapM_eq_ok]
  simp only [buildToolRequest_ok_iff]

/-! ## A chat that returns -/

section Chat

variable {P : Platform} {cfg : AgentConfig} {reg : ToolRegistry} {O : Behaviour} {s : Session}
variable {cache : Cache} {request : ChatRequest}

/-- The transcript of a whole call of `chat`. -/
theorem chat_transcript (P : Platform) (cfg : AgentConfig) (reg : ToolRegistry) (O : Behaviour)
    (s : Session) (cache : Cache) (request : ChatRequest) :
    ∃ rounds tail, Transcript P cfg reg O cfg.max_chain_depth.toNat 0
      (s.addMessages (O.clock 0) [userMessage request]) cache (chat P cfg reg O s cache request)
      rounds tail :=
  chatLoop_transcript _ _ _ _ _

/-- A chat leaves the session under its id. -/
theorem chat_session_id (P : Platform) (cfg : AgentConfig) (reg : ToolRegistry) (O : Behaviour)
    (s : Session) (cache : Cache) (request : ChatRequest) :
    (chat P cfg reg O s cache request).session.session_id = s.session_id := by
  unfold chat
  rw [chatLoop_keeps Session.session_id Session.addMessages_session_id fun _ => rfl]
  exact Session.addMessages_session_id ..

/-- A response names the session of the chat. -/
theorem chat_response_session_id {response : ChatResponse}
    (h : (chat P cfg reg O s cache request).result = .ok response) :
    response.session_id = s.session_id := by
  obtain ⟨rounds, tail, ht⟩ := chat_transcript P cfg reg O s cache request
  have hid : (s.addMessages (O.clock 0) [userMessage request]).session_id = s.session_id :=
    Session.addMessages_session_id ..
  -- The answer and the fallback return, the other endings raise.
  rcases ht.ending with ⟨reply, -, -, -, hres, -⟩ | ⟨-, hres, -⟩ | ⟨e, -, hres, -⟩ |
    ⟨e, -, -, hres, -⟩ | ⟨reply, e, -, -, -, -, hres, -⟩
  · obtain rfl := Except.ok.inj (hres.symm.trans h)
    exact hid
  · obtain rfl := Except.ok.inj (hres.symm.trans h)
    exact hid
  · cases hres.symm.trans h
  · cases hres.symm.trans h
  · cases hres.symm.trans h

/-- A chat leaves the session to its user. -/
theorem chat_user_id (P : Platform) (cfg : AgentConfig) (reg : ToolRegistry) (O : Behaviour)
    (s : Session) (cache : Cache) (request : ChatRequest) :
    (chat P cfg reg O s cache request).session.user_id = s.user_id := by
  unfold chat
  rw [chatLoop_keeps Session.user_id Session.addMessages_user_id fun _ => rfl]
  exact Session.addMessages_user_id ..

/-- A chat records its request first, whatever happens. -/
theorem chat_messages (P : Platform) (cfg : AgentConfig) (reg : ToolRegistry) (O : Behaviour)
    (s : Session) (cache : Cache) (request : ChatRequest) :
    ∃ rest, (chat P cfg reg O s cache request).session.messages =
      s.messages ++ userMessage request :: rest := by
  obtain ⟨rounds, tail, ht⟩ := chat_transcript P cfg reg O s cache request
  exact ⟨rounds.flatten ++ tail, by rw [ht.messages]; simp⟩

/-- A chat records a message. -/
theorem chat_messages_ne_nil (P : Platform) (cfg : AgentConfig) (reg : ToolRegistry) (O : Behaviour)
    (s : Session) (cache : Cache) (request : ChatRequest) :
    (chat P cfg reg O s cache request).session.messages ≠ [] := by
  obtain ⟨rest, hrest⟩ := chat_messages P cfg reg O s cache request
  rw [hrest]
  simp

/-- What a chat that returned `response` has recorded on `s`: its USER message, complete rounds, and
a last ASSISTANT message without tool calls. -/
structure Returned (O : Behaviour) (P : Platform) (cfg : AgentConfig) (s : Session)
    (request : ChatRequest) (run : ChatRun) (response : ChatResponse)
    (rounds : List (List Message)) (last : Message) : Prop where
  messages : run.session.messages =
    s.messages ++ userMessage request :: (rounds.flatten ++ [last])
  length_le : (rounds.length : ℤ) ≤ cfg.max_chain_depth
  complete : ∀ j (h : j < rounds.length), ∃ reply, O.llm j = .ok reply ∧ reply.tool_calls ≠ [] ∧
    IsRound reply rounds[j]
  last_role : last.role = .assistant
  last_calls : last.tool_calls = none
  /-- The LLM ended the chat, or the depth limit did. -/
  ended : (∃ reply, O.llm rounds.length = .ok reply ∧ reply.tool_calls = [] ∧
      run.llm_calls.length = rounds.length + 1 ∧ last.content = reply.content ∧
      response.content = reply.content.getD "") ∨
    ((rounds.length : ℤ) = cfg.max_chain_depth ∧ run.llm_calls.length = rounds.length ∧
      last.content = some response.content ∧
      response.content = fallbackText P run.tool_results_log)

/-- Every chat that returns, with no other writer on its session, has recorded one USER message,
complete rounds, and one last ASSISTANT message. -/
theorem chat_returns_shape {response : ChatResponse} (hdepth : 0 ≤ cfg.max_chain_depth)
    (hok : (chat P cfg reg O s cache request).result = .ok response) :
    ∃ rounds last,
      Returned O P cfg s request (chat P cfg reg O s cache request) response rounds last := by
  obtain ⟨rounds, tail, ht⟩ := chat_transcript P cfg reg O s cache request
  have hmsgs := ht.messages
  rw [Session.addMessages_messages, List.append_assoc] at hmsgs
  have hcomplete : ∀ j (h : j < rounds.length), ∃ reply, O.llm j = .ok reply ∧
      reply.tool_calls ≠ [] ∧ IsRound reply rounds[j] := by
    intro j hj
    obtain ⟨reply, hr, hc, -, hround⟩ := ht.complete j hj
    exact ⟨reply, by simpa using hr, hc, hround⟩
  rcases ht.ending with ⟨reply, hk, hr, hc, hres, hcalls⟩ | ⟨hk, hres, hcalls⟩ |
    ⟨e, -, hres, -⟩ | ⟨e, -, -, hres, -⟩ | ⟨-, e, -, -, -, -, hres, -⟩
  · -- The LLM ended the chat.
    obtain rfl := Except.ok.inj (hok.symm.trans hres)
    refine ⟨rounds, finalMessage reply, hmsgs, by omega, hcomplete, rfl, rfl, .inl ?_⟩
    exact ⟨reply, by simpa using hr, hc, hcalls, rfl, rfl⟩
  · -- The depth limit ended it.
    obtain rfl := Except.ok.inj (hok.symm.trans hres)
    exact ⟨rounds, _, hmsgs, by omega, hcomplete, rfl, rfl, .inr ⟨by omega, hcalls, rfl, rfl⟩⟩
  -- The endings that raise.
  all_goals
    rw [hres] at hok
    cases hok

end Chat

/-- A tool call without arguments, as a provider returns it. -/
def plainCall (id name : String) : ToolCall :=
  [("id", .str id), ("function", .dict [("name", .str name), ("arguments", .str "\x7b\x7d")])]

/-- The outside of a chat of one round and an answer. -/
def oneRound : Behaviour :=
  .scripted [{ tool_calls := [plainCall "c1" "read"] }, { content := some "done" }] (.ok {})

/-- That chat, on a new session. -/
def oneRoundRun : ChatRun :=
  chat .bare { system_prompt := "p" } .empty oneRound { session_id := "s" } .empty
    { user_id := "u", message := "hi" }

/-- It has the shape. -/
theorem chat_returns_shape_one_round :
    ∃ rounds last, Returned oneRound .bare { system_prompt := "p" } { session_id := "s" }
      { user_id := "u", message := "hi" } oneRoundRun ⟨"done", "s", none⟩ rounds last :=
  chat_returns_shape (by decide) (by decide)

/-! ## A chat that raises -/

/-- The invariant of a session's log: the tool calls of each ASSISTANT message are answered, in
order, by the TOOL messages right behind it. -/
def CallsAnswered (msgs : List Message) : Prop := Answered Message.callIds Message.answerId msgs

instance (msgs : List Message) : Decidable (CallsAnswered msgs) :=
  inferInstanceAs (Decidable (Answered _ _ _))

/-- Every reply that the LLM gives during the chat has only tool calls, up to the cap, that can be
decoded. -/
def RepliesDecodable (P : Platform) (cfg : AgentConfig) (O : Behaviour) (run : ChatRun) : Prop :=
  ∀ d < run.llm_calls.length, ∀ reply, O.llm d = .ok reply →
    ∀ tc ∈ sliceTo reply.tool_calls cfg.max_tool_calls_per_turn, Decodable P tc

/-- No exception is thrown into the chat while it awaits the batch of a reply. -/
def Uninterrupted (O : Behaviour) (run : ChatRun) : Prop :=
  ∀ d < run.llm_calls.length, ∀ reply, O.llm d = .ok reply → reply.tool_calls ≠ [] →
    O.interrupt d = none

/-- A complete round is a block: its ASSISTANT message, followed by the answers to its calls. -/
theorem IsRound.blocks {reply : LLMResponse} {block : List Message} (h : IsRound reply block) :
    Blocks Message.callIds Message.answerId block := by
  obtain ⟨tools, rfl, htools⟩ := h
  have hblock : Blocks Message.callIds Message.answerId (callMessage reply :: (tools ++ [])) :=
    .cons rfl (map_answerId htools) .nil
  rwa [List.append_nil] at hblock

/-- Complete rounds are blocks. -/
theorem Transcript.rounds_blocks {P : Platform} {cfg : AgentConfig} {reg : ToolRegistry}
    {O : Behaviour} {n d : ℕ} {s : Session} {cache : Cache} {run : ChatRun}
    {rounds : List (List Message)} {tail : List Message}
    (ht : Transcript P cfg reg O n d s cache run rounds tail) :
    Blocks Message.callIds Message.answerId rounds.flatten := by
  refine .flatten fun block hblock => ?_
  obtain ⟨j, hj, rfl⟩ := List.mem_iff_getElem.mp hblock
  obtain ⟨reply, -, -, -, hround⟩ := ht.complete j hj
  exact hround.blocks

/-- The replies of complete rounds were decoded. -/
theorem Transcript.rounds_decodable {P : Platform} {cfg : AgentConfig} {reg : ToolRegistry}
    {O : Behaviour} {n : ℕ} {s : Session} {cache : Cache} {run : ChatRun}
    {rounds : List (List Message)} {tail : List Message}
    (ht : Transcript P cfg reg O n 0 s cache run rounds tail) {d : ℕ} (hd : d < rounds.length)
    {reply : LLMResponse} (hreply : O.llm d = .ok reply) :
    ∀ tc ∈ sliceTo reply.tool_calls cfg.max_tool_calls_per_turn, Decodable P tc := by
  obtain ⟨reply', hreply', -, hbuild, -⟩ := ht.complete d hd
  rw [Nat.zero_add, hreply] at hreply'
  obtain rfl := Except.ok.inj hreply'
  exact buildToolRequests_ok_iff.mp hbuild

section Chat

variable {P : Platform} {cfg : AgentConfig} {reg : ToolRegistry} {O : Behaviour} {s : Session}
variable {cache : Cache} {request : ChatRequest}

/-- A chat that raises on a session whose calls are answered leaves them answered exactly when it
could decode the tool calls of every reply and no exception was thrown in while they were
executed. -/
theorem chat_raises_answered_iff {e : Exn} (hs : CallsAnswered s.messages)
    (hraise : (chat P cfg reg O s cache request).result = .error e) :
    CallsAnswered (chat P cfg reg O s cache request).session.messages ↔
      RepliesDecodable P cfg O (chat P cfg reg O s cache request) ∧
        Uninterrupted O (chat P cfg reg O s cache request) := by
  obtain ⟨rounds, tail, ht⟩ := chat_transcript P cfg reg O s cache request
  generalize chat P cfg reg O s cache request = run at ht hraise ⊢
  have hmsgs := ht.messages
  rw [Session.addMessages_messages] at hmsgs
  -- Up to the last complete round, calls are answered.
  have hdone : Answered Message.callIds Message.answerId
      (s.messages ++ [userMessage request] ++ rounds.flatten) :=
    (Answered.append hs (Answered.singleton rfl)).append
      (ht.rounds_blocks.answered Message.callIds_of_answer)
  have hawaited : ∀ d < rounds.length, O.interrupt d = none := by
    intro d hd
    have h := ht.awaited d hd
    rwa [Nat.zero_add] at h
  rcases ht.ending with ⟨reply, -, -, -, hres, -⟩ | ⟨-, hres, -⟩ | ⟨e', -, -, hcalls⟩ |
    ⟨e', -, hr, -, hcalls⟩ | ⟨reply, e', -, hr, hsome, hopen, -, hcalls⟩
  -- The two endings that return.
  · rw [hres] at hraise
    cases hraise
  · rw [hres] at hraise
    cases hraise
  · -- Building the context raised, after `rounds.length` replies.
    rw [List.append_nil] at hmsgs
    refine ⟨fun _ => ⟨?_, ?_⟩, fun _ => ?_⟩
    · intro d hd reply hreply
      exact ht.rounds_decodable (by omega) hreply
    · intro d hd reply hreply hcalled
      exact hawaited d (by omega)
    · rw [hmsgs]
      exact hdone
  · -- `llm.chat` raised in the next round, so that no reply is added.
    rw [List.append_nil] at hmsgs
    rw [Nat.zero_add] at hr
    have hearlier : ∀ d < run.llm_calls.length, ∀ reply, O.llm d = .ok reply →
        d < rounds.length := by
      intro d hd reply hreply
      have hlast : d ≠ rounds.length := by
        rintro rfl
        cases hr.symm.trans hreply
      omega
    refine ⟨fun _ => ⟨?_, ?_⟩, fun _ => ?_⟩
    · intro d hd reply hreply
      exact ht.rounds_decodable (hearlier d hd reply hreply) hreply
    · intro d hd reply hreply hcalled
      exact hawaited d (hearlier d hd reply hreply)
    · rw [hmsgs]
      exact hdone
  · -- The ASSISTANT message is the last one, and it makes calls.
    rw [Nat.zero_add] at hr hopen
    refine iff_of_false ?_ ?_
    · intro h
      rw [hmsgs, ← List.append_assoc] at h
      have hnone : (callMessage reply).callIds = [] := Answered.calls_last h
      exact hsome (List.map_eq_nil_iff.mp hnone)
    · rintro ⟨hdecodable, hawaits⟩
      rcases hopen with hbuild | ⟨-, hinterrupt⟩
      · obtain ⟨requests, hok⟩ :=
          buildToolRequests_ok_iff.mpr (hdecodable rounds.length (by omega) reply hr)
        rw [hbuild] at hok
        cases hok
      · rw [hawaits rounds.length (by omega) reply hr hsome] at hinterrupt
        cases hinterrupt

end Chat

/-- A chat whose second call of the LLM fails. -/
theorem chat_raises_answered_iff_llm_failure :
    CallsAnswered (chat .bare { system_prompt := "p" } .empty
        (.scripted [{ tool_calls := [plainCall "c1" "read"] }] (.ok {}))
        { session_id := "s" } .empty { user_id := "u", message := "hi" }).session.messages ↔
      RepliesDecodable .bare { system_prompt := "p" }
        (.scripted [{ tool_calls := [plainCall "c1" "read"] }] (.ok {}))
        (chat .bare { system_prompt := "p" } .empty
          (.scripted [{ tool_calls := [plainCall "c1" "read"] }] (.ok {}))
          { session_id := "s" } .empty { user_id := "u", message := "hi" }) ∧
      Uninterrupted (.scripted [{ tool_calls := [plainCall "c1" "read"] }] (.ok {}))
        (chat .bare { system_prompt := "p" } .empty
          (.scripted [{ tool_calls := [plainCall "c1" "read"] }] (.ok {}))
          { session_id := "s" } .empty { user_id := "u", message := "hi" }) :=
  chat_raises_answered_iff (e := ⟨.other, "Internal Server Error"⟩) (by decide) (by decide)

/-- A chat on a new session whose first reply has a tool call with `arguments` that are an object
already. -/
def decodedArgumentsRun : ChatRun :=
  chat .bare { system_prompt := "p" } .empty
    (.scripted [{ tool_calls := [[("id", .str "c1"),
      ("function", .dict [("name", .str "read"), ("arguments", .dict [])])]] }] (.ok {}))
    { session_id := "s" } .empty { user_id := "u", message := "hi" }

/-- That chat raises and leaves the tool call in the session without an answer. -/
theorem chat_raises_with_open_call :
    CallsAnswered [] ∧
      decodedArgumentsRun.result = .error
        ⟨.typeError, "the JSON object must be str, bytes or bytearray, not dict"⟩ ∧
      ¬ CallsAnswered decodedArgumentsRun.session.messages := by
  decide

end YellowBull
