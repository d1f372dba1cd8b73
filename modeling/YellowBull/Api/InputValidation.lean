import YellowBull.Agent.Exits
import YellowBull.Api.Server

/-!
# Input validation

`InputValidator` of `core/security/input_validation.py`, against the three ways in for a message.
`create_app` makes a validator for the chat endpoints, and no endpoint calls it. So a message that
the validator has an error for is recorded in a session by `Agent.chat` as any other, which every
run of `chat` does before the first call of the LLM. `stream_chat_response` raises before it has
looked at the message.
-/

namespace YellowBull

open Py

/-- `ValidationResult`. -/
structure ValidationResult where
  is_valid : Bool
  errors : List String := []
  warnings : List String := []

/-- `InputValidator`. -/
structure InputValidator where
  max_length : ℤ := 4096
  injection_detection : Bool := true

/-- `InputValidator.validate`, with what the patterns of `_INJECTION_PATTERNS` find in a text. -/
def InputValidator.validate (patterns : List (String → Option String)) (v : InputValidator)
    (text : String) : ValidationResult :=
  let errors :=
    if v.max_length < text.length then
      ["Input too long: " ++ toString text.length ++ " chars (max " ++ toString v.max_length ++ ")"]
    else []
  let warnings :=
    if v.injection_detection then
      (patterns.filterMap fun search => search text).map fun found =>
        "Suspicious pattern detected: '" ++ found ++ "'"
    else []
  { is_valid := errors.length = 0, errors, warnings }

/-- The text is over the length. -/
theorem validate_errors_ne_nil (patterns : List (String → Option String)) (v : InputValidator)
    (text : String) : (v.validate patterns text).errors ≠ [] ↔ v.max_length < text.length := by
  unfold InputValidator.validate
  simp

/-- The `_input_validator` of `create_app`. -/
def SecuritySettings.inputValidator {τ : Type*} (sec : SecuritySettings τ) : InputValidator where
  max_length := sec.max_message_length
  injection_detection := sec.prompt_injection_detection

/-- A way in for a message, with what comes beside it. -/
inductive MessageEntry where
  | post (route : ChatRoute) (session_id : Option String) (user_id : String)
  /-- A frame of a conversation. -/
  | frame (c : Conversation) (user_id : Option String)

section Entries

variable (P : Platform) (cfg : AgentConfig) (reg : ToolRegistry)

/-- A message that comes in: what the agent was given, and what it did. -/
def MessageEntry.receive (message : String) (out : Outside) (h : AgentState MemoryStore) :
    MessageEntry → Served
  | .post route session_id user_id =>
    handlePost P cfg reg route { session_id, user_id, message } out h
  | .frame c user_id => websocketChat P cfg reg c [(.data (some message) user_id, out)] h

/-- If the validator has an error for the message, the LLM does not see it, and no session has
changed. -/
def ValidatedFirst {τ : Type*} (sec : SecuritySettings τ)
    (patterns : List (String → Option String)) (entry : MessageEntry) (message : String)
    (out : Outside) (h : AgentState MemoryStore) : Prop :=
  (sec.inputValidator.validate patterns message).errors ≠ [] →
    (entry.receive P cfg reg message out h).llm_calls = [] ∧
      (entry.receive P cfg reg message out h).agent.world = h.world

/-- The entry is `POST /api/chat/stream`. -/
def MessageEntry.Streams : MessageEntry → Prop
  | .post .stream _ _ => True
  | _ => False

variable {P cfg reg}

/-- `Agent.chat` always changes a session: it makes one, or it records the message in one. -/
theorem chat_world_ne (h : AgentState MemoryStore) (request : ChatRequest) (session_id : String)
    (now : Time) (O : Behaviour) :
    (h.chat P cfg reg agentSessions request session_id now O).1.world ≠ h.world := by
  unfold AgentState.chat agentSessions
  rw [getOrCreateSession_memory]
  intro hworld
  have hheap := congrArg World.heap hworld
  cases hfound : request.sessionRef h.world.store with
  | some session =>
    simp only [hfound] at hheap
    obtain ⟨rest, hrest⟩ := chat_messages P cfg reg O (h.world.heap.read session) h.cache request
    -- The session has at least the message more.
    have hread := congrArg (fun heap => (heap.read session).messages.length) hheap
    simp [hrest] at hread
  | none =>
    simp only [hfound] at hheap
    -- There is one object more.
    have hnext := congrArg Heap.next hheap
    simp [Heap.write, Heap.alloc] at hnext

/-- A frame of its own is a chat. -/
theorem websocketChat_agent (c : Conversation) (message user_id : Option String) (out : Outside)
    (h : AgentState MemoryStore) :
    (websocketChat P cfg reg c [(.data message user_id, out)] h).agent =
      (h.chat P cfg reg agentSessions ((c.receive user_id).request message) out.session_id out.now
        out.chat).1 := by
  simp only [websocketChat]
  split <;> rfl

/-- A message is validated before it is used when the validator has no error for it, and on the
entry that does not use it. -/
theorem validatedFirst_iff {τ : Type*} (sec : SecuritySettings τ)
    (patterns : List (String → Option String)) (entry : MessageEntry) (message : String)
    (out : Outside) (h : AgentState MemoryStore) :
    ValidatedFirst P cfg reg sec patterns entry message out h ↔
      (message.length : ℤ) ≤ sec.max_message_length ∨ entry.Streams := by
  unfold ValidatedFirst
  rw [validate_errors_ne_nil]
  change (sec.max_message_length < _ → _) ↔ _
  by_cases hlong : sec.max_message_length < message.length
  · -- The validator has an error for the message.
    simp only [hlong, not_le.mpr hlong, true_imp_iff, false_or]
    cases entry with
    | post route requested user_id =>
      cases route with
      | chat =>
        simp only [MessageEntry.Streams, iff_false, not_and]
        exact fun _ => chat_world_ne h _ _ _ _
      | stream =>
        simp only [MessageEntry.Streams, iff_true, MessageEntry.receive, handlePost]
        rw [streamChatResponse_eq]
        exact ⟨rfl, rfl⟩
    | frame c user_id =>
      simp only [MessageEntry.Streams, iff_false, not_and, MessageEntry.receive]
      rw [websocketChat_agent]
      exact fun _ => chat_world_ne h _ _ _ _
  · simp [hlong, not_lt.mp hlong]

end Entries

/-- A message of five characters where three are allowed. -/
theorem not_validatedFirst_chat :
    let sec : SecuritySettings ℤ := { rate_limit_window_seconds := 60, max_message_length := 3 }
    ¬ ValidatedFirst .bare { system_prompt := "p" } .empty sec [] (.post .chat none "u") "hello"
      ⟨"s", 0, .scripted [{ content := some "ok" }] (.error ⟨.other, ""⟩), .deltas []⟩
      (.start .empty) := by
  intro sec h
  have hcalls := (h (by decide)).1
  revert hcalls
  decide

end YellowBull
