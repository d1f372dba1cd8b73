import YellowBull.OpenAIProvider

/-!
# What a request to OpenAI says

The request has the messages and the tools as values, under names. Read back, it gives the tools and
the messages as they are sent (`readBack_chat`): a TOOL message with a text and with the id that
it answers, an ASSISTANT message with its tool calls, if it has any, and nothing else of a message
but its role and its content. So two lists of messages make the same request just if they are sent
alike (`formatMessages_eq_iff`).
-/

namespace YellowBull

open Py

/-! ## What is sent -/

/-- The message that is sent for a message. -/
def LLMMessage.sent (msg : LLMMessage) : LLMMessage :=
  match msg.role with
  | .tool =>
    { role := .tool, content := some (msg.content.getD ""), tool_call_id := msg.tool_call_id }
  | .assistant =>
    { role := .assistant, content := msg.content
      tool_calls := if msg.tool_calls.getD [] = [] then none else msg.tool_calls }
  | role => { role, content := msg.content }

/-! ## Reading -/

/-- The role with a value. -/
def readRole (value : String) : Option Role :=
  [Role.system, .user, .assistant, .tool].find? (·.value = value)

/-- A text, and `None` for anything else. -/
def readText : Val → Option String
  | .str text => some text
  | _ => none

/-- A dict, and nothing for anything else. -/
def readDict : Val → Option Dict
  | .dict d => some d
  | _ => none

/-- The dicts of a list. -/
def readDicts : Val → List Dict
  | .list xs => xs.filterMap readDict
  | _ => []

/-- The message that an entry of a request stands for. -/
def readMessage (entry : Dict) : Option LLMMessage :=
  (((entry.lookup "role").bind readText).bind readRole).map fun role =>
    { role
      content := (entry.lookup "content").bind readText
      tool_calls := (entry.lookup "tool_calls").map readDicts
      tool_call_id := (entry.lookup "tool_call_id").getD .none }

/-- The messages and the tools of a request. -/
def readBack (request : Dict) : Option (List LLMMessage × List Dict) :=
  ((readDicts ((request.lookup "messages").getD .none)).mapM readMessage).map fun messages =>
    (messages, readDicts ((request.lookup "tools").getD .none))

/-! ## The round trip -/

/-- A role is read back from its name. -/
theorem readRole_value (role : Role) : readRole role.value = some role := by
  cases role <;> decide

/-- A text is read back from its value. -/
@[simp]
theorem readText_str (text : String) : readText (.str text) = some text := rfl

/-- The content of a message is read back from its value. -/
@[simp]
theorem readText_contentVal (msg : LLMMessage) : readText msg.contentVal = msg.content := by
  unfold LLMMessage.contentVal
  cases msg.content <;> rfl

/-- The dicts of a list of dicts. -/
theorem readDicts_map (ds : List Dict) : readDicts (.list (ds.map .dict)) = ds := by
  have hdict : readDict ∘ Val.dict = some := rfl
  rw [readDicts, List.filterMap_map, hdict, List.filterMap_some]

/-- An entry is read as the message that is sent. -/
theorem readMessage_formatMessage (msg : LLMMessage) :
    readMessage (formatMessage msg) = some msg.sent := by
  have hrole := readRole_value msg.role
  unfold formatMessage LLMMessage.sent readMessage
  -- The branches of the source.
  cases hr : msg.role with
  | tool =>
    rw [hr] at hrole
    simp [List.lookup_cons, hrole]
  | assistant =>
    rw [hr] at hrole
    by_cases hcalls : msg.tool_calls.getD [] = []
    · simp [hcalls, List.lookup_cons, hrole]
    · have hsome : some (msg.tool_calls.getD []) = msg.tool_calls := by
        cases htool : msg.tool_calls with
        | none => exact absurd (by rw [htool]; rfl) hcalls
        | some calls => rfl
      simp [hcalls, List.lookup_cons, hrole, readDicts_map, hsome]
  | system =>
    rw [hr] at hrole
    simp [List.lookup_cons, hrole]
  | user =>
    rw [hr] at hrole
    simp [List.lookup_cons, hrole]

/-- The entries are read as the messages that are sent. -/
theorem mapM_readMessage (msgs : List LLMMessage) :
    (formatMessages msgs).mapM readMessage = some (msgs.map LLMMessage.sent) := by
  unfold formatMessages
  induction msgs with
  | nil => rfl
  | cons msg msgs ih =>
    rw [List.map_cons, List.mapM_cons, readMessage_formatMessage, ih]
    rfl

/-- Two lists of messages make the same entries just if they are sent alike. -/
theorem formatMessages_eq_iff {msgs msgs' : List LLMMessage} :
    formatMessages msgs = formatMessages msgs' ↔
      msgs.map LLMMessage.sent = msgs'.map LLMMessage.sent := by
  constructor
  · intro h
    have hread := mapM_readMessage msgs
    rw [h, mapM_readMessage] at hread
    exact (Option.some.inj hread).symm
  · intro h
    -- An entry is made from what is sent.
    have hsent (msg : LLMMessage) : formatMessage msg.sent = formatMessage msg := by
      obtain ⟨role, content, tool_calls, tool_call_id⟩ := msg
      cases role with
      | assistant =>
        unfold LLMMessage.sent formatMessage
        by_cases hcalls : tool_calls.getD [] = []
        · simp [hcalls, LLMMessage.contentVal]
        · simp [hcalls, LLMMessage.contentVal]
      | tool => rfl
      | system => rfl
      | user => rfl
    have hmap (msgs : List LLMMessage) :
        formatMessages msgs = formatMessages (msgs.map LLMMessage.sent) := by
      unfold formatMessages
      rw [List.map_map]
      exact List.map_congr_left fun msg _ => (hsent msg).symm
    rw [hmap msgs, h, ← hmap msgs']

/-- A request is read as its messages, as they are sent, and its tools. -/
theorem readBack_chat (llm : OpenAILLM) (msgs : List LLMMessage) (tools : List Dict)
    (stream : Bool) :
    readBack (llm.chat msgs tools stream) = some (msgs.map LLMMessage.sent, tools) := by
  have hmessages : (llm.chat msgs tools stream).lookup "messages" =
      some (.list ((formatMessages msgs).map .dict)) := rfl
  -- Without tools the key is missing, which reads back as no tools as well.
  have htools : readDicts (((llm.chat msgs tools stream).lookup "tools").getD .none) = tools := by
    unfold OpenAILLM.chat
    cases tools with
    | nil => cases stream <;> rfl
    | cons tool tools =>
      have hlookup (pre : Dict) (hpre : pre.lookup "tools" = none) (v : Val) :
          (pre ++ [("tools", v)]).lookup "tools" = some v := by
        rw [List.lookup_append, hpre]
        rfl
      rw [if_neg (List.cons_ne_nil _ _), hlookup _ (by cases stream <;> rfl), Option.getD_some,
        readDicts_map]
  unfold readBack
  rw [hmessages, Option.getD_some, readDicts_map, mapM_readMessage, htools]
  rfl

end YellowBull
