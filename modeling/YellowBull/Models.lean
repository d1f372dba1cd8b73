import Mathlib.Data.Rat.Init
import YellowBull.Lib.Slice
import YellowBull.Lib.Value

/-!
# Messages, sessions and the platform

The data of `models/message.py`, `models/session.py` and `llm/base.py`, with the methods of
`Session`, and the functions from outside the repository that the code calls (`Platform`).

Timestamps that are only displayed (`created_at`) and the random message ids, which no function
reads, are left out. `updated_at` stays, since the expiry of sessions depends on it.
-/

namespace YellowBull

open Py

/-- The functions that the code takes from third-party packages and from the standard library
without the model looking inside. -/
structure Platform where
  /-- `json.loads` on a text: the value, or the exception that it raises. -/
  loads : String → Except Exn Val
  /-- The number of `cl100k_base` tokens that `tiktoken` gives for a text, none where importing or
  running it raises. -/
  tiktoken : String → Option ℕ
  /-- The hexadecimal SHA-256 digest of the UTF-8 encoding of a text. -/
  sha256 : String → String
  /-- `str` of a value that is not a string. -/
  repr : Val → String
  /-- The number that a float is, by its `repr`, none for infinity. -/
  seconds : String → Option ℚ

/-- A value inside an f-string. -/
def Platform.fmt (P : Platform) : Val → String
  | .str s => s
  | v => P.repr v

/-- `json.loads(value)`. -/
def jsonLoads (P : Platform) : Val → Except Exn Val
  | .str text => P.loads text
  | v => .error ⟨.typeError,
      "the JSON object must be str, bytes or bytearray, not " ++ v.typeName⟩

/-- A platform without `tiktoken`, for runs on small inputs: its `json.loads` knows the empty object
and takes no other text for JSON. -/
def Platform.bare : Platform where
  loads text :=
    if text = "\x7b\x7d" then .ok (.dict [])
    else .error ⟨.jsonDecodeError, "Expecting value: line 1 column 1 (char 0)"⟩
  tiktoken _ := none
  sha256 text := text
  repr _ := "None"
  seconds _ := none

/-- `fastapi.HTTPException`. -/
structure HTTPException where
  status_code : ℕ
  detail : String
  headers : List (String × String) := []
  deriving DecidableEq

/-- The part of an optional text that `if text:` lets through. -/
def truthy? (text : Option String) : Option String := text.filter (· ≠ "")

/-- A point in time, in microseconds, the resolution of `datetime`. -/
abbrev Time := ℤ

/-- A tool call as the LLM returns it, `dict[str, Any]`. -/
abbrev ToolCall := Py.Dict

/-- `tc.get("id", "")`. -/
def ToolCall.id (tc : ToolCall) : Val := Py.Dict.get tc "id" (.str "")

/-- The tool call that the providers build. -/
def ToolCall.ofParts (id type name arguments : String) : ToolCall :=
  [("id", .str id), ("type", .str type),
    ("function", .dict [("name", .str name), ("arguments", .str arguments)])]

/-- An entry of `accumulated_tool_calls`, a tool call under way in a stream. -/
structure PartialCall where
  id : String
  name : String
  arguments : String
  deriving DecidableEq

/-- The tool call that is yielded at the end of the stream. -/
def PartialCall.toolCall (call : PartialCall) : ToolCall :=
  ToolCall.ofParts call.id "function" call.name call.arguments

/-- `MessageRole` of `models/message.py`. -/
inductive MessageRole where
  | system
  | user
  | assistant
  | tool
  deriving DecidableEq

/-- `Message` of `models/message.py`. `tool_call_id` is a value, since `tc.get("id", "")` may give
any. -/
structure Message where
  role : MessageRole
  content : Option String := none
  tool_calls : Option (List ToolCall) := none
  tool_call_id : Val := .none
  deriving DecidableEq

/-- The tool calls that a message makes: those of an ASSISTANT message, none for the others. -/
def Message.calls (m : Message) : List ToolCall :=
  if m.role = .assistant then m.tool_calls.getD [] else []

/-- The ids of the tool calls that a message makes. -/
def Message.callIds (m : Message) : List Val := m.calls.map ToolCall.id

/-- The id of the tool call that a message answers: that of a TOOL message. -/
def Message.answerId (m : Message) : Option Val :=
  if m.role = .tool then some m.tool_call_id else none

/-- The messages of the other roles answer nothing. -/
theorem Message.answerId_eq_none {m : Message} : m.answerId = none ↔ m.role ≠ .tool := by
  simp [Message.answerId]

/-- A TOOL message makes no calls. -/
theorem Message.callIds_of_answer (m : Message) (h : m.answerId.isSome) : m.callIds = [] := by
  unfold Message.answerId at h
  split_ifs at h with hr
  · simp [Message.callIds, Message.calls, hr]
  · simp at h

/-- `SessionState`, without the fields that nothing reads. -/
structure SessionState where
  chain_depth : ℕ := 0
  deriving DecidableEq

/-- `Session` of `models/session.py`. -/
structure Session where
  session_id : String
  user_id : String := ""
  messages : List Message := []
  state : SessionState := {}
  work_dir : Option String := none
  updated_at : Time := 0
  deriving DecidableEq

/-- `Session.add_message`, at the time `now`. -/
def Session.addMessage (s : Session) (now : Time) (msg : Message) : Session :=
  { s with messages := s.messages ++ [msg], updated_at := now }

/-- A run of `add_message` calls with no await in between. Only the last clock reading survives in
`updated_at`, and no other task can see the earlier ones. -/
def Session.addMessages (s : Session) (now : Time) (msgs : List Message) : Session :=
  msgs.foldl (fun s msg => s.addMessage now msg) s

/-- `Session.get_context_messages`: the SYSTEM messages, then the slice `[-window_size:]` of the
others. -/
def Session.getContextMessages (s : Session) (window_size : ℤ) : List Message :=
  let non_system := s.messages.filter (·.role ≠ .system)
  let system_msgs := s.messages.filter (·.role = .system)
  system_msgs ++ sliceFrom non_system (-window_size)

/-- Messages are added one at a time. -/
theorem Session.addMessages_cons (s : Session) (now : Time) (msg : Message)
    (msgs : List Message) :
    s.addMessages now (msg :: msgs) = (s.addMessage now msg).addMessages now msgs := rfl

/-- `add_message` calls append their messages. -/
@[simp]
theorem Session.addMessages_messages (s : Session) (now : Time) (msgs : List Message) :
    (s.addMessages now msgs).messages = s.messages ++ msgs := by
  induction msgs generalizing s with
  | nil => simp [Session.addMessages]
  | cons msg msgs ih =>
    rw [Session.addMessages_cons, ih]
    simp [Session.addMessage]

/-- `Role` of `llm/base.py`. -/
inductive Role where
  | system
  | user
  | assistant
  | tool
  deriving DecidableEq

/-- `Message` of `llm/base.py`, which the source imports as `LLMMessage`. -/
structure LLMMessage where
  role : Role
  content : Option String := none
  tool_calls : Option (List ToolCall) := none
  tool_call_id : Val := .none
  deriving DecidableEq

/-- The ids of the tool calls that a message for the LLM makes: those of an ASSISTANT message. -/
def LLMMessage.callIds (m : LLMMessage) : List Val :=
  if m.role = .assistant then (m.tool_calls.getD []).map ToolCall.id else []

/-- The id of the tool call that a message for the LLM answers: that of a TOOL message. -/
def LLMMessage.answerId (m : LLMMessage) : Option Val :=
  if m.role = .tool then some m.tool_call_id else none

/-- The messages of the other roles answer nothing. -/
theorem LLMMessage.answerId_eq_none {m : LLMMessage} : m.answerId = none ↔ m.role ≠ .tool := by
  simp [LLMMessage.answerId]

/-- A TOOL message for the LLM makes no calls. -/
theorem LLMMessage.callIds_of_answer (m : LLMMessage) (h : m.answerId.isSome) :
    m.callIds = [] := by
  unfold LLMMessage.answerId at h
  split_ifs at h with hr
  · simp [LLMMessage.callIds, hr]
  · simp at h

/-- `LLMResponse` of `llm/base.py`. -/
structure LLMResponse where
  content : Option String := none
  tool_calls : List ToolCall := []
  usage : Option (List (String × ℤ)) := none
  deriving DecidableEq

/-- `StreamChunk` of `llm/base.py`. -/
structure StreamChunk where
  delta : String := ""
  done : Bool := false
  tool_call : Option ToolCall := none
  deriving DecidableEq

end YellowBull
