import YellowBull.Models

/-!
# The Anthropic provider

`AnthropicLLM.chat` of `llm/anthropic_provider.py` up to the request that it sends: the loop that
turns messages into the format of the API and takes the SYSTEM messages out of the list, and
`_format_tools`. Streaming and not, the request has the same fields. What is made of the answers of
the API is in `AnthropicProvider/Responses.lean`.
-/

namespace YellowBull

open Py

/-- The content of a message of the API: a text or a list of blocks. -/
inductive AnthropicContent where
  | text (text : String)
  | blocks (blocks : List Dict)
  deriving DecidableEq

/-- A message of the API. -/
structure AnthropicMessage where
  role : String
  content : AnthropicContent
  deriving DecidableEq

/-- `AnthropicLLM`. The temperature is a float that is only passed on. -/
structure AnthropicLLM where
  model_name : String
  temperature : Val
  max_tokens : ℤ

/-- The keyword arguments of `messages.create`, or of `messages.stream`. -/
structure AnthropicRequest where
  model : String
  messages : List AnthropicMessage
  max_tokens : ℤ
  temperature : Val
  system : Option String
  tools : Option (List Dict)
  stream : Bool
  deriving DecidableEq

/-- `AnthropicLLM._parse_args`. -/
def parseArgs (P : Platform) : Val → Except Exn Val
  | .dict items => .ok (.dict items)
  | args =>
    match jsonLoads P args with
    | .ok v => .ok (if v.truthy then v else .dict [])
    | .error e =>
      match e.cls with
      | .jsonDecodeError => .ok (.dict [])
      | .typeError => .ok (.dict [])
      | _ => .error e

/-- The `tool_use` block of a tool call. -/
def toolUse (P : Platform) (tc : ToolCall) : Except Exn Dict := do
  let fc := Py.Dict.get tc "function" (.dict [])
  let name ← fc.get "name" (.str "")
  let input ← parseArgs P (← fc.get "arguments" (.str "\x7b\x7d"))
  return [("type", .str "tool_use"), ("id", tc.id), ("name", name), ("input", input)]

/-- The `tool_result` block of a TOOL message. -/
def toolResult (msg : LLMMessage) : Dict :=
  [("type", .str "tool_result"), ("tool_use_id", msg.tool_call_id),
    ("content", .str (msg.content.getD ""))]

/-- The branch of a TOOL message: its block goes to the last message if that is one of the user, and
to a new one otherwise. A message whose content is a text has no place for it. -/
def appendToolResult (msg : LLMMessage) (messages : List AnthropicMessage) :
    Except Exn (List AnthropicMessage) :=
  match messages.getLast? with
  | none => .ok [⟨"user", .blocks [toolResult msg]⟩]
  | some last =>
    if last.role ≠ "user" then .ok (messages ++ [⟨"user", .blocks [toolResult msg]⟩])
    else
      match last.content with
      | .text _ => .error ⟨.attributeError, "'str' object has no attribute 'append'"⟩
      | .blocks blocks =>
        .ok (messages.dropLast ++ [⟨last.role, .blocks (blocks ++ [toolResult msg])⟩])

/-- The content of an ASSISTANT message. -/
def assistantBlocks (P : Platform) (msg : LLMMessage) : Except Exn (List Dict) := do
  let text := msg.content.getD ""
  let uses ← (msg.tool_calls.getD []).mapM (toolUse P)
  return (if text = "" then [] else [[("type", .str "text"), ("text", .str text)]]) ++ uses

/-- The body of the loop over the messages: `system_prompt` and `anthropic_messages` after one more
message. -/
def encodeMessage (P : Platform) (acc : Option String × List AnthropicMessage)
    (msg : LLMMessage) : Except Exn (Option String × List AnthropicMessage) :=
  match msg.role with
  -- The content replaces that of an earlier SYSTEM message.
  | .system => .ok (msg.content, acc.2)
  | .tool => do
    let messages ← appendToolResult msg acc.2
    return (acc.1, messages)
  | .assistant => do
    let blocks ← assistantBlocks P msg
    return (acc.1, acc.2 ++ [⟨"assistant", .blocks blocks⟩])
  | .user => .ok (acc.1, acc.2 ++ [⟨"user", .text (msg.content.getD "")⟩])

/-- The loop over the messages. -/
def encodeMessages (P : Platform) :
    Option String × List AnthropicMessage → List LLMMessage →
      Except Exn (Option String × List AnthropicMessage)
  | acc, [] => .ok acc
  | acc, msg :: msgs => do
    let acc ← encodeMessage P acc msg
    encodeMessages P acc msgs

/-- The body of the loop of `_format_tools`. -/
def formatTool (tool : Dict) : Except Exn Dict := do
  let name ← Py.Dict.item tool "name"
  return [("name", name), ("description", Py.Dict.get tool "description" (.str "")),
    ("input_schema", Py.Dict.get tool "parameters" (.dict []))]

/-- `AnthropicLLM._format_tools`. -/
def formatTools (tools : List Dict) : Except Exn (List Dict) := tools.mapM formatTool

/-- The `tools` argument, which is left out when there are none. -/
def requestTools (tools : List Dict) : Except Exn (Option (List Dict)) :=
  if tools = [] then .ok none else (formatTools tools).map some

/-- `AnthropicLLM.chat` up to the call of the API. -/
def AnthropicLLM.chat (P : Platform) (llm : AnthropicLLM) (messages : List LLMMessage)
    (tools : List Dict) (stream : Bool) : Except Exn AnthropicRequest := do
  let encoded ← encodeMessages P (none, []) messages
  let formatted ← requestTools tools
  return {
    model := llm.model_name
    messages := encoded.2
    max_tokens := llm.max_tokens
    temperature := llm.temperature
    -- An empty prompt is not sent.
    system := if encoded.1.getD "" = "" then none else encoded.1
    tools := formatted
    stream }

end YellowBull
