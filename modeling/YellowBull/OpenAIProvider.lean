import YellowBull.Lib.OrderedMap
import YellowBull.Models

/-!
# The OpenAI provider

`OpenAILLM` of `llm/openai_provider.py`: the keyword arguments that `chat` and `_stream_chat` pass
to `chat.completions.create`, `_parse_response`, and the loop of `_stream_chat`, on the objects of
the SDK as far as they are read. A generator that is run to its end gives what it has yielded.
-/

namespace YellowBull

open Py

/-! ## The request -/

/-- The value of a `Role`. -/
def Role.value : Role → String
  | .system => "system"
  | .user => "user"
  | .assistant => "assistant"
  | .tool => "tool"

/-- `msg.content`, a text or `None`. -/
def LLMMessage.contentVal (msg : LLMMessage) : Val :=
  match msg.content with
  | some text => .str text
  | none => .none

/-- The body of the loop of `_format_messages`. -/
def formatMessage (msg : LLMMessage) : Dict :=
  let entry : Dict := [("role", .str msg.role.value)]
  if msg.role = .tool then
    entry ++ [("content", .str (msg.content.getD "")), ("tool_call_id", msg.tool_call_id)]
  else if msg.role = .assistant ∧ msg.tool_calls.getD [] ≠ [] then
    entry ++ [("content", msg.contentVal),
      ("tool_calls", .list ((msg.tool_calls.getD []).map .dict))]
  else entry ++ [("content", msg.contentVal)]

/-- `OpenAILLM._format_messages`. -/
def formatMessages (messages : List LLMMessage) : List Dict := messages.map formatMessage

/-- `OpenAILLM`. The temperature is a float that is only passed on. -/
structure OpenAILLM where
  model_name : String
  temperature : Val
  max_tokens : ℤ

/-- The keyword arguments of `chat.completions.create`. No tools are left out. -/
def OpenAILLM.chat (llm : OpenAILLM) (messages : List LLMMessage) (tools : List Dict)
    (stream : Bool) : Dict :=
  [("model", .str llm.model_name), ("messages", .list ((formatMessages messages).map .dict)),
    ("temperature", llm.temperature), ("max_tokens", .int llm.max_tokens)] ++
    (if stream then [("stream", .bool true)] else []) ++
    (if tools = [] then [] else [("tools", .list (tools.map .dict))])

/-! ## `_parse_response` -/

/-- `tc.function`. -/
structure OpenAIFunction where
  name : String
  arguments : String

/-- A tool call of a message. -/
structure OpenAIToolCall where
  id : String
  type : Option String := some "function"
  function : Option OpenAIFunction

/-- `choice.message`. -/
structure OpenAIMessage where
  content : Option String := none
  tool_calls : Option (List OpenAIToolCall) := none

/-- `response.usage`. -/
structure OpenAIUsage where
  prompt_tokens : ℤ
  completion_tokens : ℤ
  total_tokens : ℤ

/-- The answer of `chat.completions.create`, with the messages of its choices. -/
structure OpenAICompletion where
  choices : List OpenAIMessage
  usage : Option OpenAIUsage := none

/-- A tool call of the response. -/
def OpenAIToolCall.toolCall (tc : OpenAIToolCall) : ToolCall :=
  let name := match tc.function with
    | some function => function.name
    | none => ""
  let arguments := match tc.function with
    | some function => function.arguments
    | none => "\x7b\x7d"
  ToolCall.ofParts tc.id ((truthy? tc.type).getD "function") name arguments

/-- `usage`. -/
def OpenAIUsage.counts (usage : OpenAIUsage) : List (String × ℤ) :=
  [("prompt_tokens", usage.prompt_tokens), ("completion_tokens", usage.completion_tokens),
    ("total_tokens", usage.total_tokens)]

/-- `OpenAILLM._parse_response`. Without a choice the usage is not read either. -/
def OpenAICompletion.parse (response : OpenAICompletion) : LLMResponse :=
  match response.choices.head? with
  | none => {}
  | some message =>
    { content := message.content
      tool_calls := (message.tool_calls.getD []).map OpenAIToolCall.toolCall
      usage := response.usage.map OpenAIUsage.counts }

/-! ## `_stream_chat` -/

/-- `tc.function` of a fragment. -/
structure FunctionFragment where
  name : Option String := none
  arguments : Option String := none

/-- A fragment of a tool call in a chunk. -/
structure ToolCallFragment where
  index : ℤ
  id : Option String := none
  function : Option FunctionFragment := none

/-- `choice.delta`. -/
structure OpenAIDelta where
  content : Option String := none
  tool_calls : Option (List ToolCallFragment) := none

/-- A chunk of the stream, with the deltas of its choices. -/
structure OpenAIChunk where
  choices : List OpenAIDelta

namespace ToolCallFragment

/-- The name that the fragment has for the function, if any. -/
def name? (tc : ToolCallFragment) : Option String :=
  tc.function.bind fun function => truthy? function.name

/-- What the fragment adds to the arguments. -/
def argumentsPart (tc : ToolCallFragment) : String :=
  (tc.function.bind fun function => truthy? function.arguments).getD ""

/-- The entry for an index that is not in `accumulated_tool_calls`. -/
def start (tc : ToolCallFragment) : PartialCall := ⟨tc.id.getD "", "", ""⟩

/-- The entry with one more fragment. -/
def addTo (call : PartialCall) (tc : ToolCallFragment) : PartialCall where
  id := (truthy? tc.id).getD call.id
  name := tc.name?.getD call.name
  arguments := call.arguments ++ tc.argumentsPart

/-- `accumulated_tool_calls` after a fragment. -/
def accumulate (calls : OrderedMap ℤ PartialCall) (tc : ToolCallFragment) :
    OrderedMap ℤ PartialCall :=
  calls.set tc.index (addTo ((calls.get? tc.index).getD tc.start) tc)

end ToolCallFragment

/-- What `OpenAILLM._stream_chat` yields. Of a chunk the first choice is read, and a chunk without
one is passed over. -/
def openAIStream (chunks : List OpenAIChunk) : List StreamChunk :=
  let deltas := chunks.filterMap fun chunk => chunk.choices.head?
  let calls := deltas.foldl
    (fun calls delta => (delta.tool_calls.getD []).foldl ToolCallFragment.accumulate calls) .empty
  deltas.map (fun delta => { delta := delta.content.getD "" }) ++
    calls.values.map (fun call => { tool_call := some call.toolCall }) ++ [{ done := true }]

end YellowBull
