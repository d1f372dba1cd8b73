import YellowBull.AnthropicProvider
import YellowBull.Lib.OrderedMap

/-!
# What the Anthropic provider makes of an answer

`_parse_response` and the loop of `_stream_chat` of `llm/anthropic_provider.py`, on the objects of
the SDK as far as they are read. A generator that is run to its end gives what it has yielded.
-/

namespace YellowBull

open Py

/-- A content block. One that has no type, or another one, is passed over. -/
inductive AnthropicBlock where
  | text (text : String)
  | toolUse (id name : String) (input : Val)
  | other

/-- The answer of `messages.create`, with the input and output tokens of its usage. -/
structure AnthropicResponse where
  content : List AnthropicBlock
  usage : Option (ℤ × ℤ) := none

/-! ## `_parse_response` -/

/-- What a block adds to the text. -/
def AnthropicBlock.textPart : AnthropicBlock → String
  | .text part => part
  | _ => ""

/-- `block.input or {}`. -/
def inputObject (input : Val) : Val := if input.truthy then input else .dict []

/-- The tool call that a block adds. -/
def AnthropicBlock.call? : AnthropicBlock → Option ToolCall
  | .toolUse id name input =>
    some (ToolCall.ofParts id "function" name ((inputObject input).dumps false))
  | _ => none

/-- `usage`. -/
def usageCounts (input_tokens output_tokens : ℤ) : List (String × ℤ) :=
  [("prompt_tokens", input_tokens), ("completion_tokens", output_tokens),
    ("total_tokens", input_tokens + output_tokens)]

/-- `AnthropicLLM._parse_response`. -/
def AnthropicResponse.parse (response : AnthropicResponse) : LLMResponse :=
  let content := join "" (response.content.map AnthropicBlock.textPart)
  { content := if content = "" then none else some content
    tool_calls := response.content.filterMap AnthropicBlock.call?
    usage := response.usage.map fun usage => usageCounts usage.1 usage.2 }

/-! ## `_stream_chat` -/

/-- An event of the stream. A delta has an attribute `text`, or `partial_json`, or another one. -/
inductive AnthropicEvent where
  | contentBlockStart (block : AnthropicBlock)
  | contentBlockDelta (text partial_json : Option String)
  | other

/-- `accumulated_tool_calls` after a fragment of arguments, which goes to the last call. -/
def appendPartial (calls : OrderedMap String PartialCall) (partial_json : String) :
    OrderedMap String PartialCall :=
  match calls.items.getLast? with
  | none => calls
  | some (tc_id, call) =>
    calls.set tc_id { call with arguments := call.arguments ++ partial_json }

/-- `accumulated_tool_calls` after an event. -/
def AnthropicEvent.accumulate (calls : OrderedMap String PartialCall) :
    AnthropicEvent → OrderedMap String PartialCall
  | .contentBlockStart (.toolUse id name _) => calls.set id ⟨id, name, ""⟩
  | .contentBlockDelta _ (some partial_json) =>
    if partial_json = "" then calls else appendPartial calls partial_json
  | _ => calls

/-- What is yielded at an event. -/
def AnthropicEvent.chunks : AnthropicEvent → List StreamChunk
  | .contentBlockDelta (some text) _ => if text = "" then [] else [{ delta := text }]
  | _ => []

/-- What `AnthropicLLM._stream_chat` yields. -/
def anthropicStream (events : List AnthropicEvent) : List StreamChunk :=
  let calls := events.foldl AnthropicEvent.accumulate .empty
  events.flatMap AnthropicEvent.chunks ++
    calls.values.map (fun call => { tool_call := some call.toolCall }) ++ [{ done := true }]

end YellowBull
