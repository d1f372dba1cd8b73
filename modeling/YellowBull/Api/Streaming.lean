import YellowBull.Api.Sessions

/-!
# The streaming chat

`stream_chat_response` and `sse_stream` of `api/server.py`, a second implementation of a turn of the
agent. A generator that is run to its end gives the texts that it has yielded and the exception that
it has ended with, if any (`StreamRun`).

The generator asks the class `Agent` for an attribute `ChatRequest` before it does anything else,
while `ChatRequest` is a class of the module `core.agent`. What comes after that is `streamTurn`, on
the session.
-/

namespace YellowBull

open Py

/-- What the awaited `llm.chat(.., stream=True)` comes back with. -/
inductive StreamReply where
  /-- An async iterator: what it yields, none for an object that is not a `StreamChunk`, and the
  exception that ends it. -/
  | iterator (items : List (Option StreamChunk)) (raises : Option Exn)
  | response (response : LLMResponse)

/-- What the outside does during one call of `stream_chat_response`. -/
structure StreamBehaviour where
  llm : Except Exn StreamReply
  /-- The clock, by the number of the chunk from 1 on. -/
  clock : ℕ → Time

/-- The chunks of a stream of deltas, after which a chunk is `done`. -/
def deltaChunks (deltas : List String) : List (Option StreamChunk) :=
  deltas.map (fun delta => some { delta := delta }) ++ [some { done := true }]

/-- The LLM yields these deltas. -/
def StreamBehaviour.deltas (deltas : List String) : StreamBehaviour where
  llm := .ok (.iterator (deltaChunks deltas) none)
  clock _ := 0

/-- What a call of `stream_chat_response` gives, besides what it does to the sessions. -/
structure StreamRun where
  yielded : List String
  llm_calls : List LLMCall
  raised : Option Exn
  deriving DecidableEq

/-- A text between `data: ` and a blank line. -/
def dataFrame (text : String) : String := "data: " ++ text ++ "\n\n"

/-- The text that announces the id of the session. -/
def sessionText (session_id : String) : String :=
  "\x7b\"session_id\": \"" ++ session_id ++ "\"\x7d"

/-- The ASSISTANT message of a stream that is done. -/
def streamedMessage (full_content : String) : Message :=
  { role := .assistant
    content := some (if full_content = "" then "(empty response)" else full_content) }

/-- The body of the loop over the chunks: the text so far, the session, and what is yielded. -/
def onChunk (now : Time) (full_content : String) (s : Session) (chunk : StreamChunk) :
    String × Session × List String :=
  if chunk.done then
    (full_content, s.addMessage now (streamedMessage full_content),
      [dataFrame (sessionText s.session_id)])
  else if chunk.delta ≠ "" then
    (full_content ++ chunk.delta, s, [dataFrame chunk.delta])
  else (full_content, s, [])

/-- The loop over the chunks, from chunk `k` on. -/
def streamChunks (clock : ℕ → Time) :
    ℕ → List (Option StreamChunk) → String → Session → Session × List String
  | _, [], _, s => (s, [])
  -- `isinstance(chunk, StreamChunk)` is false.
  | k, none :: items, full_content, s => streamChunks clock (k + 1) items full_content s
  | k, some chunk :: items, full_content, s =>
    let (full_content, s, texts) := onChunk (clock k) full_content s chunk
    let (s, rest) := streamChunks clock (k + 1) items full_content s
    (s, texts ++ rest)

section Turn

variable (P : Platform) (cfg : AgentConfig) (reg : ToolRegistry) (O : StreamBehaviour)

/-- The part of `stream_chat_response` after the call of `build`. -/
def streamReply (s : Session) (call : LLMCall) : Session × StreamRun :=
  match O.llm with
  | .error e =>
    -- The generator returns after the text, and the request stays in the session.
    if e.IsException then
      (s, { yielded := [dataFrame ("[ERROR] " ++ e.text)], llm_calls := [call], raised := none })
    else (s, { yielded := [], llm_calls := [call], raised := some e })
  | .ok (.iterator items raises) =>
    let (s, yielded) := streamChunks O.clock 1 items "" s
    (s, { yielded, llm_calls := [call], raised := raises })
  | .ok (.response response) =>
    -- An empty answer is recorded as it is, unlike in the loop.
    let content := response.content.getD ""
    (s.addMessage (O.clock 1) { role := .assistant, content := some content },
      { yielded := [dataFrame content, dataFrame (sessionText s.session_id)], llm_calls := [call],
        raised := none })

/-- `stream_chat_response` on the session that `_get_or_create_session` found or made. The call of
`build` leaves the working directory at its default. -/
def streamTurn (s : Session) (request : ChatRequest) : Session × StreamRun :=
  let s := s.addMessages (O.clock 0) [userMessage request]
  match ContextBuilder.build P ⟨cfg.system_prompt⟩ s cfg.context_window {} none with
  | .error e => (s, { yielded := [], llm_calls := [], raised := some e })
  | .ok messages => streamReply O s { messages, tools := reg.toFunctionDefinitions }

/-- What the body of the class `Agent` defines. -/
def agentAttributes : List String :=
  ["__init__", "chat", "_build_tool_requests", "_get_or_create_session"]

/-- The lookup of an attribute of the class `Agent`. -/
def agentAttribute (name : String) : Except Exn Unit :=
  if name ∈ agentAttributes then .ok ()
  else .error ⟨.attributeError, "type object 'Agent' has no attribute '" ++ name ++ "'"⟩

variable {σ : Type} (M : SessionManager σ)

/-- `stream_chat_response`. The request that it makes for `_get_or_create_session` has an empty
message, which nothing reads. -/
def AgentState.streamChatResponse (request : ChatRequest) (session_id : String) (now : Time)
    (h : AgentState σ) : AgentState σ × StreamRun :=
  match agentAttribute "ChatRequest" with
  | .error e => (h, { yielded := [], llm_calls := [], raised := some e })
  | .ok () =>
    let (session, w) := getOrCreateSession M { request with message := "" } session_id now h.world
    let (s, run) := streamTurn P cfg reg O (w.heap.read session) request
    ({ h with world := { w with heap := w.heap.write session s } }, run)

/-- The lookup of the class raises, before anything else has happened. -/
theorem streamChatResponse_eq (request : ChatRequest) (session_id : String) (now : Time)
    (h : AgentState σ) : h.streamChatResponse P cfg reg O M request session_id now =
    (h, { yielded := [], llm_calls := [], raised := some ⟨.attributeError,
      "type object 'Agent' has no attribute 'ChatRequest'"⟩ }) := by
  have hlookup : agentAttribute "ChatRequest" = .error ⟨.attributeError,
      "type object 'Agent' has no attribute 'ChatRequest'"⟩ := by decide
  unfold AgentState.streamChatResponse
  rw [hlookup]

end Turn

/-- The body of the response that `sse_stream` makes of a generator. -/
def sseStream (run : StreamRun) : String :=
  join "" (run.yielded.map dataFrame ++ if run.raised = none then [dataFrame "[DONE]"] else [])

end YellowBull
