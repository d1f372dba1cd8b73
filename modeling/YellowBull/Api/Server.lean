import YellowBull.Api.Middleware
import YellowBull.Api.Streaming

/-!
# The app

The ways that a message takes to the agent in the app of `create_app`: the endpoints
`POST /api/chat` and `POST /api/chat/stream`, and the loop over the frames of `/ws/chat`. An HTTP
request comes to its endpoint through the middleware. The scope of a WebSocket is not of the type
`http`, so that `BaseHTTPMiddleware` passes it straight through.

`Served` says what the agent was given and what it did. A call of the agent runs to its end before
the next one starts.
-/

namespace YellowBull

open Py

/-- The session manager that `Agent.__init__` makes. -/
def agentSessions : SessionManager MemoryStore := memorySessionManager 7200

/-- What the outside does during one call of the agent: the id of a session that is made and its
time, and the behaviour of the LLM and the tools. -/
structure Outside where
  session_id : String
  now : Time
  chat : Behaviour
  stream : StreamBehaviour

/-- The state of the agent afterwards, the requests that `Agent.chat` and `stream_chat_response`
were called with, and the calls of the LLM. -/
structure Served where
  agent : AgentState MemoryStore
  requests : List ChatRequest := []
  llm_calls : List LLMCall := []

/-- The HTTP endpoints that give a message to the agent. -/
inductive ChatRoute where
  | chat
  | stream
  deriving DecidableEq

/-- The route of a path that is posted to. -/
def chatRoute (path : String) : Option ChatRoute :=
  if path = "/api/chat" then some .chat
  else if path = "/api/chat/stream" then some .stream
  else none

/-- What `websocket.receive_json()` comes back with. -/
inductive Frame where
  /-- An object with these texts under `message` and `user_id`. -/
  | data (message user_id : Option String)
  /-- It raises, or it gives a value without a `get`: the loop ends. -/
  | raises

/-- The variables of `websocket_chat` that a pass of its loop leaves to the next one. -/
structure Conversation where
  session_id : Option String := none
  user_id : String := ""

/-- The user of the conversation after a frame. -/
def Conversation.receive (c : Conversation) (user_id : Option String) : Conversation :=
  { c with user_id := if c.user_id = "" then user_id.getD "" else c.user_id }

/-- The request that a pass of the loop makes of a message. -/
def Conversation.request (c : Conversation) (message : Option String) : ChatRequest where
  session_id := c.session_id
  user_id := if c.user_id = "" then "ws" else c.user_id
  message := message.getD ""

section Handlers

variable (P : Platform) (cfg : AgentConfig) (reg : ToolRegistry)

/-- The endpoints `chat` and `chat_stream`. -/
def handlePost (route : ChatRoute) (request : ChatRequest) (out : Outside)
    (h : AgentState MemoryStore) : Served :=
  match route with
  | .chat =>
    { agent := (h.chat P cfg reg agentSessions request out.session_id out.now out.chat).1
      requests := [request]
      llm_calls :=
        (h.chatRun P cfg reg agentSessions request out.session_id out.now out.chat).llm_calls }
  | .stream =>
    let (h, run) :=
      h.streamChatResponse P cfg reg out.stream agentSessions request out.session_id out.now
    { agent := h, requests := [request], llm_calls := run.llm_calls }

/-- The loop of `websocket_chat`. It ends with the frames, and when something raises. -/
def websocketChat : Conversation → List (Frame × Outside) → AgentState MemoryStore → Served
  | _, [], h => { agent := h }
  | _, (.raises, _) :: _, h => { agent := h }
  | c, (.data message user_id, out) :: frames, h =>
    let c := c.receive user_id
    let request := c.request message
    let (h', result) := h.chat P cfg reg agentSessions request out.session_id out.now out.chat
    let calls :=
      (h.chatRun P cfg reg agentSessions request out.session_id out.now out.chat).llm_calls
    match result with
    -- Only a `WebSocketDisconnect` is caught, and outside the loop.
    | .error _ => { agent := h', requests := [request], llm_calls := calls }
    | .ok response =>
      let rest := websocketChat { c with session_id := some response.session_id } frames h'
      { agent := rest.agent, requests := request :: rest.requests,
        llm_calls := calls ++ rest.llm_calls }

end Handlers

/-! ## Connections -/

/-- The agent, and the buckets of the limiter. -/
structure App (τ : Type*) where
  agent : AgentState MemoryStore
  buckets : Buckets τ

/-- A connection to the app. -/
inductive Connection (τ : Type*) where
  /-- An HTTP request by the method POST: its time, and its body where it is a valid
  `ChatRequest`. -/
  | post (request : HttpRequest) (now : τ) (body : Option ChatRequest) (out : Outside)
  /-- A WebSocket with the request that opens it, and the frames that come until it ends. -/
  | websocket (request : HttpRequest) (frames : List (Frame × Outside))

section Serve

variable (P : Platform) (cfg : AgentConfig) (reg : ToolRegistry) {τ : Type*} [AddCommGroup τ]
variable [LinearOrder τ] [ToString τ] (sec : SecuritySettings τ) (app : App τ)

/-- What the app does once the middleware has answered. -/
def App.handle (answer : Except HTTPException Unit) (request : HttpRequest)
    (body : Option ChatRequest) (out : Outside) : Served :=
  match answer, chatRoute request.path, body with
  | .ok (), some route, some body => handlePost P cfg reg route body out app.agent
  -- A refusal, a 404 or a 422.
  | _, _, _ => { agent := app.agent }

/-- A connection to the app that `create_app` returns: the app afterwards, and what the agent was
given. -/
def App.serve : Connection τ → App τ × Served
  | .post request now body out =>
    let (buckets, answer) := dispatchStack sec.stack app.buckets request now
    let served := app.handle P cfg reg answer request body out
    ({ agent := served.agent, buckets }, served)
  | .websocket request frames =>
    -- The middleware passes it through, and the endpoint looks at no key.
    let served :=
      if request.path = "/ws/chat" then websocketChat P cfg reg {} frames app.agent
      else { agent := app.agent }
    ({ app with agent := served.agent }, served)

end Serve

end YellowBull
