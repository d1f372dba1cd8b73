import Mathlib.Data.Multiset.Basic
import YellowBull.Agent
import YellowBull.SessionManager

/-!
# The clients of the session store

What reads and writes sessions: `Agent.chat` with `_get_or_create_session`, the session endpoints of
`api/server.py` and the commands of `cli/repl.py`, over any session manager. `AgentState.step` runs
one operation to its end and gives what its caller sees.

A listing is a multiset, as the interface promises no order.
-/

namespace YellowBull

open Py

/-- The answer of `GET /api/sessions/{session_id}/history`. -/
structure History where
  session_id : String
  messages : List (MessageRole × Option String)
  deriving DecidableEq

/-- `SessionInfo` of `api/server.py`. -/
structure SessionInfo where
  session_id : String
  user_id : String
  message_count : ℕ
  updated_at : Time
  deriving DecidableEq

/-- The history of a session. -/
def Session.history (s : Session) : History where
  session_id := s.session_id
  messages := s.messages.map fun m => (m.role, m.content)

/-- The entry of a session in `GET /api/sessions`. -/
def Session.info (s : Session) : SessionInfo where
  session_id := s.session_id
  user_id := s.user_id
  message_count := s.messages.length
  updated_at := s.updated_at

section Clients

variable {σ : Type} (M : SessionManager σ)

/-- `Agent._get_or_create_session`, with the id and the creation time of a session that it makes. -/
def getOrCreateSession (request : ChatRequest) (session_id : String) (now : Time) (w : World σ) :
    Ref × World σ :=
  match truthy? request.session_id with
  | none => M.create request.user_id session_id now w
  | some requested =>
    match M.get requested w with
    | (some session, w) => (session, w)
    | (none, w) => M.create request.user_id session_id now w

/-- `create` with a `MemorySessionAdapter`. -/
theorem create_memory {ttl : ℤ} (user_id session_id : String) (now : Time)
    (w : World MemoryStore) :
    (memorySessionManager ttl).create user_id session_id now w =
      (w.heap.next, ⟨w.store.set session_id w.heap.next,
        (w.heap.alloc { session_id, user_id, updated_at := now }).2⟩) := by
  simp [SessionManager.create, memorySessionManager, memorySessionAdapter, Heap.alloc]

/-- The object of the session that a request names, in the store of a `MemorySessionAdapter`. -/
def ChatRequest.sessionRef (request : ChatRequest) (store : MemoryStore) : Option Ref :=
  (truthy? request.session_id).bind store.get?

/-- `_get_or_create_session` with a `MemorySessionAdapter`: the session that the request names, or a
new one. -/
theorem getOrCreateSession_memory (ttl : ℤ) (request : ChatRequest) (session_id : String)
    (now : Time) (w : World MemoryStore) :
    getOrCreateSession (memorySessionManager ttl) request session_id now w =
      match request.sessionRef w.store with
      | some session => (session, w)
      | none => (w.heap.next, ⟨w.store.set session_id w.heap.next,
          (w.heap.alloc { session_id, user_id := request.user_id, updated_at := now }).2⟩) := by
  have hcreate : (memorySessionManager ttl).create request.user_id session_id now w =
      (w.heap.next, ⟨w.store.set session_id w.heap.next,
        (w.heap.alloc { session_id, user_id := request.user_id, updated_at := now }).2⟩) := by
    simp [SessionManager.create, memorySessionManager, memorySessionAdapter, Heap.alloc]
  unfold getOrCreateSession ChatRequest.sessionRef
  -- An empty id counts as none, and one that is not stored makes a new session as well.
  cases truthy? request.session_id with
  | none => exact hcreate
  | some requested =>
    have hget : (memorySessionManager ttl).get requested w = (w.store.get? requested, w) := rfl
    simp only [hget, Option.bind_some]
    cases w.store.get? requested with
    | none => exact hcreate
    | some session => rfl

/-- What the endpoints raise for an id that the store does not have. -/
def sessionNotFound : HTTPException := { status_code := 404, detail := "Session not found" }

/-- The endpoint `GET /api/sessions/{session_id}/history`. -/
def getHistory (session_id : String) (w : World σ) : Except HTTPException History × World σ :=
  match M.get session_id w with
  | (none, w) => (.error sessionNotFound, w)
  | (some session, w) => (.ok (w.heap.read session).history, w)

/-- The endpoint `GET /api/sessions`: it goes through the items of `_sessions`. -/
def getSessions (user_id : Option String) (w : World σ) : Except Exn (List SessionInfo) := do
  let store ← M.sessions w
  let sessions := store.values.map w.heap.read
  return (sessions.filter fun s =>
    match truthy? user_id with
    | some user_id => s.user_id = user_id
    | none => True).map Session.info

/-- What `_ask_work_dir` and `/new` do to the store: they create a session and set its directory. -/
def newSession (user_id session_id : String) (now : Time) (work_dir : String)
    (w : World σ) : World σ :=
  let (session, w) := M.create user_id session_id now w
  { w with heap := w.heap.write session { w.heap.read session with work_dir := some work_dir } }

/-- What `/workdir` does to the store: it sets the directory of the session that `get` gives. -/
def setWorkDir (session_id new_dir : String) (w : World σ) : World σ :=
  match M.get session_id w with
  | (some session, w) =>
    { w with heap := w.heap.write session { w.heap.read session with work_dir := some new_dir } }
  | (none, w) => w

end Clients

/-! ## Operations one after another -/

/-- An operation on the store, with what the outside gives to it: the id and the time of a session
that it makes, and what happens during a chat. -/
inductive Operation where
  | create (user_id session_id : String) (now : Time)
  | chat (request : ChatRequest) (session_id : String) (now : Time) (O : Behaviour)
  | get (session_id : String)
  | delete (session_id : String)
  | listSessions (user_id : Option String)
  | cleanup (max_age_seconds : Option ℤ) (now : Time)
  | history (session_id : String)
  | sessions (user_id : Option String)
  | newSession (user_id session_id : String) (now : Time) (work_dir : String)
  | workdir (session_id new_dir : String)

/-- What the caller of an operation sees. -/
inductive Observation where
  | created (s : Session)
  | responded (result : Except Exn ChatResponse)
  | read (s : Option Session)
  | deleted (found : Bool)
  | listed (sessions : Multiset (String × Session))
  | cleaned (ids : Multiset String)
  | history (answer : Except HTTPException History)
  | infos (answer : Except Exn (Multiset SessionInfo))
  | done

/-- The store and the heap behind the agent's session manager, and the cache of its executor. -/
structure AgentState (σ : Type) where
  world : World σ
  cache : Cache

/-- An agent that has seen no sessions. -/
def AgentState.start {σ : Type} (store : σ) : AgentState σ := ⟨⟨store, .empty⟩, .empty⟩

section Step

variable {σ : Type} (P : Platform) (cfg : AgentConfig) (reg : ToolRegistry) (M : SessionManager σ)

/-- `Agent.chat` with its session manager. The chat writes to the object that
`_get_or_create_session` gave it. -/
def AgentState.chat (request : ChatRequest) (session_id : String) (now : Time) (O : Behaviour)
    (h : AgentState σ) : AgentState σ × Except Exn ChatResponse :=
  let (session, w) := getOrCreateSession M request session_id now h.world
  let run := YellowBull.chat P cfg reg O (w.heap.read session) h.cache request
  (⟨{ w with heap := w.heap.write session run.session }, run.cache⟩, run.result)

/-- The run of `Agent.chat` that `AgentState.chat` makes. -/
def AgentState.chatRun (request : ChatRequest) (session_id : String) (now : Time) (O : Behaviour)
    (h : AgentState σ) : ChatRun :=
  let (session, w) := getOrCreateSession M request session_id now h.world
  YellowBull.chat P cfg reg O (w.heap.read session) h.cache request

/-- One operation. -/
def AgentState.step (h : AgentState σ) : Operation → AgentState σ × Observation
  | .create user_id session_id now =>
    let (session, w) := M.create user_id session_id now h.world
    ({ h with world := w }, .created (w.heap.read session))
  | .chat request session_id now O =>
    let (h, result) := h.chat P cfg reg M request session_id now O
    (h, .responded result)
  | .get session_id =>
    let (session, w) := M.get session_id h.world
    ({ h with world := w }, .read (session.map w.heap.read))
  | .delete session_id =>
    let (found, w) := M.delete session_id h.world
    ({ h with world := w }, .deleted found)
  | .listSessions user_id =>
    let (sessions, w) := M.listSessions user_id h.world
    ({ h with world := w }, .listed (sessions.map fun item => (item.1, w.heap.read item.2)))
  | .cleanup max_age_seconds now =>
    let (ids, w) := M.cleanupExpired max_age_seconds now h.world
    ({ h with world := w }, .cleaned ids)
  | .history session_id =>
    let (answer, w) := getHistory M session_id h.world
    ({ h with world := w }, .history answer)
  | .sessions user_id => (h, .infos ((getSessions M user_id h.world).map (↑)))
  | .newSession user_id session_id now work_dir =>
    ({ h with world := newSession M user_id session_id now work_dir h.world }, .done)
  | .workdir session_id new_dir =>
    ({ h with world := setWorkDir M session_id new_dir h.world }, .done)

end Step

end YellowBull
