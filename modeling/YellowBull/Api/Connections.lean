import YellowBull.Api.Histories
import YellowBull.Api.Server

/-!
# Conversations

A WebSocket is one conversation: `websocket_chat` keeps the id of the session that its first chat
made, and gives it to every chat that follows. Between two frames other clients may do anything
(`websocketAmong`). As long as they leave the session alone, the conversation stays in it, with all
messages of the connection in order, and it stays with the user of the first frame
(`conversation_in_one_session`).
-/

namespace YellowBull

open Py

/-- What happens during a connection: a frame of it, or an operation of another client. -/
inductive ConnectionEvent where
  | frame (frame : Frame) (out : Outside)
  | other (op : Operation)

/-- The frames of a connection that is alone. -/
def ConnectionEvent.ofFrame (frame : Frame × Outside) : ConnectionEvent := .frame frame.1 frame.2

section Among

variable (P : Platform) (cfg : AgentConfig) (reg : ToolRegistry)

/-- The loop of `websocket_chat`, with operations of other clients between its frames. -/
def websocketAmong : Conversation → List ConnectionEvent → AgentState MemoryStore → Served
  | _, [], h => { agent := h }
  | _, .frame .raises _ :: _, h => { agent := h }
  | c, .other op :: events, h =>
    websocketAmong c events (h.step P cfg reg agentSessions op).1
  | c, .frame (.data message user_id) out :: events, h =>
    let c := c.receive user_id
    let request := c.request message
    let (h', result) := h.chat P cfg reg agentSessions request out.session_id out.now out.chat
    let calls :=
      (h.chatRun P cfg reg agentSessions request out.session_id out.now out.chat).llm_calls
    match result with
    | .error _ => { agent := h', requests := [request], llm_calls := calls }
    | .ok response =>
      let rest := websocketAmong { c with session_id := some response.session_id } events h'
      { agent := rest.agent, requests := request :: rest.requests,
        llm_calls := calls ++ rest.llm_calls }

/-- The call of the agent that a frame leads to. -/
def Conversation.call (c : Conversation) (message user_id : Option String) (out : Outside) :
    ChatOp :=
  ⟨(c.receive user_id).request message, out.session_id, out.now, out.chat⟩

section Step

variable {P cfg reg} {c : Conversation} {message user_id : Option String} {out : Outside}
variable {h : AgentState MemoryStore} (events : List ConnectionEvent)

/-- A frame whose call raises ends the loop. -/
theorem websocketAmong_of_error {e : Exn}
    (hresult : (chatStep P cfg reg 7200 h (c.call message user_id out)).2.result = .error e) :
    websocketAmong P cfg reg c (.frame (.data message user_id) out :: events) h =
      { agent := (chatStep P cfg reg 7200 h (c.call message user_id out)).1
        requests := [(c.call message user_id out).request]
        llm_calls := (chatStep P cfg reg 7200 h (c.call message user_id out)).2.llm_calls } := by
  have hresult' : (h.chat P cfg reg agentSessions ((c.receive user_id).request message)
    out.session_id out.now out.chat).2 = .error e := hresult
  unfold websocketAmong
  simp only [hresult']
  rfl

/-- A frame whose call returns goes on with the session of the response. -/
theorem websocketAmong_of_ok {response : ChatResponse}
    (hresult : (chatStep P cfg reg 7200 h (c.call message user_id out)).2.result = .ok response) :
    websocketAmong P cfg reg c (.frame (.data message user_id) out :: events) h =
      let step := chatStep P cfg reg 7200 h (c.call message user_id out)
      let rest := websocketAmong P cfg reg
        { c.receive user_id with session_id := some response.session_id } events step.1
      { agent := rest.agent, requests := (c.call message user_id out).request :: rest.requests,
        llm_calls := step.2.llm_calls ++ rest.llm_calls } := by
  have hresult' : (h.chat P cfg reg agentSessions ((c.receive user_id).request message)
    out.session_id out.now out.chat).2 = .ok response := hresult
  rw [websocketAmong]
  simp only [hresult']
  rfl

end Step

/-- A connection that is alone. -/
theorem websocketAmong_ofFrame (c : Conversation) (frames : List (Frame × Outside))
    (h : AgentState MemoryStore) :
    websocketAmong P cfg reg c (frames.map .ofFrame) h = websocketChat P cfg reg c frames h := by
  induction frames generalizing c h with
  | nil => rfl
  | cons frame frames ih =>
    obtain ⟨frame, out⟩ := frame
    cases frame with
    | raises => rfl
    | data message user_id =>
      rw [List.map_cons, ConnectionEvent.ofFrame, websocketAmong, websocketChat]
      cases hresult : (h.chat P cfg reg agentSessions ((c.receive user_id).request message)
        out.session_id out.now out.chat).2 with
      | error e => simp only [hresult]
      | ok response => simp only [hresult, ih]

end Among

/-- The operation neither makes, names nor deletes the session with this id, nor cleans up, which
nothing in the app does. -/
def Operation.Spares (session_id : String) : Operation → Prop
  | .create _ id _ | .newSession _ id _ _ | .delete id => id ≠ session_id
  | .chat request id _ _ => id ≠ session_id ∧ request.session_id ≠ some session_id
  | .cleanup _ _ => False
  | .get _ | .listSessions _ | .history _ | .sessions _ | .workdir _ _ => True

/-- The session is stored under this id with this log and this user. -/
def AgentState.Holds (h : AgentState MemoryStore) (session_id : String) (said : List String)
    (user_id : String) : Prop :=
  h.world.Keyed ∧ ∃ s, memoryContents.view h.world session_id = some s ∧ s.said = said ∧
    s.user_id = user_id

section Holds

variable {P : Platform} {cfg : AgentConfig} {reg : ToolRegistry} {ttl : ℤ}
variable {h : AgentState MemoryStore} {session_id : String} {said : List String} {user_id : String}

/-- An operation that spares a session leaves its log and its user. -/
theorem AgentState.Holds.spared (hh : h.Holds session_id said user_id) {op : Operation}
    (hop : op.Spares session_id) :
    (h.step P cfg reg (memorySessionManager ttl) op).1.Holds session_id said user_id := by
  obtain ⟨hw, s, hs, hsaid, huser⟩ := hh
  obtain ⟨hkeyed, hafter⟩ := @step_after P cfg reg ttl h hw op
  refine ⟨hkeyed, ?_⟩
  rw [hafter]
  -- An operation under another id leaves this session.
  have hne {id : String} (hid : id ≠ session_id) (new : Option Session) :
      Function.update (memoryContents.view h.world) id new session_id = some s :=
    (Function.update_of_ne (Ne.symm hid) ..).trans hs
  cases op with
  | create user id now => exact ⟨s, hne hop _, hsaid, huser⟩
  | chat request id now O =>
    -- The chat's session is another one: the request names it, or it is new with an id of its own.
    refine ⟨s, hne ?_ _, hsaid, huser⟩
    obtain ⟨hid, hnamed⟩ := hop
    unfold AgentState.sessionOf
    cases hfound : request.found (memoryContents.view h.world) with
    | none => exact hid
    | some other =>
      obtain ⟨id', hid', hview⟩ := Option.bind_eq_some_iff.mp hfound
      obtain ⟨r, hr, rfl⟩ := Option.map_eq_some_iff.mp hview
      rintro rfl
      exact hnamed ((hw id' r hr).2 ▸ (Option.filter_eq_some_iff.mp hid').1)
  | get id => exact ⟨s, hs, hsaid, huser⟩
  | delete id => exact ⟨s, hne hop _, hsaid, huser⟩
  | listSessions user => exact ⟨s, hs, hsaid, huser⟩
  | cleanup max_age_seconds now => exact hop.elim
  | history id => exact ⟨s, hs, hsaid, huser⟩
  | sessions user => exact ⟨s, hs, hsaid, huser⟩
  | newSession user id now work_dir => exact ⟨s, hne hop _, hsaid, huser⟩
  | workdir id new_dir =>
    -- A new working directory changes no message and no user.
    by_cases hid : id = session_id
    · subst hid
      refine ⟨{ s with work_dir := some new_dir }, ?_, hsaid, huser⟩
      rw [Operation.after, Function.update_self, hs, Option.map_some]
    · exact ⟨s, hne hid _, hsaid, huser⟩

/-- A chat adds its message to the log of the session that it runs on, which is named by what it
returns. -/
theorem AgentState.Holds.of_chatStep (hw : h.world.Keyed) (op : ChatOp) :
    (chatStep P cfg reg ttl h op).1.Holds (h.sessionOf op).session_id
        ((h.sessionOf op).said ++ [op.request.message]) (h.sessionOf op).user_id ∧
      ∀ response, (chatStep P cfg reg ttl h op).2.result = .ok response →
        response.session_id = (h.sessionOf op).session_id := by
  obtain ⟨w, hstep, hkeyed, hview⟩ := @chatStep_spec P cfg reg ttl h hw op
  rw [hstep]
  refine ⟨⟨hkeyed, (h.runOf P cfg reg op).session, ?_, ?_, ?_⟩,
    fun response hresponse => chat_response_session_id hresponse⟩
  · simp only [hview, Function.update_self]
  · exact said_chat P cfg reg op.outside _ _ _
  · exact chat_user_id P cfg reg op.outside _ _ _

end Holds

/-! ## A connection -/

/-- The messages that a connection has given to the agent. -/
def Served.said (served : Served) : List String := served.requests.map (·.message)

/-- The other clients spare the session. -/
def SpareSession (session_id : String) (events : List ConnectionEvent) : Prop :=
  ∀ op, .other op ∈ events → op.Spares session_id

section Connection

variable (P : Platform) (cfg : AgentConfig) (reg : ToolRegistry)

/-- From its second chat on, a connection stays in its session. -/
theorem websocketAmong_of_holds {session_id : String} (hid : session_id ≠ "") {c : Conversation}
    (hc : c.session_id = some session_id) {events : List ConnectionEvent}
    (hothers : SpareSession session_id events) {h : AgentState MemoryStore} {said : List String}
    {user_id : String} (hh : h.Holds session_id said user_id) :
    let served := websocketAmong P cfg reg c events h
    served.agent.Holds session_id (said ++ served.said) user_id ∧
      ∀ request ∈ served.requests, request.session_id = some session_id := by
  -- The conversation goes on under the same id from one answered frame to the next.
  induction events generalizing c h said with
  | nil => exact ⟨by simpa [websocketAmong, Served.said] using hh, by simp [websocketAmong]⟩
  | cons event events ih =>
    have hrest : SpareSession session_id events :=
      fun op hop => hothers op (List.mem_cons_of_mem event hop)
    cases event with
    | other op =>
      exact ih hc hrest (hh.spared (hothers op List.mem_cons_self))
    | frame frame out =>
      cases frame with
      | raises => exact ⟨by simpa [websocketAmong, Served.said] using hh, by simp [websocketAmong]⟩
      | data message user =>
        obtain ⟨hkeyed, s, hs, hsaid, huser⟩ := hh
        obtain ⟨r, hr, hread⟩ := Option.map_eq_some_iff.mp hs
        have hsid : s.session_id = session_id := hread ▸ (hkeyed session_id r hr).2
        -- The session is found under the id, since every operation in between has spared it.
        have hsession : h.sessionOf (c.call message user out) = s := by
          have hnamed : (c.call message user out).request.session_id = some session_id := hc
          unfold AgentState.sessionOf ChatRequest.found
          rw [hnamed, truthy?, Option.filter_some, if_pos (by simpa using hid), Option.bind_some,
            hs, Option.getD_some]
        obtain ⟨hnext, hresponse⟩ := @AgentState.Holds.of_chatStep P cfg reg 7200 h hkeyed
          (c.call message user out)
        rw [hsession, hsid, hsaid, huser] at hnext
        -- A failing chat ends the conversation, after the session has what it recorded.
        cases hresult : (chatStep P cfg reg 7200 h (c.call message user out)).2.result with
        | error e =>
          simp only [websocketAmong_of_error events hresult]
          exact ⟨hnext, List.forall_mem_singleton.mpr hc⟩
        | ok response =>
          -- The answer carries the id back, which the next frame is then sent under.
          have hstay : response.session_id = session_id := by
            rw [hresponse response hresult, hsession, hsid]
          obtain ⟨hlast, hnamed⟩ := ih (c := { c.receive user with
            session_id := some response.session_id }) (congrArg some hstay) hrest hnext
          simp only [websocketAmong_of_ok events hresult]
          rw [List.append_assoc] at hlast
          exact ⟨hlast, List.forall_mem_cons.mpr ⟨hc, hnamed⟩⟩

/-- A connection has one session: the first chat makes it, all others name it, and in the end its
log has what the connection sent, in order, and nothing else. It belongs to the user of the first
chat, also when a later frame names one. This is so whatever was done before and whatever other
clients do between the frames, as long as they leave that session alone, and whether or not a chat
raises. -/
theorem conversation_in_one_session (earlier : List Operation) (message user_id : Option String)
    (out : Outside) (hid : out.session_id ≠ "") (events : List ConnectionEvent)
    (hothers : SpareSession out.session_id events) :
    let served := websocketAmong P cfg reg {} (.frame (.data message user_id) out :: events)
      (afterOperations P cfg reg 7200 earlier)
    ∃ first more, served.requests = first :: more ∧ first.session_id = none ∧
      (∀ request ∈ more, request.session_id = some out.session_id) ∧
      served.agent.Holds out.session_id served.said first.user_id := by
  have hkeyed : (afterOperations P cfg reg 7200 earlier).world.Keyed :=
    Machine.state_invariant (fun h : AgentState MemoryStore => h.world.Keyed)
      (fun h op hw => (step_after hw op).1) keyed_start earlier
  generalize afterOperations P cfg reg 7200 earlier = h at hkeyed
  let call := Conversation.call {} message user_id out
  -- No session is named at first, so the first frame makes one.
  have hsession : h.sessionOf call = call.newSession := rfl
  obtain ⟨hnext, hresponse⟩ := @AgentState.Holds.of_chatStep P cfg reg 7200 h hkeyed call
  rw [hsession] at hnext
  cases hresult : (chatStep P cfg reg 7200 h call).2.result with
  | error e =>
    simp only [websocketAmong_of_error events hresult]
    exact ⟨call.request, [], rfl, rfl, by simp, hnext⟩
  | ok response =>
    -- From the answer on the conversation holds the id of that session.
    have hstay : response.session_id = out.session_id := by
      rw [hresponse response hresult, hsession]
      rfl
    obtain ⟨hlast, hnamed⟩ := websocketAmong_of_holds P cfg reg hid
      (c := { Conversation.receive {} user_id with session_id := some response.session_id })
      (congrArg some hstay) hothers hnext
    simp only [websocketAmong_of_ok events hresult]
    exact ⟨call.request, _, rfl, rfl, hnamed, hlast⟩

end Connection

/-- The outside of a chat that makes a session with this id, if any, and is answered at once. -/
def answeredAs (session_id : String) : Outside where
  session_id
  now := 0
  chat := .scripted [{ content := some "hello" }] (.ok { content := "" })
  stream := .deltas []

/-- Two frames, of which only the second one names a user, with a chat of another client between. -/
theorem conversation_in_one_session_two_frames :
    let served := websocketAmong .bare { system_prompt := "p" } .empty {}
      [.frame (.data (some "hi") none) (answeredAs "s2"),
        .other (.chat { session_id := some "s1", user_id := "b", message := "hey" } "s3" 1
          (answeredAs "s3").chat),
        .frame (.data (some "bye") (some "c")) (answeredAs "s4")]
      (afterOperations .bare { system_prompt := "p" } .empty 7200 [.create "b" "s1" 0])
    ∃ first more, served.requests = first :: more ∧ first.session_id = none ∧
      (∀ request ∈ more, request.session_id = some "s2") ∧
      served.agent.Holds "s2" served.said first.user_id := by
  refine conversation_in_one_session .bare { system_prompt := "p" } .empty [.create "b" "s1" 0]
    (some "hi") none (answeredAs "s2") (by decide) _ fun op hop => ?_
  rcases List.mem_pair.mp hop with hop | hop
  · cases hop
    exact ⟨by decide, by decide⟩
  · cases hop

end YellowBull
