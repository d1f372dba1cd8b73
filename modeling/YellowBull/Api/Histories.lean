import YellowBull.Api.UserIsolation

/-!
# Histories over whole runs

What any run of operations makes of the histories of the sessions. Behind its references the store
is a set of sessions under their ids, which each operation changes as `Operation.after` says. What
the users have said in the sessions is then a log for each of them (`histories_refine_logs`), and a
history consists of turns that a request begins (`histories_in_turns`).
-/

namespace YellowBull

open Py

/-! ## Operations by value -/

section Step

variable (P : Platform) (cfg : AgentConfig) (reg : ToolRegistry) (ttl : ℤ)

/-- The stored sessions after an operation. -/
def Operation.after (h : AgentState MemoryStore) : Operation → String → Option Session
  | .create user_id session_id now =>
    Function.update (memoryContents.view h.world) session_id
      (some { session_id, user_id, updated_at := now })
  | .chat request session_id now O =>
    let op : ChatOp := ⟨request, session_id, now, O⟩
    Function.update (memoryContents.view h.world) (h.sessionOf op).session_id
      (some (h.runOf P cfg reg op).session)
  | .delete session_id => Function.update (memoryContents.view h.world) session_id none
  | .cleanup max_age_seconds now => fun id =>
    (memoryContents.view h.world id).filter
      (¬ Session.Expired (max_age_seconds.getD ttl) now ·)
  | .newSession user_id session_id now work_dir =>
    Function.update (memoryContents.view h.world) session_id
      (some { session_id, user_id, updated_at := now, work_dir := some work_dir })
  | .workdir session_id new_dir =>
    Function.update (memoryContents.view h.world) session_id
      ((memoryContents.view h.world session_id).map ({ · with work_dir := some new_dir }))
  | .get _ | .listSessions _ | .history _ | .sessions _ => memoryContents.view h.world

variable {P cfg reg ttl}

/-- To load sessions changes nothing. -/
theorem loadSessions_memory (ids : List String) (w : World MemoryStore) :
    ((memorySessionManager ttl).loadSessions ids w).2 = w := by
  induction ids with
  | nil => rfl
  | cons id ids ih => exact ih

/-- A part of a keyed store is keyed. -/
theorem World.Keyed.of_imp {w : World MemoryStore} (hw : w.Keyed) {store : MemoryStore}
    (h : ∀ id r, store.get? id = some r → w.store.get? id = some r) :
    World.Keyed { w with store } := fun id r hr => hw id r (h id r hr)

/-- An operation changes the stored sessions as it should. -/
theorem step_after {h : AgentState MemoryStore} (hw : h.world.Keyed) (op : Operation) :
    (h.step P cfg reg (memorySessionManager ttl) op).1.world.Keyed ∧
      memoryContents.view (h.step P cfg reg (memorySessionManager ttl) op).1.world =
        op.after P cfg reg ttl h := by
  have hinv : memoryContents.Inv h.world := fun id r hr => (hw id r hr).1
  cases op with
  | create user_id session_id now =>
    have hworld : (h.step P cfg reg (memorySessionManager ttl)
        (.create user_id session_id now)).1.world =
        ((memorySessionManager ttl).create user_id session_id now h.world).2 := rfl
    rw [hworld, create_memory]
    exact hw.create { session_id, user_id, updated_at := now }
  | chat request session_id now O =>
    obtain ⟨w, hstep, hkeyed, hview⟩ :=
      @chatStep_spec P cfg reg ttl h hw ⟨request, session_id, now, O⟩
    have hworld : (h.step P cfg reg (memorySessionManager ttl)
        (.chat request session_id now O)).1.world = w :=
      congrArg (fun out : AgentState MemoryStore × ChatOutput => out.1.world) hstep
    rw [hworld]
    exact ⟨hkeyed, hview⟩
  | get session_id => exact ⟨hw, rfl⟩
  | delete session_id =>
    refine ⟨hw.of_imp fun id r hr => ?_, (memorySessionAdapter_implements.delete hinv _).view_eq⟩
    -- Erasing an id takes the one entry away, and keeps the ids of the rest.
    rw [OrderedMap.get?_erase] at hr
    by_cases hid : id = session_id
    · rw [hid, Function.update_self] at hr
      cases hr
    · rwa [Function.update_of_ne hid] at hr
  | listSessions user_id =>
    -- A listing loads the sessions and leaves the store.
    have hworld : (h.step P cfg reg (memorySessionManager ttl) (.listSessions user_id)).1.world =
        h.world := loadSessions_memory ..
    rw [hworld]
    exact ⟨hw, rfl⟩
  | cleanup max_age_seconds now =>
    refine ⟨hw.of_imp fun id r hr => ?_,
      (memorySessionAdapter_implements.cleanup hinv _ now).view_eq⟩
    rw [OrderedMap.get?_foldl_erase] at hr
    split_ifs at hr
    exact hr
  | history session_id =>
    have hworld : (h.step P cfg reg (memorySessionManager ttl) (.history session_id)).1.world =
        h.world := by
      have hget : (memorySessionManager ttl).get session_id h.world =
          (h.world.store.get? session_id, h.world) := rfl
      unfold AgentState.step getHistory
      simp only [hget]
      cases h.world.store.get? session_id <;> rfl
    rw [hworld]
    exact ⟨hw, rfl⟩
  | sessions user_id => exact ⟨hw, rfl⟩
  | newSession user_id session_id now work_dir =>
    -- The session is made first and gets its directory by assignment, so the view is updated twice.
    let made : Session := { session_id, user_id, updated_at := now }
    obtain ⟨hkeyed, hview⟩ := hw.create made
    have hread : (h.world.heap.alloc made).2.read h.world.heap.next = made :=
      h.world.heap.read_alloc made
    obtain ⟨hkeyed', hview'⟩ := hkeyed.write (OrderedMap.get?_set_self ..)
      (s := { made with work_dir := some work_dir }) rfl
    rw [hview, Function.update_idem] at hview'
    have hworld : (h.step P cfg reg (memorySessionManager ttl)
        (.newSession user_id session_id now work_dir)).1.world =
        ⟨h.world.store.set session_id h.world.heap.next, (h.world.heap.alloc made).2.write
          h.world.heap.next { made with work_dir := some work_dir }⟩ := by
      have hmake := @create_memory ttl user_id session_id now h.world
      unfold AgentState.step newSession
      simp only [hmake]
      rw [hread]
    rw [hworld]
    exact ⟨hkeyed', hview'⟩
  | workdir session_id new_dir =>
    have hget : (memorySessionManager ttl).get session_id h.world =
        (h.world.store.get? session_id, h.world) := rfl
    -- The assignment goes to the held object, if the id is stored at all.
    unfold AgentState.step setWorkDir Operation.after
    simp only [hget]
    have hview : memoryContents.view h.world session_id =
        (h.world.store.get? session_id).map h.world.heap.read := rfl
    cases hr : h.world.store.get? session_id with
    | none =>
      rw [hr, Option.map_none] at hview
      refine ⟨hw, ?_⟩
      rw [hview, Option.map_none, ← hview, Function.update_eq_self]
    | some r =>
      rw [hview, hr, Option.map_some, Option.map_some]
      exact hw.write hr (hw session_id r hr).2

end Step

/-! ## What users have said -/

/-- The texts of the USER messages of a session. -/
def Session.said (s : Session) : List String :=
  (s.messages.filter (·.role = .user)).map fun m => m.content.getD ""

/-- What was said in each stored session. -/
abbrev Logs := String → Option (List String)

/-- The logs of the stored sessions. -/
def AgentState.logs (h : AgentState MemoryStore) : Logs := fun id =>
  (memoryContents.view h.world id).map Session.said

/-- What an operation makes of the logs, with what its caller sees. A request goes to the log that
it names, and to a new one if there is none. -/
def Operation.log (op : Operation) (seen : Observation) (logs : Logs) : Logs :=
  match op, seen with
  | .create _ session_id _, _ | .newSession _ session_id _ _, _ =>
    Function.update logs session_id (some [])
  | .chat request session_id _ _, _ =>
    match (truthy? request.session_id).filter fun id => (logs id).isSome with
    | some named => Function.update logs named ((logs named).map (· ++ [request.message]))
    | none => Function.update logs session_id (some [request.message])
  | .delete session_id, _ => Function.update logs session_id none
  | .cleanup _ _, .cleaned ids => fun id => if id ∈ ids then none else logs id
  | _, _ => logs

/-- A turn of a session: a request, the complete rounds of tool calls that it led to, and at most
one more ASSISTANT message. -/
def IsTurn (request : ChatRequest) (turn : List Message) : Prop :=
  ∃ (rounds : List (List Message)) (tail : List Message),
    turn = userMessage request :: (rounds.flatten ++ tail) ∧
    (∀ round ∈ rounds, ∃ response, IsRound response round) ∧ tail.length ≤ 1 ∧
    ∀ m ∈ tail, m.role = .assistant

/-- In a turn, only the request is said by the user. -/
theorem IsTurn.said {request : ChatRequest} {turn : List Message} (h : IsTurn request turn) :
    (turn.filter (·.role = .user)).map (fun m => m.content.getD "") = [request.message] := by
  obtain ⟨rounds, tail, rfl, hrounds, -, htail⟩ := h
  have hnone : (rounds.flatten ++ tail).filter (·.role = .user) = [] := by
    rw [List.filter_eq_nil_iff]
    intro m hm huser
    have huser : m.role = .user := by simpa using huser
    rcases List.mem_append.mp hm with hm | hm
    · obtain ⟨round, hround, hm⟩ := List.mem_flatten.mp hm
      obtain ⟨response, hresponse⟩ := hrounds round hround
      rcases hresponse.role hm with hrole | hrole <;> rw [hrole] at huser <;> cases huser
    · rw [htail m hm] at huser
      cases huser
  rw [List.filter_cons_of_pos (by rfl), hnone]
  rfl

section Runs

variable (P : Platform) (cfg : AgentConfig) (reg : ToolRegistry) (ttl : ℤ)

/-- A chat records one turn, whatever comes of it. -/
theorem chat_turn (O : Behaviour) (s : Session) (cache : Cache) (request : ChatRequest) :
    ∃ turn, IsTurn request turn ∧
      (chat P cfg reg O s cache request).session.messages = s.messages ++ turn := by
  obtain ⟨rounds, tail, ht⟩ := chat_transcript P cfg reg O s cache request
  refine ⟨userMessage request :: (rounds.flatten ++ tail), ⟨rounds, tail, rfl, ?_, ?_, ?_⟩, ?_⟩
  · intro round hround
    obtain ⟨j, hj, rfl⟩ := List.getElem_of_mem hround
    obtain ⟨response, -, -, -, hresponse⟩ := ht.complete j hj
    exact ⟨response, hresponse⟩
  · cases ht.ending <;> simp
  · cases ht.ending <;> simp [finalMessage, fallbackMessage, callMessage]
  · rw [ht.messages]
    simp

/-- What is said in a session that a chat has run on. -/
theorem said_chat (O : Behaviour) (s : Session) (cache : Cache) (request : ChatRequest) :
    (chat P cfg reg O s cache request).session.said = s.said ++ [request.message] := by
  obtain ⟨turn, hturn, hmessages⟩ := chat_turn P cfg reg O s cache request
  unfold Session.said
  rw [hmessages, List.filter_append, List.map_append, hturn.said]

/-- One operation changes the logs as it says. -/
theorem logs_step {h : AgentState MemoryStore} (hw : h.world.Keyed) (op : Operation) :
    (h.step P cfg reg (memorySessionManager ttl) op).1.logs =
      op.log (h.step P cfg reg (memorySessionManager ttl) op).2 h.logs := by
  have hafter : (h.step P cfg reg (memorySessionManager ttl) op).1.logs =
      fun id => (op.after P cfg reg ttl h id).map Session.said := by
    unfold AgentState.logs
    rw [(step_after hw op).2]
  -- To change one session is to change its log.
  have hupdate (id : String) (s : Option Session) :
      (fun id' => (Function.update (memoryContents.view h.world) id s id').map Session.said) =
        Function.update h.logs id (s.map Session.said) := by
    funext id'
    unfold AgentState.logs
    by_cases hid : id' = id
    · rw [hid, Function.update_self, Function.update_self]
    · rw [Function.update_of_ne hid, Function.update_of_ne hid]
  rw [hafter]
  cases op with
  | create user_id session_id now => exact hupdate session_id _
  | chat request session_id now O =>
    refine (hupdate _ _).trans ?_
    rw [Option.map_some, AgentState.runOf, said_chat]
    unfold Operation.log AgentState.sessionOf ChatRequest.found
    simp only
    cases hnamed : truthy? request.session_id with
    | none => rfl
    | some id =>
      have hlog : h.logs id = (memoryContents.view h.world id).map Session.said := rfl
      rw [Option.bind_some, Option.filter_some, hlog]
      cases hview : memoryContents.view h.world id with
      | none => rfl
      | some s =>
        obtain ⟨r, hr, rfl⟩ := Option.map_eq_some_iff.mp hview
        simp only [Option.getD_some, Option.map_some, Option.isSome_some, if_true, (hw id r hr).2]
        rw [hlog, hview, Option.map_some, Option.map_some]
  | get session_id => rfl
  | delete session_id => exact hupdate session_id none
  | listSessions user_id => rfl
  | cleanup max_age_seconds now =>
    funext id
    have hids : id ∈ expiredIds h.world.heap.read h.world.store (max_age_seconds.getD ttl) now ↔
        ∃ s, memoryContents.view h.world id = some s ∧
          s.Expired (max_age_seconds.getD ttl) now := mem_expiredIds ..
    have hseen : (h.step P cfg reg (memorySessionManager ttl) (.cleanup max_age_seconds now)).2 =
        .cleaned (expiredIds h.world.heap.read h.world.store (max_age_seconds.getD ttl) now) := rfl
    rw [hseen]
    unfold Operation.after Operation.log
    simp only [Multiset.mem_coe]
    split_ifs with hexpired
    · obtain ⟨s, hs, hold⟩ := hids.mp hexpired
      rw [hs, Option.filter_some, if_neg (by simpa using hold), Option.map_none]
    · unfold AgentState.logs
      cases hs : memoryContents.view h.world id with
      | none => rfl
      | some s =>
        have hold : ¬ s.Expired (max_age_seconds.getD ttl) now :=
          fun hold => hexpired (hids.mpr ⟨s, hs, hold⟩)
        rw [Option.filter_some, if_pos (by simpa using hold)]
  | history session_id => rfl
  | sessions user_id => rfl
  | newSession user_id session_id now work_dir => exact hupdate session_id _
  | workdir session_id new_dir =>
    refine (hupdate session_id _).trans ?_
    have hsaid : ((memoryContents.view h.world session_id).map
        ({ · with work_dir := some new_dir })).map Session.said = h.logs session_id := by
      unfold AgentState.logs
      cases memoryContents.view h.world session_id <;> rfl
    rw [hsaid, Function.update_eq_self]
    rfl

/-- The operations of a run with what their callers see. -/
def observed (h : AgentState MemoryStore) (ops : List Operation) : List (Operation × Observation) :=
  ops.zip (Machine.outputs (AgentState.step P cfg reg (memorySessionManager ttl)) h ops)

/-- The logs after a run. -/
theorem logs_run {h : AgentState MemoryStore} (hw : h.world.Keyed) (ops : List Operation) :
    (Machine.state (AgentState.step P cfg reg (memorySessionManager ttl)) h ops).logs =
      (observed P cfg reg ttl h ops).foldl (fun logs op => op.1.log op.2 logs) h.logs := by
  unfold observed
  induction ops generalizing h with
  | nil => rfl
  | cons op ops ih =>
    rw [Machine.state, Machine.outputs, List.zip_cons_cons, List.foldl_cons,
      ih (step_after hw op).1, logs_step P cfg reg ttl hw]

/-- The agent after a run. -/
def afterOperations (ops : List Operation) : AgentState MemoryStore :=
  Machine.state (AgentState.step P cfg reg (memorySessionManager ttl)) (.start .empty) ops

/-- After any run, the texts of the USER messages of each session are the requests that it was given
since it was made, in order, each once, whatever came of them: `Agent.chat` may raise anywhere, run
tools or come to its limit. No other operation changes them. -/
theorem histories_refine_logs (ops : List Operation) :
    (afterOperations P cfg reg ttl ops).logs =
      (observed P cfg reg ttl (.start .empty) ops).foldl (fun logs op => op.1.log op.2 logs)
        fun _ => none :=
  logs_run P cfg reg ttl keyed_start ops

/-! ## What the stored sessions keep -/

/-- The stored sessions are under their ids and meet `p`. -/
def AgentState.Stored (p : Session → Prop) (h : AgentState MemoryStore) : Prop :=
  h.world.Keyed ∧ ∀ id s, memoryContents.view h.world id = some s → p s

/-- A condition on a session without messages is met, and one that is met stays so in another
directory. -/
structure OfMessages (p : Session → Prop) : Prop where
  new : ∀ s : Session, s.messages = [] → p s
  work_dir : ∀ (s : Session) (dir : Option String), p s → p { s with work_dir := dir }

/-- A chat works on a session that meets the condition. -/
theorem AgentState.Stored.sessionOf {p : Session → Prop} (hp : OfMessages p)
    {h : AgentState MemoryStore} (hh : h.Stored p) (op : ChatOp) : p (h.sessionOf op) := by
  unfold AgentState.sessionOf
  cases hfound : op.request.found (memoryContents.view h.world) with
  | none => exact hp.new _ rfl
  | some s => exact hh.2 _ s (view_of_found hh.1 hfound)

variable {P cfg reg ttl} in
/-- What chats keep, every operation keeps. -/
theorem stored_step {p : Session → Prop} (hp : OfMessages p) {h : AgentState MemoryStore}
    (hh : h.Stored p) {op : Operation}
    (hchat : ∀ request id now O, op = .chat request id now O →
      ∀ s cache, p s → p (chat P cfg reg O s cache request).session) :
    (h.step P cfg reg (memorySessionManager ttl) op).1.Stored p := by
  have hsession := hh.sessionOf hp
  obtain ⟨hw, hstored⟩ := hh
  obtain ⟨hkeyed, hafter⟩ := @step_after P cfg reg ttl h hw op
  -- An operation that puts one session in place of another.
  have hupdate (id : String) (new : Session) (hnew : p new) (id' : String) (s : Session)
      (hs : Function.update (memoryContents.view h.world) id (some new) id' = some s) : p s := by
    by_cases hid : id' = id
    · rw [hid, Function.update_self] at hs
      exact Option.some.inj hs ▸ hnew
    · rw [Function.update_of_ne hid] at hs
      exact hstored id' s hs
  refine ⟨hkeyed, fun id s hs => ?_⟩
  rw [hafter] at hs
  cases op with
  | create user_id session_id now => exact hupdate _ _ (hp.new _ rfl) id s hs
  | chat request session_id now O =>
    exact hupdate _ _ (hchat request session_id now O rfl _ h.cache (hsession _)) id s hs
  | get session_id => exact hstored id s hs
  | delete session_id =>
    by_cases hid : id = session_id
    · rw [Operation.after, hid, Function.update_self] at hs
      cases hs
    · rw [Operation.after, Function.update_of_ne hid] at hs
      exact hstored id s hs
  | listSessions user_id => exact hstored id s hs
  | cleanup max_age_seconds now => exact hstored id s (Option.filter_eq_some_iff.mp hs).1
  | history session_id => exact hstored id s hs
  | sessions user_id => exact hstored id s hs
  | newSession user_id session_id now work_dir => exact hupdate _ _ (hp.new _ rfl) id s hs
  | workdir session_id new_dir =>
    cases hview : memoryContents.view h.world session_id with
    | none =>
      rw [Operation.after, hview, Option.map_none, ← hview, Function.update_eq_self] at hs
      exact hstored id s hs
    | some old =>
      rw [Operation.after, hview, Option.map_some] at hs
      exact hupdate _ _ (hp.work_dir old _ (hstored session_id old hview)) id s hs

/-- What all chats of a run keep, is so after it. -/
theorem stored_run {p : Session → Prop} (hp : OfMessages p) (ops : List Operation)
    (hchat : ∀ request id now O, .chat request id now O ∈ ops →
      ∀ s cache, p s → p (chat P cfg reg O s cache request).session) :
    (afterOperations P cfg reg ttl ops).Stored p := by
  have hstart : (AgentState.start (OrderedMap.empty : MemoryStore)).Stored p :=
    ⟨keyed_start, fun id s hs => by cases hs⟩
  refine Machine.state_invariant_of (AgentState.Stored p)
    (fun op => ∀ request id now O, op = .chat request id now O →
      ∀ s cache, p s → p (chat P cfg reg O s cache request).session)
    (fun h op hh hop => stored_step hp hh hop) hstart ?_
  rintro op hop request id now O rfl
  exact hchat request id now O hop

/-! ## Turns -/

/-- The messages of a session are turns, one for each request. -/
def Session.InTurns (s : Session) : Prop :=
  ∃ turns : List (ChatRequest × List Message), s.messages = (turns.map Prod.snd).flatten ∧
    (∀ turn ∈ turns, IsTurn turn.1 turn.2) ∧ s.said = turns.map (·.1.message)

/-- A chat keeps the messages of its session in turns. -/
theorem Session.InTurns.chat {s : Session} (h : s.InTurns) (O : Behaviour) (cache : Cache)
    (request : ChatRequest) : (chat P cfg reg O s cache request).session.InTurns := by
  obtain ⟨turns, hmessages, hturns, hsaid⟩ := h
  obtain ⟨turn, hturn, hmore⟩ := chat_turn P cfg reg O s cache request
  refine ⟨turns ++ [(request, turn)], ?_, ?_, ?_⟩
  · rw [hmore, hmessages]
    simp
  · exact List.forall_mem_append.mpr ⟨hturns, by simpa using hturn⟩
  · rw [said_chat, hsaid, List.map_append]
    rfl

/-- No turn has a SYSTEM message. -/
theorem Session.InTurns.role_ne_system {s : Session} (h : s.InTurns) :
    ∀ m ∈ s.messages, m.role ≠ .system := by
  obtain ⟨turns, hmessages, hturns, -⟩ := h
  intro m hm hsystem
  rw [hmessages] at hm
  obtain ⟨messages, hmem, hm⟩ := List.mem_flatten.mp hm
  obtain ⟨turn, hturn, rfl⟩ := List.mem_map.mp hmem
  obtain ⟨rounds, tail, hparts, hrounds, -, htail⟩ := hturns turn hturn
  rw [hparts] at hm
  rcases List.mem_cons.mp hm with rfl | hm
  · cases hsystem
  rcases List.mem_append.mp hm with hm | hm
  · obtain ⟨round, hround, hm⟩ := List.mem_flatten.mp hm
    obtain ⟨response, hresponse⟩ := hrounds round hround
    rcases hresponse.role hm with hrole | hrole <;> rw [hrole] at hsystem <;> cases hsystem
  · rw [htail m hm] at hsystem
    cases hsystem

/-- The first message is a request. -/
theorem Session.InTurns.role_head {s : Session} (h : s.InTurns) :
    ∀ m ∈ s.messages.head?, m.role = .user := by
  obtain ⟨turns, hmessages, hturns, -⟩ := h
  intro m hm
  rw [hmessages] at hm
  cases turns with
  | nil => cases hm
  | cons turn turns =>
    obtain ⟨rounds, tail, hparts, -⟩ := hturns turn List.mem_cons_self
    rw [List.map_cons, List.flatten_cons, hparts] at hm
    obtain rfl := Option.some.inj hm
    rfl

/-- After any run, the stored sessions are in turns. -/
theorem inTurns_run (ops : List Operation) :
    (afterOperations P cfg reg ttl ops).Stored Session.InTurns := by
  have hmessages : OfMessages Session.InTurns :=
    { new := fun s hs => ⟨[], hs, by simp, by simp [Session.said, hs]⟩
      work_dir := fun _ _ h => h }
  exact stored_run P cfg reg ttl hmessages ops fun request _ _ O _ s cache h =>
    Session.InTurns.chat P cfg reg h O cache request

/-- After any run, each stored session is under its own id, and its messages are turns, one for each
of its requests: the USER message, complete rounds in which each tool call of an ASSISTANT message
is answered by one TOOL message, and at most one more ASSISTANT message. So no SYSTEM message is
ever stored, and no message stands before the first request. -/
theorem histories_in_turns (ops : List Operation) {id : String} {s : Session}
    (hs : memoryContents.view (afterOperations P cfg reg ttl ops).world id = some s) :
    s.session_id = id ∧ s.InTurns ∧ (∀ m ∈ s.messages, m.role ≠ .system) ∧
      ∀ m ∈ s.messages.head?, m.role = .user := by
  obtain ⟨hkeyed, hturns⟩ := inTurns_run P cfg reg ttl ops
  obtain ⟨r, hr, rfl⟩ := Option.map_eq_some_iff.mp hs
  exact ⟨(hkeyed id r hr).2, hturns id _ hs, (hturns id _ hs).role_ne_system,
    (hturns id _ hs).role_head⟩

end Runs

/-- The session of a user after a chat that is answered at once. -/
theorem histories_in_turns_one_chat :
    ∃ s, memoryContents.view (afterOperations .bare { system_prompt := "p" } .empty 7200
        [.chat { user_id := "u", message := "hi" } "s1" 0
          (.scripted [{ content := some "hello" }] (.ok {}))]).world "s1" = some s ∧
      s.session_id = "s1" ∧ s.InTurns ∧ (∀ m ∈ s.messages, m.role ≠ .system) ∧
      ∀ m ∈ s.messages.head?, m.role = .user := by
  have hstored : (memoryContents.view (afterOperations .bare { system_prompt := "p" } .empty 7200
      [.chat { user_id := "u", message := "hi" } "s1" 0
        (.scripted [{ content := some "hello" }] (.ok {}))]).world "s1").isSome := by
    decide
  obtain ⟨s, hs⟩ := Option.isSome_iff_exists.mp hstored
  exact ⟨s, hs, histories_in_turns .bare { system_prompt := "p" } .empty 7200 _ hs⟩

end YellowBull
