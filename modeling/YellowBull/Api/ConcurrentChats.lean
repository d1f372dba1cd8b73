import YellowBull.Agent.Concurrency
import YellowBull.Api.Sessions
import YellowBull.Lib.Family
import YellowBull.SessionManager.Interface

/-!
# Chats that run at once on all sessions

The event loop of the server: calls of `Agent.chat` in any number, each on the session that
`_get_or_create_session` gave it, whose segments alternate with those of the others and with the
other clients of the session store. A call holds the object of its session, so that it goes on where
the session has been deleted meanwhile.

For each object, the server shows a run of the machine of `Concurrency.lean`, on the segments of the
calls that work on it (`chats_on_sessions_independent`): calls on other sessions, deletions and
cleanups have no part in it. So a session is intact where its own calls do not overlap
(`sessions_in_turn_intact`), and what was deleted does not come back through a call that still works
on it (`deleted_stays_deleted`).
-/

namespace YellowBull

open Py CallBlocks Interleaving

/-! ## The server -/

/-- The sessions, and for each call of `Agent.chat` the object that it works on and where it is. -/
structure Server (ι : Type*) where
  world : World MemoryStore
  calls : ι → Option (Ref × Phase)

/-- What happens in the server: a call starts, with the id and the time of a session that it makes,
or goes on, or another client works on the store. -/
inductive ServerEvent (ι : Type*) where
  | chat (i : ι) (request : ChatRequest) (session_id : String) (now : Time)
  | goOn (i : ι) (event : Event)
  | create (user_id session_id : String) (now : Time)
  | delete (session_id : String)
  | cleanup (max_age_seconds : Option ℤ) (now : Time)

section Server

variable (P : Platform) (cfg : AgentConfig) (reg : ToolRegistry) (ttl : ℤ)
variable {ι : Type*} [DecidableEq ι]

/-- No session is stored, and no call has started. -/
def Server.start : Server ι := ⟨⟨.empty, .empty⟩, fun _ => none⟩

/-- The call `i` leaves the object `r` as `next`, and is in `phase` then. -/
def Server.move (h : Server ι) (r : Ref) (i : ι) (next : Session) (phase : Phase) : Server ι where
  world := { h.world with heap := h.world.heap.write r next }
  calls := Function.update h.calls i (some (r, phase))

/-- A segment of the call `i` on the object `r`. -/
def Server.advance (h : Server ι) (r : Ref) (i : ι) (phase : Phase) (event : Event) :
    Option (Server ι) :=
  (segment P cfg reg (h.world.heap.read r) phase event).map fun next =>
    h.move r i next.1 next.2.2

/-- One event. The first segment of a call begins with `_get_or_create_session`. -/
def Server.step (h : Server ι) : ServerEvent ι → Option (Server ι)
  | .chat i request session_id now =>
    match h.calls i with
    | some _ => none
    | none =>
      let (session, world) :=
        getOrCreateSession (memorySessionManager ttl) request session_id now h.world
      Server.advance P cfg reg { h with world } session i .ready (.start request now)
  | .goOn i event =>
    match h.calls i with
    | some (session, phase) => h.advance P cfg reg session i phase event
    | none => none
  | .create user_id session_id now =>
    some { h with world := ((memorySessionManager ttl).create user_id session_id now h.world).2 }
  | .delete session_id =>
    some { h with world := ((memorySessionManager ttl).delete session_id h.world).2 }
  | .cleanup max_age_seconds now =>
    some { h with
      world := ((memorySessionManager ttl).cleanupExpired max_age_seconds now h.world).2 }

/-- The segments that an event makes, with the objects that they are on. -/
def Server.segments (h : Server ι) : ServerEvent ι → List (Ref × (ι × Event))
  | .chat i request session_id now =>
    [((getOrCreateSession (memorySessionManager ttl) request session_id now h.world).1,
      (i, .start request now))]
  | .goOn i event =>
    match h.calls i with
    | some (session, _) => [(session, (i, event))]
    | none => []
  | _ => []

omit [DecidableEq ι] in
/-- Where the call `i` is, as far as the object `r` is concerned. -/
def Server.phaseOn (h : Server ι) (r : Ref) (i : ι) : Phase :=
  match h.calls i with
  | some (session, phase) => if session = r then phase else .ready
  | none => .ready

/-- The stored objects and those that calls work on exist. -/
structure Server.Allocated (h : Server ι) : Prop where
  stored : ∀ id r, h.world.store.get? id = some r → r < h.world.heap.next
  called : ∀ i r phase, h.calls i = some (r, phase) → r < h.world.heap.next

/-- The machine of an object has its session, and its calls are where they are. -/
structure Server.On (h : Server ι) (r : Ref) (c : Chats ι) : Prop where
  allocated : r < h.world.heap.next
  session : c.session = h.world.heap.read r
  phases : c.phases = h.phaseOn r

/-- There is no object under the reference. -/
def Server.Free (h : Server ι) (r : Ref) : Prop := h.world.heap.next ≤ r

/-- The machine of a new session. -/
def Chats.New (c : Chats ι) : Prop := ∃ s : Session, s.messages = [] ∧ c = Chats.start s

/-! ## One event -/

/-- A new session is stored under an id. -/
def Server.make (h : Server ι) (id : String) (s : Session) : Server ι :=
  { h with world := ⟨h.world.store.set id h.world.heap.next, (h.world.heap.alloc s).2⟩ }

/-- The call `i` may make a segment on the object `r` from `phase`: it works on it, or starts. -/
structure Server.Works (h : Server ι) (r : Ref) (i : ι) (phase : Phase) : Prop where
  allocated : r < h.world.heap.next
  call : h.calls i = none ∧ phase = .ready ∨ h.calls i = some (r, phase)

variable {P cfg reg ttl} {h h' : Server ι} {r r' : Ref} {i : ι} {phase : Phase} {event : Event}

/-- The event may store a session under the id. -/
def ServerEvent.Makes (id : String) : ServerEvent ι → Prop
  | .chat _ _ session_id _ => session_id = id
  | .create _ session_id _ => session_id = id
  | _ => False

/-- What an event does: it takes sessions out of the store, makes one, or makes a segment of a call
on an object, which it may have made for it. -/
theorem Server.step_cases (hinv : h.Allocated) {e : ServerEvent ι}
    (hstep : h.step P cfg reg ttl e = some h') :
    (∃ store : MemoryStore, (∀ id r, store.get? id = some r → h.world.store.get? id = some r) ∧
      h.segments ttl e = [] ∧ h' = { h with world := { h.world with store } }) ∨
    (∃ (id : String) (s : Session), s.messages = [] ∧ e.Makes id ∧ h.segments ttl e = [] ∧
      h' = h.make id s) ∨
    (∃ r i phase event, h.Works r i phase ∧ h.segments ttl e = [(r, (i, event))] ∧
      h.advance P cfg reg r i phase event = some h') ∨
    ∃ (id : String) (s : Session) (i : ι) (event : Event), s.messages = [] ∧ e.Makes id ∧
      h.calls i = none ∧ h.segments ttl e = [(h.world.heap.next, (i, event))] ∧
      (h.make id s).advance P cfg reg h.world.heap.next i .ready event = some h' := by
  cases e with
  | chat i request session_id now =>
    simp only [Server.step] at hstep
    cases hcall : h.calls i with
    | some call => simp [hcall] at hstep
    | none =>
      simp only [hcall, getOrCreateSession_memory] at hstep
      -- The session that the request names, if it is stored, else a new one.
      cases hr : request.sessionRef h.world.store with
      | some r =>
        obtain ⟨id, -, hget⟩ := Option.bind_eq_some_iff.mp hr
        have hsegments : h.segments ttl (.chat i request session_id now) =
            [(r, (i, .start request now))] := by
          simp only [Server.segments, getOrCreateSession_memory, hr]
        have hworks : h.Works r i .ready := ⟨hinv.stored id r hget, .inl ⟨hcall, rfl⟩⟩
        simp only [hr] at hstep
        exact .inr (.inr (.inl ⟨r, i, .ready, _, hworks, hsegments, hstep⟩))
      | none =>
        have hsegments : h.segments ttl (.chat i request session_id now) =
            [(h.world.heap.next, (i, .start request now))] := by
          simp only [Server.segments, getOrCreateSession_memory, hr]
        simp only [hr] at hstep
        exact .inr (.inr (.inr ⟨session_id, _, i, _, rfl, rfl, hcall, hsegments, hstep⟩))
  | goOn i event =>
    simp only [Server.step] at hstep
    cases hcall : h.calls i with
    | none => simp [hcall] at hstep
    | some call =>
      obtain ⟨r, phase⟩ := call
      have hsegments : h.segments ttl (.goOn i event) = [(r, (i, event))] := by
        simp only [Server.segments, hcall]
      have hworks : h.Works r i phase := ⟨hinv.called i r phase hcall, .inr hcall⟩
      -- An event goes on a chat only if it has been called, on the session that it was called with.
      simp only [hcall] at hstep
      exact .inr (.inr (.inl ⟨r, i, phase, event, hworks, hsegments, hstep⟩))
  | create user_id session_id now =>
    obtain rfl := Option.some.inj hstep
    refine .inr (.inl ⟨session_id, { session_id, user_id, updated_at := now }, rfl, rfl, rfl, ?_⟩)
    rw [create_memory]
    rfl
  | delete session_id =>
    obtain rfl := Option.some.inj hstep
    -- What is left in the store has been there before.
    refine .inl ⟨h.world.store.erase session_id, fun id r hget => ?_, rfl, rfl⟩
    rw [OrderedMap.get?_erase] at hget
    by_cases hid : id = session_id
    · simp [hid] at hget
    · simpa [hid] using hget
  | cleanup max_age_seconds now =>
    obtain rfl := Option.some.inj hstep
    refine .inl ⟨_, fun id r hget => ?_, rfl, rfl⟩
    rw [OrderedMap.get?_foldl_erase] at hget
    split_ifs at hget
    exact hget

omit [DecidableEq ι] in
/-- A call that has not started is ready on every object. -/
theorem Server.phaseOn_of_none (hcall : h.calls i = none) (r : Ref) :
    h.phaseOn r i = .ready := by
  unfold Server.phaseOn
  rw [hcall]

omit [DecidableEq ι] in
/-- A call is in its phase on its own object only. -/
theorem Server.phaseOn_of_some (hcall : h.calls i = some (r, phase)) (r' : Ref) :
    h.phaseOn r' i = if r = r' then phase else .ready := by
  unfold Server.phaseOn
  rw [hcall]

omit [DecidableEq ι] in
/-- A call that works on an object is in its phase there, and nowhere else. -/
theorem Server.Works.phaseOn (hw : h.Works r i phase) :
    h.phaseOn r i = phase ∧ ∀ r', r' ≠ r → h.phaseOn r' i = .ready := by
  rcases hw.call with ⟨hcall, rfl⟩ | hcall
  · exact ⟨Server.phaseOn_of_none hcall r, fun r' _ => Server.phaseOn_of_none hcall r'⟩
  · refine ⟨?_, fun r' hr' => ?_⟩
    · rw [Server.phaseOn_of_some hcall, if_pos rfl]
    · rw [Server.phaseOn_of_some hcall, if_neg (Ne.symm hr')]

/-- The phases after a segment, on its object and on the others. -/
theorem Server.phaseOn_move (hw : h.Works r i phase) (next : Session) (phase' : Phase) :
    (h.move r i next phase').phaseOn r = Function.update (h.phaseOn r) i phase' ∧
      ∀ r', r' ≠ r → (h.move r i next phase').phaseOn r' = h.phaseOn r' := by
  have hself : (h.move r i next phase').calls i = some (r, phase') := Function.update_self ..
  have hother (j : ι) (hj : j ≠ i) : (h.move r i next phase').calls j = h.calls j :=
    Function.update_of_ne hj ..
  -- The phases of the other calls are read off the same entries.
  have hphases (r' : Ref) (j : ι) (hj : j ≠ i) :
      (h.move r i next phase').phaseOn r' j = h.phaseOn r' j := by
    unfold Server.phaseOn
    rw [hother j hj]
  refine ⟨funext fun j => ?_, fun r' hr => funext fun j => ?_⟩
  · by_cases hj : j = i
    · rw [hj, Function.update_self, Server.phaseOn_of_some hself, if_pos rfl]
    · rw [Function.update_of_ne hj, hphases r j hj]
  · by_cases hj : j = i
    · rw [hj, Server.phaseOn_of_some hself, if_neg (Ne.symm hr), hw.phaseOn.2 r' hr]
    · exact hphases r' j hj

/-- A segment is a step of the machine of its object, and leaves the others where they are. -/
theorem Server.On.advance {c : Chats ι} (hon : h.On r' c) (hw : h.Works r i phase)
    (hadv : h.advance P cfg reg r i phase event = some h') :
    ∃ c', Machine.run (Chats.step P cfg reg) c (proj r' [(r, (i, event))]) = some c' ∧
      h'.On r' c' := by
  obtain ⟨⟨s', recorded, phase'⟩, hseg, rfl⟩ := Option.map_eq_some_iff.mp hadv
  obtain ⟨hphases, hothers⟩ := Server.phaseOn_move hw s' phase'
  -- Segments of other objects are projected away, and leave this one as it is.
  by_cases hr : r' = r
  · subst hr
    have hproj : proj r' [(r', (i, event))] = [(i, event)] := by simp [proj]
    have hstep : c.step P cfg reg (i, event) = some
        { session := s'
          phases := Function.update c.phases i phase'
          sent := Function.update c.sent i (c.sent i ++ recorded) } := by
      unfold Chats.step
      rw [hon.session, hon.phases, hw.phaseOn.1, hseg]
      rfl
    refine ⟨_, by rw [hproj, Machine.run, hstep]; rfl, hon.allocated, ?_, ?_⟩
    · exact (Heap.read_write_self ..).symm
    · rw [hphases, hon.phases]
  · have hproj : proj r' [(r, (i, event))] = [] := by simp [proj, Ne.symm hr]
    refine ⟨c, by rw [hproj]; rfl, hon.allocated, ?_, ?_⟩
    · exact hon.session.trans (Heap.read_write_of_ne _ hr _).symm
    · rw [hothers r' hr, hon.phases]

omit [DecidableEq ι] in
/-- The other objects stay what they are when one is made. -/
theorem Server.On.make {c : Chats ι} (hon : h.On r c) (id : String) (s : Session) :
    (h.make id s).On r c where
  allocated := Nat.lt_succ_of_lt hon.allocated
  session := by
    have hread : (h.make id s).world.heap.read r = h.world.heap.read r :=
      (h.world.heap.extends_alloc s).read_eq r hon.allocated
    rw [hread, hon.session]
  phases := hon.phases

omit [DecidableEq ι] in
/-- No call is on a new object. -/
theorem Server.Allocated.on_make (hinv : h.Allocated) (id : String) (s : Session) :
    (h.make id s).On h.world.heap.next (Chats.start s) where
  allocated := Nat.lt_succ_self _
  session := (h.world.heap.read_alloc s).symm
  phases := by
    funext i
    cases hcall : h.calls i with
    | none => exact (Server.phaseOn_of_none (h := h.make id s) hcall _).symm
    | some call =>
      obtain ⟨r, phase⟩ := call
      have hne : r ≠ h.world.heap.next := (hinv.called i r phase hcall).ne
      rw [Server.phaseOn_of_some (h := h.make id s) hcall, if_neg hne]
      rfl

omit [DecidableEq ι] in
/-- Making a session keeps what is allocated. -/
theorem Server.Allocated.make (hinv : h.Allocated) (id : String) (s : Session) :
    (h.make id s).Allocated where
  stored id' r hget := by
    change (h.world.store.set id h.world.heap.next).get? id' = some r at hget
    rw [OrderedMap.get?_set] at hget
    by_cases hid : id' = id
    · rw [hid, Function.update_self] at hget
      obtain rfl := Option.some.inj hget
      exact Nat.lt_succ_self _
    · rw [Function.update_of_ne hid] at hget
      exact Nat.lt_succ_of_lt (hinv.stored id' r hget)
  called i r phase hcall := Nat.lt_succ_of_lt (hinv.called i r phase hcall)

/-- So does a segment. -/
theorem Server.Allocated.advance (hinv : h.Allocated) (hw : h.Works r i phase)
    (hadv : h.advance P cfg reg r i phase event = some h') : h'.Allocated := by
  obtain ⟨next, -, rfl⟩ := Option.map_eq_some_iff.mp hadv
  refine ⟨hinv.stored, fun j r' phase' hcall => ?_⟩
  by_cases hj : j = i
  · have hself : (h.move r i next.1 next.2.2).calls i = some (r, next.2.2) :=
      Function.update_self ..
    rw [hj, hself] at hcall
    obtain ⟨rfl, -⟩ := Prod.mk.inj (Option.some.inj hcall)
    exact hw.allocated
  · have hother : (h.move r i next.1 next.2.2).calls j = h.calls j := Function.update_of_ne hj ..
    rw [hother] at hcall
    exact hinv.called j r' phase' hcall

omit [DecidableEq ι] in
/-- The call that makes a session works on it. -/
theorem Server.works_make (id : String) (s : Session) (hcall : h.calls i = none) :
    (h.make id s).Works h.world.heap.next i .ready :=
  ⟨Nat.lt_succ_self _, .inl ⟨hcall, rfl⟩⟩

/-- An event keeps what is allocated. -/
theorem Server.Allocated.step (hinv : h.Allocated) {e : ServerEvent ι}
    (hstep : h.step P cfg reg ttl e = some h') : h'.Allocated := by
  rcases Server.step_cases hinv hstep with ⟨store, hsub, -, rfl⟩ | ⟨id, s, -, -, -, rfl⟩ |
    ⟨r, i, phase, event, hw, -, hadv⟩ | ⟨id, s, i, event, -, -, hcall, -, hadv⟩
  · exact ⟨fun id r hget => hinv.stored id r (hsub id r hget), hinv.called⟩
  · exact hinv.make id s
  · exact hinv.advance hw hadv
  · exact (hinv.make id s).advance (Server.works_make id s hcall) hadv

/-- A segment is on no object that does not exist. -/
theorem Server.Free.advance (hfree : h.Free r') (hw : h.Works r i phase)
    (hadv : h.advance P cfg reg r i phase event = some h') :
    h'.Free r' ∧ proj r' [(r, (i, event))] = [] := by
  obtain ⟨next, -, rfl⟩ := Option.map_eq_some_iff.mp hadv
  have hne : r ≠ r' := (Nat.lt_of_lt_of_le hw.allocated hfree).ne
  exact ⟨hfree, by simp [proj, hne]⟩

variable (P cfg reg ttl) in
/-- The server runs one machine for each object. -/
theorem Server.projects :
    Machine.Projects (Chats.step P cfg reg) Chats.New Server.Free Server.On
      (Server.step (ι := ι) P cfg reg ttl) (Server.segments ttl) Server.Allocated
      fun _ _ => True where
  inv h e h' hinv _ hstep := hinv.step hstep
  old h e h' r c hinv _ hstep hon := by
    rcases Server.step_cases hinv hstep with ⟨store, -, hnone, rfl⟩ | ⟨id, s, -, -, hnone, rfl⟩ |
      ⟨r₁, i, phase, event, hw, hone, hadv⟩ | ⟨id, s, i, event, -, -, hcall, hone, hadv⟩
    · rw [hnone]
      exact ⟨c, rfl, hon.allocated, hon.session, hon.phases⟩
    · rw [hnone]
      exact ⟨c, rfl, hon.make id s⟩
    · rw [hone]
      exact hon.advance hw hadv
    · rw [hone]
      exact (hon.make id s).advance (Server.works_make id s hcall) hadv
  new h e h' r hinv _ hstep hfree := by
    rcases Server.step_cases hinv hstep with ⟨store, -, hnone, rfl⟩ | ⟨id, s, hs, -, hnone, rfl⟩ |
      ⟨r₁, i, phase, event, hw, hone, hadv⟩ | ⟨id, s, i, event, hs, -, hcall, hone, hadv⟩
    · rw [hnone]
      exact .inl ⟨hfree, rfl⟩
    · rw [hnone]
      by_cases hr : r = h.world.heap.next
      · rw [hr]
        exact .inr ⟨_, _, ⟨s, hs, rfl⟩, rfl, hinv.on_make id s⟩
      · exact .inl ⟨Nat.lt_of_le_of_ne hfree (Ne.symm hr), rfl⟩
    · rw [hone]
      exact .inl (hfree.advance hw hadv)
    · rw [hone]
      have hworks := Server.works_make id s hcall
      by_cases hr : r = h.world.heap.next
      · -- The session comes up with its first segment.
        rw [hr]
        obtain ⟨c, hrun, hon⟩ := (hinv.on_make id s).advance hworks hadv
        exact .inr ⟨_, c, ⟨s, hs, rfl⟩, hrun, hon⟩
      · have hfree' : (h.make id s).Free r := Nat.lt_of_le_of_ne hfree (Ne.symm hr)
        exact .inl (hfree'.advance hworks hadv)

omit [DecidableEq ι] in
/-- At the start nothing is allocated. -/
theorem Server.allocated_start : (Server.start : Server ι).Allocated where
  stored id r hget := by simp [Server.start] at hget
  called i r phase hcall := by simp [Server.start] at hcall

/-! ## Runs -/

/-- What is allocated stays so. -/
theorem Server.allocated_run {events : List (ServerEvent ι)}
    (hrun : Machine.run (Server.step P cfg reg ttl) Server.start events = some h) : h.Allocated :=
  Machine.run_invariant Server.Allocated (fun _ _ _ hinv _ hstep => hinv.step hstep)
    Server.allocated_start (Machine.EveryRunStep.trivial _ _ events) hrun

/-- After any run, the session of an object is what the machine of this object has made of a new
session, on the segments of the calls that work on it, and these calls are where the machine has
them. What happens on the other objects and to the store in between has no part in it. -/
theorem chats_on_sessions_independent {events : List (ServerEvent ι)}
    (hrun : Machine.run (Server.step P cfg reg ttl) Server.start events = some h)
    (hr : r < h.world.heap.next) :
    ∃ (s : Session) (c : Chats ι), s.messages = [] ∧
      Machine.run (Chats.step P cfg reg) (Chats.start s)
        (proj r (Machine.trace (Server.step P cfg reg ttl) (Server.segments ttl) Server.start
          events)) = some c ∧
      c.session = h.world.heap.read r ∧ c.phases = h.phaseOn r := by
  have hshows := (Machine.run_projects (Server.projects P cfg reg ttl) Server.allocated_start
    (fun _ => Nat.zero_le _) (Machine.EveryRunStep.trivial _ _ events) hrun).2 r
  rcases hshows with ⟨hfree, -⟩ | ⟨_, c, ⟨s, hs, rfl⟩, hpart, hon⟩
  · exact absurd hr (Nat.not_lt_of_le hfree)
  · exact ⟨s, c, hs, hpart, hon.session, hon.phases⟩

/-- A run of the server with two calls of `chat`. -/
def runServer (events : List (ServerEvent Bool)) : Option (Server Bool) :=
  Machine.run (Server.step .bare { system_prompt := "p" } .empty 7200) Server.start events

/-- The second call starts, on a session of its own, while the first awaits its batch. -/
def overlapping : List (ServerEvent Bool) :=
  [.chat false { user_id := "u", message := "hi" } "s" 0,
    .goOn false (.llm (.ok { tool_calls := [plainCall "c1" "read"] }) 1),
    .chat true { user_id := "v", message := "hello" } "t" 2,
    .goOn false (.batch [{ tool_name := .str "read", status := .success, content := "text" }] 3),
    .goOn true (.llm (.ok { content := some "done" }) 4),
    .goOn false (.llm (.ok { content := some "done" }) 5)]

/-- That run has a step for each event. -/
theorem overlapping_runs : (runServer overlapping).isSome := by decide

/-- The machine of the first session has made the first call's segments only. -/
theorem chats_on_sessions_independent_overlapping :
    ∃ h, runServer overlapping = some h ∧ ∃ (s : Session) (c : Chats Bool), s.messages = [] ∧
      Machine.run (Chats.step .bare { system_prompt := "p" } .empty) (Chats.start s)
        (proj 0 (Machine.trace (Server.step .bare { system_prompt := "p" } .empty 7200)
          (Server.segments 7200) Server.start overlapping)) = some c ∧
      c.session = h.world.heap.read 0 ∧ c.phases = h.phaseOn 0 :=
  have hrun : runServer overlapping = some ((runServer overlapping).get overlapping_runs) := by simp
  have hr : 0 < ((runServer overlapping).get overlapping_runs).world.heap.next := by decide
  ⟨_, hrun, chats_on_sessions_independent hrun hr⟩

/-- What is not stored under an id stays away until an event makes a session under it. -/
theorem Server.get?_step (hinv : h.Allocated) {e : ServerEvent ι} {id : String}
    (hid : ¬ e.Makes id) (hstep : h.step P cfg reg ttl e = some h')
    (hnone : h.world.store.get? id = none) : h'.world.store.get? id = none := by
  -- Segments do not touch the store.
  have hadvance {h₁ : Server ι} {r : Ref} {i : ι} {phase : Phase} {event : Event}
      (hadv : h₁.advance P cfg reg r i phase event = some h') :
      h'.world.store = h₁.world.store := by
    obtain ⟨next, -, rfl⟩ := Option.map_eq_some_iff.mp hadv
    rfl
  have hmake {id' : String} (hmakes : e.Makes id') (s : Session) :
      (h.make id' s).world.store.get? id = none := by
    have hne : id ≠ id' := fun heq => hid (heq ▸ hmakes)
    exact (OrderedMap.get?_set_of_ne _ hne _).trans hnone
  rcases Server.step_cases hinv hstep with ⟨store, hsub, -, rfl⟩ | ⟨id', s, -, hmakes, -, rfl⟩ |
    ⟨r, i, phase, event, -, -, hadv⟩ | ⟨id', s, i, event, -, hmakes, -, -, hadv⟩
  · cases hget : store.get? id with
    | none => rfl
    | some r => exact absurd (hsub id r hget) (by simp [hnone])
  · exact hmake hmakes s
  · rw [hadvance hadv, hnone]
  · rw [hadvance hadv, hmake hmakes s]

/-- Once a session is deleted or cleaned up, it stays away until one is made under its id, whatever
calls still work on its object: its history is not found, and a request that names it is answered on
a new session. -/
theorem deleted_stays_deleted {events events' : List (ServerEvent ι)} {id : String}
    (hrun : Machine.run (Server.step P cfg reg ttl) Server.start events = some h)
    (hnone : memoryContents.view h.world id = none)
    (hrun' : Machine.run (Server.step P cfg reg ttl) h events' = some h')
    (hids : ∀ e ∈ events', ¬ e.Makes id) :
    (getHistory (memorySessionManager ttl) id h'.world).1 = .error sessionNotFound ∧
      ∀ (request : ChatRequest) (session_id : String) (now : Time), request.session_id = some id →
        (getOrCreateSession (memorySessionManager ttl) request session_id now h'.world).1 =
          h'.world.heap.next := by
  have hinv := Server.allocated_run hrun
  have haway : h'.Allocated ∧ h'.world.store.get? id = none := by
    have hok : Machine.EveryRunStep (Server.step P cfg reg ttl) (fun _ e => ¬ e.Makes id) h
        events' :=
      -- Neither is the id stored nor does it come back, as long as no event makes it.
      .of_forall _ hids h
    refine Machine.run_invariant (fun h : Server ι => h.Allocated ∧ h.world.store.get? id = none)
      ?_ ⟨hinv, Option.map_eq_none_iff.mp hnone⟩ hok hrun'
    rintro h e h' ⟨hinv, hnone⟩ hid hstep
    exact ⟨hinv.step hstep, Server.get?_step hinv hid hstep hnone⟩
  have hget : (memorySessionManager ttl).get id h'.world = (none, h'.world) :=
    congrArg (·, h'.world) haway.2
  constructor
  · unfold getHistory
    rw [hget]
  · intro request session_id now hnamed
    -- A request that names the id finds nothing under it.
    have hfound : request.sessionRef h'.world.store = none := by
      unfold ChatRequest.sessionRef
      rw [hnamed]
      cases htruthy : truthy? (some id) with
      | none => rfl
      | some named =>
        obtain ⟨hid, -⟩ := Option.filter_eq_some_iff.mp htruthy
        obtain rfl := Option.some.inj hid
        exact haway.2
    rw [getOrCreateSession_memory, hfound]

/-- A call makes a session, which is deleted while the call awaits the LLM. -/
def deletedInBetween : List (ServerEvent Bool) :=
  [.chat false { user_id := "u", message := "hi" } "s" 0, .delete "s"]

/-- The call goes on with what has been deleted, and the other makes a session. -/
def afterDeletion : List (ServerEvent Bool) :=
  [.goOn false (.llm (.ok { content := some "done" }) 1),
    .chat true { user_id := "u", message := "hello" } "t" 2]

/-- The first run has a step for each event. -/
theorem deletedInBetween_runs : (runServer deletedInBetween).isSome := by decide

/-- The session is away in the end. -/
theorem deleted_stays_deleted_in_between :
    ∃ h', Machine.run (Server.step .bare { system_prompt := "p" } .empty 7200)
        ((runServer deletedInBetween).get deletedInBetween_runs) afterDeletion = some h' ∧
      (getHistory (memorySessionManager 7200) "s" h'.world).1 = .error sessionNotFound ∧
      ∀ (request : ChatRequest) (session_id : String) (now : Time), request.session_id = some "s" →
        (getOrCreateSession (memorySessionManager 7200) request session_id now h'.world).1 =
          h'.world.heap.next := by
  have hrun : runServer deletedInBetween =
    some ((runServer deletedInBetween).get deletedInBetween_runs) := by simp
  have hsome : (Machine.run (Server.step .bare { system_prompt := "p" } .empty 7200)
    ((runServer deletedInBetween).get deletedInBetween_runs) afterDeletion).isSome := by decide
  have hnone : memoryContents.view ((runServer deletedInBetween).get deletedInBetween_runs).world
    "s" = none := by rfl
  obtain ⟨h', hrun'⟩ := Option.isSome_iff_exists.mp hsome
  refine ⟨h', hrun', deleted_stays_deleted hrun hnone hrun' ?_⟩
  simp [afterDeletion, ServerEvent.Makes]

/-! ## One call at a time on a session -/

/-- The call has started and not ended. -/
def Phase.UnderWay : Phase → Prop
  | .awaitsLlm .. | .awaitsBatch .. => True
  | .ready | .finished _ => False

instance : DecidablePred Phase.UnderWay
  | .awaitsLlm .. | .awaitsBatch .. => .isTrue trivial
  | .ready | .finished _ => .isFalse id

/-- A call that starts does so on a session on which no other is under way. -/
def Server.Alone (ttl : ℤ) (h : Server ι) (e : ServerEvent ι) : Prop :=
  ∀ x ∈ h.segments ttl e, (h.calls x.2.1).isNone → ∀ j, ¬ (h.phaseOn x.1 j).UnderWay

instance (ttl : ℤ) (h : Server Bool) (e : ServerEvent Bool) : Decidable (h.Alone ttl e) :=
  inferInstanceAs (Decidable (∀ x ∈ _, _ → ∀ _ : Bool, _))

/-- On each object at most one call is under way. -/
structure Server.Serial (h : Server ι) : Prop extends h.Allocated where
  started : ∀ i r, h.calls i ≠ some (r, .ready)
  one : ∀ r i j, (h.phaseOn r i).UnderWay → (h.phaseOn r j).UnderWay → i = j

/-- A segment starts a call or goes on with one, which has then started. -/
theorem segment_phase {s s' : Session} {phase phase' : Phase} {event : Event}
    {recorded : List Message}
    (hseg : segment P cfg reg s phase event = some (s', recorded, phase')) :
    (phase = .ready ∨ phase.UnderWay) ∧ phase' ≠ .ready := by
  -- Whatever the round, entering it does not lead back to the start.
  have henter (s : Session) (now : Time) (msgs : List Message) (log : List ExecutionResult)
      (n : ℕ) : (enterRound P cfg reg s now msgs log n).2.2 ≠ .ready := by
    cases n with
    | zero => simp [enterRound]
    | succ rest =>
      unfold enterRound
      generalize roundHead P cfg reg (s.addMessages now msgs) = head
      obtain ⟨s₁, e | call⟩ := head
      · simp
      · simp
  -- Each phase takes its own events only; the others are refused.
  cases phase with
  | ready =>
    cases event with
    | start request now =>
      have hphase := henter s now [userMessage request] [] cfg.max_chain_depth.toNat
      rw [Option.some.inj hseg] at hphase
      exact ⟨.inl rfl, hphase⟩
    | llm reply now => cases hseg
    | batch results now => cases hseg
    | interrupt e => cases hseg
  | awaitsLlm rest log =>
    cases event with
    | llm reply now =>
      obtain ⟨-, -, rfl⟩ : _ ∧ _ ∧ _ = phase' := by simpa [segment] using hseg
      refine ⟨.inr trivial, ?_⟩
      cases (onReply P cfg s.session_id reply).2 <;> simp
    | start request now => cases hseg
    | batch results now => cases hseg
    | interrupt e => cases hseg
  | awaitsBatch rest log calls requests =>
    cases event with
    | batch results now =>
      simp only [segment] at hseg
      split_ifs at hseg
      have hphase := henter s now (resultMessages calls results) (log ++ results) rest
      rw [Option.some.inj hseg] at hphase
      exact ⟨.inr trivial, hphase⟩
    | interrupt e =>
      obtain ⟨-, -, rfl⟩ : _ ∧ _ ∧ _ = phase' := by simpa [segment] using hseg
      exact ⟨.inr trivial, by simp⟩
    | start request now => cases hseg
    | llm reply now => cases hseg
  | finished result => cases event <;> cases hseg

omit [DecidableEq ι] in
/-- In a segment, no other call is under way on its object. -/
theorem Server.Serial.others (hs : h.Serial) {e : ServerEvent ι} (hok : h.Alone ttl e)
    (hone : h.segments ttl e = [(r, (i, event))]) (hw : h.Works r i phase)
    (hphase : phase = .ready ∨ phase.UnderWay) :
    ∀ j, j ≠ i → ¬ (h.phaseOn r j).UnderWay := by
  intro j hj hunder
  rcases hw.call with ⟨hcall, -⟩ | hcall
  · -- The call starts.
    exact hok (r, (i, event)) (by simp [hone]) (by simp [hcall]) j hunder
  · -- The call goes on, and is under way itself.
    rcases hphase with rfl | hphase
    · exact hs.started i r hcall
    · exact hj (hs.one r j i hunder (by rwa [hw.phaseOn.1]))

/-- A segment keeps the calls one at a time. -/
theorem Server.Serial.advance (hs : h.Serial) (hw : h.Works r i phase)
    (hothers : ∀ j, j ≠ i → ¬ (h.phaseOn r j).UnderWay)
    (hadv : h.advance P cfg reg r i phase event = some h') : h'.Serial := by
  have hallocated := hs.toAllocated.advance hw hadv
  obtain ⟨⟨s', recorded, phase'⟩, hseg, rfl⟩ := Option.map_eq_some_iff.mp hadv
  obtain ⟨hphases, hframe⟩ := Server.phaseOn_move hw s' phase'
  refine ⟨hallocated, fun j r' hcall => ?_, fun r' j k hj hk => ?_⟩
  · by_cases hji : j = i
    · have hself : (h.move r i s' phase').calls i = some (r, phase') := Function.update_self ..
      rw [hji, hself] at hcall
      exact (segment_phase hseg).2 (Prod.mk.inj (Option.some.inj hcall)).2
    · have hother : (h.move r i s' phase').calls j = h.calls j := Function.update_of_ne hji ..
      rw [hother] at hcall
      exact hs.started j r' hcall
  · by_cases hr : r' = r
    · -- On the object of the segment only its own call is under way.
      have hself (k : ι) (hk : ((h.move r i s' phase').phaseOn r' k).UnderWay) : k = i := by
        by_contra hki
        rw [hr, hphases, Function.update_of_ne hki] at hk
        exact hothers k hki hk
      exact (hself j hj).trans (hself k hk).symm
    · rw [hframe r' hr] at hj hk
      exact hs.one r' j k hj hk

omit [DecidableEq ι] in
/-- Making a session keeps the calls one at a time. -/
theorem Server.Serial.make (hs : h.Serial) (id : String) (s : Session) : (h.make id s).Serial :=
  ⟨hs.toAllocated.make id s, hs.started, hs.one⟩

omit [DecidableEq ι] in
/-- No call is under way on a new object. -/
theorem Server.Allocated.not_underWay (hinv : h.Allocated) (id : String) (s : Session) (j : ι) :
    ¬ ((h.make id s).phaseOn h.world.heap.next j).UnderWay := by
  rw [← (hinv.on_make id s).phases]
  exact fun hunder => hunder

/-- A call that awaits its batch is under way. -/
theorem Phase.AwaitsBatch.underWay (hawaits : phase.AwaitsBatch) : phase.UnderWay := by
  cases phase with
  | awaitsBatch => trivial
  | ready => exact hawaits
  | awaitsLlm => exact trivial
  | finished => exact hawaits

/-- A segment with no other call under way on its object leaves every session intact. -/
theorem Server.On.intact_advance {c : Chats ι} {s : Session} (hon : h.On r' c)
    (hintact : c.Intact s) (hw : h.Works r i phase)
    (hothers : ∀ j, j ≠ i → ¬ (h.phaseOn r j).UnderWay)
    (hadv : h.advance P cfg reg r i phase event = some h') :
    ∃ c', Machine.run (Chats.step P cfg reg) c (proj r' [(r, (i, event))]) = some c' ∧
      h'.On r' c' ∧ c'.Intact s := by
  obtain ⟨c', hrun, hon'⟩ := hon.advance hw hadv
  refine ⟨c', hrun, hon', ?_⟩
  -- Another object's segment is no step of these chats.
  by_cases hr : r' = r
  · subst hr
    have hproj : proj r' [(r', (i, event))] = [(i, event)] := by simp [proj]
    rw [hproj, Machine.run] at hrun
    obtain ⟨c₁, hstep, hrun⟩ := Option.bind_eq_some_iff.mp hrun
    obtain rfl := Option.some.inj hrun
    -- In the object itself no other chat is under way, so none awaits a batch.
    have hquiet : QuietStep c (i, event) := by
      intro _ j hj hawaits
      rw [hon.phases] at hawaits
      exact hothers j hj hawaits.underWay
    exact Chats.intact_step hintact hquiet hstep
  · have hproj : proj r' [(r, (i, event))] = [] := by simp [proj, Ne.symm hr]
    rw [hproj] at hrun
    obtain rfl := Option.some.inj hrun
    exact hintact

/-- The machine of an object, intact. -/
def Server.OnIntact (h : Server ι) (r : Ref) (c : Chats ι) : Prop :=
  h.On r c ∧ ∃ s : Session, s.messages = [] ∧ c.Intact s

variable (P cfg reg ttl) in
/-- The server runs one machine for each object, and keeps it intact where calls are one at a
time. -/
theorem Server.projects_intact :
    Machine.Projects (Chats.step P cfg reg) Chats.New Server.Free Server.OnIntact
      (Server.step (ι := ι) P cfg reg ttl) (Server.segments ttl) Server.Serial
      (Server.Alone ttl) where
  inv h e h' hs hok hstep := by
    rcases Server.step_cases hs.toAllocated hstep with ⟨store, hsub, -, rfl⟩ |
      ⟨id, s, -, -, -, rfl⟩ | ⟨r, i, phase, event, hw, hone, hadv⟩ |
      ⟨id, s, i, event, -, -, hcall, -, hadv⟩
    · exact ⟨hs.toAllocated.step hstep, hs.started, hs.one⟩
    · exact hs.make id s
    · obtain ⟨next, hseg, -⟩ := Option.map_eq_some_iff.mp hadv
      exact hs.advance hw (hs.others hok hone hw (segment_phase hseg).1) hadv
    · exact (hs.make id s).advance (Server.works_make id s hcall)
        (fun j _ => hs.toAllocated.not_underWay id s j) hadv
  old h e h' r c hs hok hstep hon := by
    obtain ⟨hon, s₀, hs₀, hintact⟩ := hon
    rcases Server.step_cases hs.toAllocated hstep with ⟨store, -, hnone, rfl⟩ |
      ⟨id, s, -, -, hnone, rfl⟩ | ⟨r₁, i, phase, event, hw, hone, hadv⟩ |
      ⟨id, s, i, event, -, -, hcall, hone, hadv⟩
    · rw [hnone]
      exact ⟨c, rfl, ⟨hon.allocated, hon.session, hon.phases⟩, s₀, hs₀, hintact⟩
    · rw [hnone]
      exact ⟨c, rfl, hon.make id s, s₀, hs₀, hintact⟩
    · obtain ⟨next, hseg, -⟩ := Option.map_eq_some_iff.mp hadv
      obtain ⟨c', hrun, hon', hintact'⟩ := hon.intact_advance hintact hw
        (hs.others hok hone hw (segment_phase hseg).1) hadv
      rw [hone]
      exact ⟨c', hrun, hon', s₀, hs₀, hintact'⟩
    · obtain ⟨c', hrun, hon', hintact'⟩ := (hon.make id s).intact_advance hintact
        (Server.works_make id s hcall) (fun j _ => hs.toAllocated.not_underWay id s j) hadv
      rw [hone]
      exact ⟨c', hrun, hon', s₀, hs₀, hintact'⟩
  new h e h' r hs hok hstep hfree := by
    rcases Server.step_cases hs.toAllocated hstep with ⟨store, -, hnone, rfl⟩ |
      ⟨id, s, hs₀, -, hnone, rfl⟩ | ⟨r₁, i, phase, event, hw, hone, hadv⟩ |
      ⟨id, s, i, event, hs₀, -, hcall, hone, hadv⟩
    · rw [hnone]
      exact .inl ⟨hfree, rfl⟩
    · rw [hnone]
      by_cases hr : r = h.world.heap.next
      · rw [hr]
        exact .inr ⟨_, _, ⟨s, hs₀, rfl⟩, rfl, hs.on_make id s, s, hs₀, Chats.intact_start s⟩
      · exact .inl ⟨Nat.lt_of_le_of_ne hfree (Ne.symm hr), rfl⟩
    · rw [hone]
      exact .inl (hfree.advance hw hadv)
    · rw [hone]
      have hworks := Server.works_make id s hcall
      by_cases hr : r = h.world.heap.next
      · -- The session comes up with its first segment, and no other call is under way on it.
        rw [hr]
        obtain ⟨c, hrun, hon, hintact⟩ := (hs.on_make id s).intact_advance (Chats.intact_start s)
          hworks (fun j _ => hs.toAllocated.not_underWay id s j) hadv
        exact .inr ⟨_, c, ⟨s, hs₀, rfl⟩, hrun, hon, s, hs₀, hintact⟩
      · have hfree' : (h.make id s).Free r := Nat.lt_of_le_of_ne hfree (Ne.symm hr)
        exact .inl (hfree'.advance hworks hadv)

omit [DecidableEq ι] in
/-- At the start no call is under way. -/
theorem Server.serial_start : (Server.start : Server ι).Serial where
  toAllocated := Server.allocated_start
  started i r hcall := by simp [Server.start] at hcall
  one r i j hi := hi.elim

/-- Where the calls of each session are made one after the other, a stored session whose calls have
all returned is made of turns: every ASSISTANT message with tool calls is followed by exactly its
TOOL messages, all of the same call of chat, however the calls of different sessions and the other
clients alternate. -/
theorem sessions_in_turn_intact {events : List (ServerEvent ι)} {id : String}
    (hok : Machine.EveryRunStep (Server.step P cfg reg ttl) (Server.Alone ttl) Server.start events)
    (hrun : Machine.run (Server.step P cfg reg ttl) Server.start events = some h)
    (hr : h.world.store.get? id = some r) (hreturned : ∀ i, (h.phaseOn r i).Returned) :
    ∃ log : List (ι × Message),
      (h.world.heap.read r).messages = log.map Prod.snd ∧ Blocks tagCalls tagAnswer log := by
  obtain ⟨hserial, hshows⟩ := Machine.run_projects (Server.projects_intact P cfg reg ttl)
    Server.serial_start (fun _ => Nat.zero_le _) hok hrun
  rcases hshows r with ⟨hfree, -⟩ | ⟨_, c, -, -, hon, s, hs, hintact⟩
  · exact absurd (hserial.stored id r hr) (Nat.not_lt_of_le hfree)
  · rw [← hon.phases] at hreturned
    obtain ⟨log, hlog, hblocks⟩ := hintact.blocks hreturned
    refine ⟨log, ?_, hblocks⟩
    rw [← hon.session, hlog.messages, hs, List.nil_append]

/-- The first session, whose call ran while the other did. -/
theorem sessions_in_turn_intact_overlapping :
    ∃ h, runServer overlapping = some h ∧ ∃ log : List (Bool × Message),
      (h.world.heap.read 0).messages = log.map Prod.snd ∧ Blocks tagCalls tagAnswer log :=
  have hrun : runServer overlapping = some ((runServer overlapping).get overlapping_runs) := by simp
  have hok : Machine.EveryRunStep (Server.step .bare { system_prompt := "p" } .empty 7200)
    (Server.Alone 7200) Server.start overlapping := by decide
  have hr : ((runServer overlapping).get overlapping_runs).world.store.get? "s" = some 0 := by
    decide
  have hreturned : ∀ i, (((runServer overlapping).get overlapping_runs).phaseOn 0 i).Returned := by
    decide
  ⟨_, hrun, sessions_in_turn_intact hok hrun hr hreturned⟩

end Server

end YellowBull
