import YellowBull.Agent.Footprint
import YellowBull.Agent.Outcomes
import YellowBull.SessionManager.Adapters

/-!
# The sessions of several users

Runs of `Agent.chat` by several users over the store of a `MemorySessionAdapter`. A request works on
the session that it names, whoever's it is, or on a new one: `_get_or_create_session` does not look
at the user of a session.

Where a user names no session of another, and no other names one of the user's, the sessions of the
two sides stay apart, and where the tool calls share no key of the cache either, the outputs to the
user's requests are those of the run without the others (`user_isolated`). The relation between the
two runs says that the second one has just the sessions of that user, the same by value, and that
the caches have the same under the keys that the user's tool calls have. A request of the user keeps
it since it does the same in both runs; one of another user keeps it since it changes a session of
another user and no such key.
-/

namespace YellowBull

open Py

open OrderedMap (AgreeOn)

/-! ## The store by value -/

/-- Each session is stored under its own id, as an object that exists. -/
def World.Keyed (w : World MemoryStore) : Prop :=
  ∀ id r, w.store.get? id = some r → r < w.heap.next ∧ (w.heap.read r).session_id = id

/-- Writing to the object of a stored session changes this session. -/
theorem World.Keyed.write {w : World MemoryStore} (hw : w.Keyed) {id : String} {r : Ref}
    (hr : w.store.get? id = some r) {s : Session} (hs : s.session_id = id) :
    World.Keyed { w with heap := w.heap.write r s } ∧
      memoryContents.view { w with heap := w.heap.write r s } =
        Function.update (memoryContents.view w) id (some s) := by
  -- No other id leads to the object.
  have hne : ∀ id' r', w.store.get? id' = some r' → id' ≠ id → r' ≠ r := by
    rintro id' r' hr' hid' rfl
    exact hid' ((hw id' r' hr').2.symm.trans (hw id r' hr).2)
  constructor
  · intro id' r' hr'
    refine ⟨(hw id' r' hr').1, ?_⟩
    by_cases hid' : id' = id
    · subst hid'
      obtain rfl := Option.some.inj (hr.symm.trans hr')
      rw [Heap.read_write_self, hs]
    · rw [Heap.read_write_of_ne _ (hne id' r' hr' hid')]
      exact (hw id' r' hr').2
  · funext id'
    simp only [memoryContents, dictView]
    by_cases hid' : id' = id
    · rw [hid', hr, Function.update_self, Option.map_some, Heap.read_write_self]
    · rw [Function.update_of_ne hid', dictView]
      cases hr' : w.store.get? id' with
      | none => rfl
      | some r' =>
        rw [Option.map_some, Option.map_some, Heap.read_write_of_ne _ (hne id' r' hr' hid')]

/-- A new session is stored under its id. -/
theorem World.Keyed.create {w : World MemoryStore} (hw : w.Keyed) (s : Session) :
    World.Keyed ⟨w.store.set s.session_id w.heap.next, (w.heap.alloc s).2⟩ ∧
      memoryContents.view ⟨w.store.set s.session_id w.heap.next, (w.heap.alloc s).2⟩ =
        Function.update (memoryContents.view w) s.session_id (some s) := by
  -- The new object has its own id, and the objects there before are not touched.
  have hext := w.heap.extends_alloc s
  constructor
  · intro id r hr
    simp only [OrderedMap.get?_set, Function.update_apply] at hr
    split_ifs at hr with hid
    · obtain rfl := Option.some.inj hr
      exact ⟨w.heap.alloc_lt_next s, by rw [hid]; exact congrArg _ (w.heap.read_alloc s)⟩
    · obtain ⟨hlt, hkey⟩ := hw id r hr
      exact ⟨Nat.lt_of_lt_of_le hlt hext.next_le, by rw [hext.read_eq r hlt, hkey]⟩
  -- The view of the larger heap is the old one, at every other id.
  · have hview := dictView_set (w.heap.alloc s).2.read w.store s.session_id w.heap.next
    have hold : dictView (w.heap.alloc s).2.read w.store = memoryContents.view w :=
      memoryContents.view_extends (fun id r hr => (hw id r hr).1) hext
    rw [hold] at hview
    exact hview.trans (congrArg _ (congrArg some (w.heap.read_alloc s)))

/-! ## One request -/

/-- A call of `Agent.chat`, with the id and the time of a session that it makes and what happens
outside. -/
structure ChatOp where
  request : ChatRequest
  session_id : String
  now : Time
  outside : Behaviour

/-- The session that a call makes if it makes one. -/
def ChatOp.newSession (op : ChatOp) : Session :=
  { session_id := op.session_id, user_id := op.request.user_id, updated_at := op.now }

/-- What comes of a call: its result and the calls of the LLM. -/
structure ChatOutput where
  result : Except Exn ChatResponse
  llm_calls : List LLMCall

section Step

variable (P : Platform) (cfg : AgentConfig) (reg : ToolRegistry) (ttl : ℤ)

/-- A call of `Agent.chat` with its session manager. -/
def chatStep (h : AgentState MemoryStore) (op : ChatOp) : AgentState MemoryStore × ChatOutput :=
  let M := memorySessionManager ttl
  let (h', result) := h.chat P cfg reg M op.request op.session_id op.now op.outside
  let run := h.chatRun P cfg reg M op.request op.session_id op.now op.outside
  (h', { result, llm_calls := run.llm_calls })

/-- The session that a call works on: the one that it names, if it is stored, or a new one. -/
def AgentState.sessionOf (h : AgentState MemoryStore) (op : ChatOp) : Session :=
  (op.request.found (memoryContents.view h.world)).getD op.newSession

/-- The run of `chat` that a call makes. -/
def AgentState.runOf (h : AgentState MemoryStore) (op : ChatOp) : ChatRun :=
  YellowBull.chat P cfg reg op.outside (h.sessionOf op) h.cache op.request

variable {P cfg reg ttl}

/-- A call runs on the session that it works on, and puts the outcome in its place. -/
theorem chatStep_spec {h : AgentState MemoryStore} (hw : h.world.Keyed) (op : ChatOp) :
    ∃ w, chatStep P cfg reg ttl h op = (⟨w, (h.runOf P cfg reg op).cache⟩,
        ⟨(h.runOf P cfg reg op).result, (h.runOf P cfg reg op).llm_calls⟩) ∧
      w.Keyed ∧ memoryContents.view w = Function.update (memoryContents.view h.world)
        (h.sessionOf op).session_id (some (h.runOf P cfg reg op).session) := by
  have hfound : op.request.found (memoryContents.view h.world) =
      (op.request.sessionRef h.world.store).map h.world.heap.read := by
    unfold ChatRequest.found ChatRequest.sessionRef
    cases truthy? op.request.session_id <;> rfl
  have hid := chat_session_id P cfg reg op.outside (h.sessionOf op) h.cache op.request
  unfold chatStep AgentState.chat AgentState.chatRun
  simp only [getOrCreateSession_memory]
  -- The chat runs on a stored session, or on a new one that is stored before it runs.
  cases hr : op.request.sessionRef h.world.store with
  | some r =>
    obtain ⟨id, -, hget⟩ := Option.bind_eq_some_iff.mp hr
    have hs : h.sessionOf op = h.world.heap.read r := by
      rw [AgentState.sessionOf, hfound, hr, Option.map_some, Option.getD_some]
    rw [hs, (hw id r hget).2] at hid
    obtain ⟨hkeyed, hview⟩ := hw.write hget hid
    unfold AgentState.runOf
    rw [hs, (hw id r hget).2]
    exact ⟨_, rfl, hkeyed, hview⟩
  | none =>
    have hs : h.sessionOf op = op.newSession := by
      rw [AgentState.sessionOf, hfound, hr, Option.map_none, Option.getD_none]
    rw [hs] at hid
    obtain ⟨hkeyed, hview⟩ := hw.create op.newSession
    -- What is written is the session that was stored just now, so the two updates are one.
    obtain ⟨hkeyed', hview'⟩ := hkeyed.write (OrderedMap.get?_set_self ..) hid
    rw [hview, Function.update_idem] at hview'
    unfold AgentState.runOf
    rw [hs]
    refine ⟨_, ?_, hkeyed', hview'⟩
    have hread : (h.world.heap.alloc
        ⟨op.session_id, op.request.user_id, [], {}, none, op.now⟩).2.read h.world.heap.next =
          op.newSession := h.world.heap.read_alloc op.newSession
    simp only [hread]
    rfl

/-- A session that is found is stored under its id. -/
theorem view_of_found {w : World MemoryStore} (hw : w.Keyed) {request : ChatRequest} {s : Session}
    (hs : request.found (memoryContents.view w) = some s) :
    memoryContents.view w s.session_id = some s := by
  obtain ⟨id, -, hview⟩ := Option.bind_eq_some_iff.mp hs
  obtain ⟨r, hr, rfl⟩ := Option.map_eq_some_iff.mp hview
  rw [(hw id r hr).2]
  exact hview

/-! ## Two runs -/

/-- A request of the user names no stored session of another, and one of another names none of the
user's. -/
def AgentState.KeepsApart (h : AgentState MemoryStore) (A : String) (op : ChatOp) : Prop :=
  ∀ s ∈ op.request.found (memoryContents.view h.world),
    (s.user_id = A ↔ op.request.user_id = A)

/-- The id that `uuid4` makes for a session is that of no stored session. -/
def AgentState.NewId (h : AgentState MemoryStore) (op : ChatOp) : Prop :=
  memoryContents.view h.world op.session_id = none

instance (h : AgentState MemoryStore) (A : String) : DecidablePred (h.KeepsApart A) := fun op =>
  inferInstanceAs (Decidable (∀ s ∈ op.request.found (memoryContents.view h.world),
    (s.user_id = A ↔ op.request.user_id = A)))

instance (h : AgentState MemoryStore) : DecidablePred h.NewId := fun op =>
  inferInstanceAs (Decidable (memoryContents.view h.world op.session_id = none))

/-- The second state has what is user `A`'s in the first one: the sessions, and the cache under the
keys in `K`. -/
structure Keeps (K : String → Prop) (A : String) (h t : AgentState MemoryStore) : Prop where
  keyed : h.world.Keyed
  keyed' : t.world.Keyed
  sessions : ∀ id, memoryContents.view t.world id =
    (memoryContents.view h.world id).filter (·.user_id = A)
  cache : AgreeOn K h.cache t.cache

variable {K : String → Prop} {A : String} {h t : AgentState MemoryStore} {op : ChatOp}

/-- A call works on a session of the user just when it is one of the user. -/
theorem user_id_sessionOf_iff (hapart : h.KeepsApart A op) :
    (h.sessionOf op).user_id = A ↔ op.request.user_id = A := by
  unfold AgentState.sessionOf
  cases hfound : op.request.found (memoryContents.view h.world) with
  | none => exact Iff.rfl
  | some s => exact hapart s hfound

/-- The user of the session stays who it was. -/
theorem user_id_runOf_iff (hapart : h.KeepsApart A op) :
    (h.runOf P cfg reg op).session.user_id = A ↔ op.request.user_id = A := by
  unfold AgentState.runOf
  rw [chat_user_id, user_id_sessionOf_iff hapart]

/-- A request of the user finds the same session on both sides. -/
theorem Keeps.sessionOf_eq (hkeeps : Keeps K A h t) (huser : op.request.user_id = A)
    (hapart : h.KeepsApart A op) : t.sessionOf op = h.sessionOf op := by
  have hfound : op.request.found (memoryContents.view t.world) =
      op.request.found (memoryContents.view h.world) := by
    unfold AgentState.KeepsApart at hapart
    unfold ChatRequest.found at hapart ⊢
    cases hnamed : truthy? op.request.session_id with
    | none => rfl
    | some id =>
      rw [hnamed] at hapart
      rw [Option.bind_some, Option.bind_some, hkeeps.sessions id]
      cases hview : memoryContents.view h.world id with
      | none => rfl
      | some s =>
        have hs : s.user_id = A := (hapart s hview).mpr huser
        simp [hs]
  rw [AgentState.sessionOf, hfound, AgentState.sessionOf]

/-- A request of the user does the same on both sides. -/
theorem Keeps.own (hkeeps : Keeps K A h t) (huser : op.request.user_id = A)
    (hapart : h.KeepsApart A op) (hkeys : ∀ key, op.outside.Reads P cfg key → K key) :
    (chatStep P cfg reg ttl h op).2 = (chatStep P cfg reg ttl t op).2 ∧
      Keeps K A (chatStep P cfg reg ttl h op).1 (chatStep P cfg reg ttl t op).1 := by
  have hsession := hkeeps.sessionOf_eq huser hapart
  obtain ⟨cache', hrun, hcache⟩ :=
    chat_congr reg hkeys (h.sessionOf op) hkeeps.cache op.request
  have hsame : t.runOf P cfg reg op = { h.runOf P cfg reg op with cache := cache' } := by
    rw [AgentState.runOf, hsession]
    exact hrun
  obtain ⟨w, hstep, hw, hview⟩ := @chatStep_spec P cfg reg ttl h hkeeps.keyed op
  obtain ⟨w', hstep', hw', hview'⟩ := @chatStep_spec P cfg reg ttl t hkeeps.keyed' op
  rw [hstep, hstep', hsame]
  refine ⟨rfl, hw, hw', fun id => ?_, hcache⟩
  -- The session is written on both sides.
  simp only [hview, hview', hsame, hsession, Function.update_apply]
  split_ifs
  · have huser' : (h.runOf P cfg reg op).session.user_id = A :=
      (user_id_runOf_iff hapart).mpr huser
    rw [Option.filter_some, if_pos (by simpa using huser')]
  · exact hkeeps.sessions id

/-- A request of another user leaves what is the user's alone. -/
theorem Keeps.other (hkeeps : Keeps K A h t) (huser : op.request.user_id ≠ A)
    (hapart : h.KeepsApart A op) (hnew : h.NewId op)
    (hkeys : ∀ key, K key → ¬ op.outside.Writes P cfg reg key) :
    Keeps K A (chatStep P cfg reg ttl h op).1 t := by
  obtain ⟨w, hstep, hw, hview⟩ := @chatStep_spec P cfg reg ttl h hkeeps.keyed op
  rw [hstep]
  refine ⟨hw, hkeeps.keyed', fun id => ?_, fun key hkey => ?_⟩
  · simp only [hview, Function.update_apply]
    split_ifs with hid
    · -- The session that is written was not the user's before, either.
      have hstranger : (h.runOf P cfg reg op).session.user_id ≠ A :=
        (user_id_runOf_iff hapart).not.mpr huser
      rw [hkeeps.sessions id, hid, Option.filter_some, if_neg (by simpa using hstranger)]
      unfold AgentState.sessionOf
      cases hfound : op.request.found (memoryContents.view h.world) with
      | none =>
        rw [Option.getD_none, ChatOp.newSession, hnew]
        rfl
      | some s =>
        have hs : s.user_id ≠ A := (hapart s hfound).not.mpr huser
        rw [Option.getD_some, view_of_found hkeeps.keyed hfound, Option.filter_some,
          if_neg (by simpa using hs)]
    · exact hkeeps.sessions id
  · simp only [AgentState.runOf, chat_get? (hkeys key hkey)]
    exact hkeeps.cache key hkey

/-! ## Runs -/

variable (P cfg reg ttl) in
/-- The state after a sequence of calls to a new agent. -/
def afterChats (ops : List ChatOp) : AgentState MemoryStore :=
  Machine.state (chatStep P cfg reg ttl) (.start .empty) ops

/-- The empty store is keyed. -/
theorem keyed_start : (AgentState.start (OrderedMap.empty : MemoryStore)).world.Keyed := by
  intro id r hr
  cases hr

/-- The store stays keyed. -/
theorem keyed_afterChats (ops : List ChatOp) : (afterChats P cfg reg ttl ops).world.Keyed := by
  refine Machine.state_invariant (fun h : AgentState MemoryStore => h.world.Keyed)
    (fun h op hw => ?_) keyed_start ops
  obtain ⟨w, hstep, hw', -⟩ := @chatStep_spec P cfg reg ttl h hw op
  rw [hstep]
  exact hw'

/-- A call of the user leaves the sessions of the others as they are, and one of another those of
the user. -/
theorem view_of_other_side (hw : h.world.Keyed) (hapart : h.KeepsApart A op) (hnew : h.NewId op)
    {id : String} {s : Session} (hs : memoryContents.view h.world id = some s)
    (hside : ¬ (s.user_id = A ↔ op.request.user_id = A)) :
    memoryContents.view (chatStep P cfg reg ttl h op).1.world id = some s := by
  obtain ⟨w, hstep, -, hview⟩ := @chatStep_spec P cfg reg ttl h hw op
  rw [hstep]
  simp only [hview]
  rw [Function.update_of_ne, hs]
  -- The session that the call works on is another one.
  rintro rfl
  have hself := user_id_sessionOf_iff hapart
  unfold AgentState.sessionOf at hs hself
  cases hfound : op.request.found (memoryContents.view h.world) with
  | none =>
    rw [hfound, Option.getD_none] at hs
    cases hnew.symm.trans hs
  | some s' =>
    rw [hfound, Option.getD_some] at hs hself
    obtain rfl := Option.some.inj ((view_of_found hw hfound).symm.trans hs)
    exact hside hself

variable (P cfg reg ttl) in
/-- The results of the user's calls and the calls of the LLM in them are those of the user's calls
alone. -/
def Independent (A : String) (ops : List ChatOp) : Prop :=
  Machine.outputsTo (chatStep P cfg reg ttl) (·.request.user_id = A) (.start .empty) ops =
    Machine.outputs (chatStep P cfg reg ttl) (.start .empty) (ops.filter (·.request.user_id = A))

variable (P cfg reg) in
/-- No tool call of the user has the cache key of a successful one of another while the cache is
on. -/
def KeysApart (A : String) (ops : List ChatOp) : Prop :=
  ∀ op ∈ ops, op.request.user_id = A → ∀ op' ∈ ops, op'.request.user_id ≠ A →
    ∀ key, op.outside.Reads P cfg key → ¬ op'.outside.Writes P cfg reg key

variable (P cfg reg ttl) in
/-- What keeps a user apart from the others in a sequence of calls. -/
structure UserIsolated (A : String) (ops : List ChatOp) : Prop where
  /-- A call works on a session of the user just when it is one of the user: it runs `chat` on this
  session. -/
  own : ∀ pre op post, ops = pre ++ op :: post →
    (((afterChats P cfg reg ttl pre).sessionOf op).user_id = A ↔ op.request.user_id = A) ∧
      (chatStep P cfg reg ttl (afterChats P cfg reg ttl pre) op).2 =
        ⟨((afterChats P cfg reg ttl pre).runOf P cfg reg op).result,
          ((afterChats P cfg reg ttl pre).runOf P cfg reg op).llm_calls⟩
  /-- A call of the user leaves the sessions of the others as they are, and one of another those of
  the user. -/
  others : ∀ pre op post, ops = pre ++ op :: post → ∀ id s,
    memoryContents.view (afterChats P cfg reg ttl pre).world id = some s →
      ¬ (s.user_id = A ↔ op.request.user_id = A) →
        memoryContents.view (afterChats P cfg reg ttl (pre ++ [op])).world id = some s
  /-- Where they share no key of the cache, the user's calls are independent of the others. -/
  independent : KeysApart P cfg reg A ops → Independent P cfg reg ttl A ops

/-- A user is kept apart from the others where no request names a session across. -/
theorem user_isolated {ops : List ChatOp}
    (hapart : Machine.EveryStep (chatStep P cfg reg ttl) (fun h op => h.KeepsApart A op)
      (.start .empty) ops)
    (hnew : Machine.EveryStep (chatStep P cfg reg ttl) AgentState.NewId (.start .empty) ops) :
    UserIsolated P cfg reg ttl A ops where
  own pre op post hops := by
    subst hops
    obtain ⟨w, hstep, -⟩ := @chatStep_spec P cfg reg ttl _ (keyed_afterChats pre) op
    exact ⟨user_id_sessionOf_iff hapart.of_split, by rw [hstep]⟩
  others pre op post hops id s hs hside := by
    subst hops
    have hlast : afterChats P cfg reg ttl (pre ++ [op]) =
        (chatStep P cfg reg ttl (afterChats P cfg reg ttl pre) op).1 := Machine.state_append ..
    rw [hlast]
    exact view_of_other_side (keyed_afterChats pre) hapart.of_split hnew.of_split hs hside
  independent hkeys := by
    -- The keys that matter are those that the user's calls read.
    refine Machine.outputsTo_eq_of_unwinding
      (R := Keeps (fun key => ∃ op ∈ ops, op.request.user_id = A ∧ op.outside.Reads P cfg key) A)
      ?_ ?_ ?_ ((hapart.and hnew).and (Machine.EveryStep.of_forall (fun op hop => hop) _))
    · rintro h t op hkeeps ⟨⟨hapart, -⟩, hop⟩ huser
      exact hkeeps.own (by simpa using huser) hapart fun key hkey =>
        ⟨op, hop, by simpa using huser, hkey⟩
    · rintro h t op hkeeps ⟨⟨hapart, hnew⟩, hop⟩ huser
      have huser' : op.request.user_id ≠ A := by simpa using huser
      refine hkeeps.other huser' hapart hnew ?_
      rintro key ⟨op', hop', hown, hreads⟩
      exact hkeys op' hop' hown op hop huser' key hreads
    · exact ⟨keyed_start, keyed_start, fun _ => rfl, fun _ _ => rfl⟩

end Step

/-- A request of the user, answered by the LLM at once. -/
def greeting (user_id : String) (session_id : Option String) (new_id : String) : ChatOp where
  request := { session_id, user_id, message := "hi" }
  session_id := new_id
  now := 0
  outside := .scripted [{ content := some "hello" }] (.ok { content := "" })

/-- A request of the user in a new session, for which the LLM has the tool called. -/
def reading (user_id new_id content : String) : ChatOp where
  request := { user_id, message := "read" }
  session_id := new_id
  now := 0
  outside := readRound { content }

/-- A user in a session of its own beside two others that share one. The cache is off. -/
theorem user_isolated_three_users :
    let ops := [greeting "a" none "s1", greeting "b" none "s2", greeting "c" (some "s2") "s3",
      greeting "a" (some "s1") "s4"]
    UserIsolated .bare { system_prompt := "p" } .empty 7200 "a" ops ∧
      Independent .bare { system_prompt := "p" } .empty 7200 "a" ops := by
  intro ops
  have hisolated : UserIsolated .bare { system_prompt := "p" } .empty 7200 "a" ops :=
    user_isolated (by decide) (by decide)
  refine ⟨hisolated, hisolated.independent ?_⟩
  rintro op - - op' - - key ⟨_, _, -, henable, -⟩
  cases henable

/-- A user who names the session of another is served on it: the context has the other's messages,
and the turn goes to the other's session. With the cache on, a user's tool call also has the result
of another's. -/
theorem users_share_named_session :
    (afterChats .bare { system_prompt := "p" } .empty 7200
        [greeting "a" none "s1", greeting "b" (some "s1") "s2"]).world.store.keys = ["s1"] ∧
      ¬ Independent .bare { system_prompt := "p" } .empty 7200 "b"
        [greeting "a" none "s1", greeting "b" (some "s1") "s2"] ∧
      ¬ Independent .bare { system_prompt := "p", enable_cache := true } readRegistry 7200 "b"
        [reading "a" "s1" "one", reading "b" "s2" "two"] := by
  refine ⟨by decide, fun h => ?_, fun h => ?_⟩
  · have hlengths := congrArg (List.map fun out => out.llm_calls.map (·.messages.length)) h
    revert hlengths
    decide
  · have hcontents := congrArg (List.map fun out => out.llm_calls.map
      (·.messages.map (·.content))) h
    revert hcontents
    decide

end YellowBull
