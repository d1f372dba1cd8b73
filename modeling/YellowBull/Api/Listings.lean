import YellowBull.Api.UserIsolation

/-!
# The session listings

`MemorySessionAdapter.list_session_ids`, `SessionManager.list_sessions` and `GET /api/sessions`. The
three filters are written apart, and each tests whether the user id is true where it means whether
there is one. So the user id `""`, which is the default of `Session.user_id`, lists every session.

The store that they list is any that clients can bring about, also clients that hold a session and
write to it while others create, delete and clean up (`World.Reachable`). The operations of
`AgentState.step` bring about no other (`World.Reachable.state`). A session stays under its own id
throughout, which the endpoint relies on: it shows the id that the session has.
-/

namespace YellowBull

open Py

/-! ## The stores that clients bring about -/

/-- The store and the heap are what clients of a `MemorySessionAdapter` can bring about. `write` is
any write to a session that was created, whether it is still stored or not: nothing assigns to
`session_id` or `user_id`. -/
inductive World.Reachable (ttl : ℤ) : World MemoryStore → Prop
  | start : Reachable ttl ⟨.empty, .empty⟩
  | create {w : World MemoryStore} (hw : Reachable ttl w) (user_id session_id : String)
      (now : Time) : Reachable ttl ((memorySessionManager ttl).create user_id session_id now w).2
  | delete {w : World MemoryStore} (hw : Reachable ttl w) (session_id : String) :
      Reachable ttl ((memorySessionManager ttl).delete session_id w).2
  | cleanup {w : World MemoryStore} (hw : Reachable ttl w) (max_age_seconds : Option ℤ)
      (now : Time) :
      Reachable ttl ((memorySessionManager ttl).cleanupExpired max_age_seconds now w).2
  | write {w : World MemoryStore} (hw : Reachable ttl w) (r : Ref) (s : Session)
      (hid : s.session_id = (w.heap.read r).session_id)
      (huser : s.user_id = (w.heap.read r).user_id) :
      Reachable ttl { w with heap := w.heap.write r s }

/-- Removing sessions leaves the others under their ids. -/
theorem World.Keyed.of_get? {w w' : World MemoryStore} (hw : w.Keyed) (hheap : w'.heap = w.heap)
    (hget : ∀ id r, w'.store.get? id = some r → w.store.get? id = some r) : w'.Keyed := by
  intro id r hr
  rw [hheap]
  exact hw id r (hget id r hr)

/-- Each session is stored under its own id, whatever the clients do. -/
theorem World.Reachable.keyed {ttl : ℤ} {w : World MemoryStore} (h : w.Reachable ttl) :
    w.Keyed := by
  -- No step renames a session or stores it under another id.
  induction h with
  | start =>
    intro id r hr
    cases hr
  | @create w _ user_id session_id now ih =>
    have hnew := ih.create { session_id, user_id, updated_at := now }
    have hread := w.heap.read_alloc { session_id, user_id, updated_at := now }
    simp only [memorySessionManager, SessionManager.create, memorySessionAdapter, hread]
    exact hnew.1
  -- What a deletion or a cleanup leaves was there before.
  | delete _ session_id ih =>
    refine ih.of_get? rfl fun id r hr => ?_
    simp only [memorySessionManager, SessionManager.delete, memorySessionAdapter,
      OrderedMap.get?_erase, Function.update_apply] at hr
    split_ifs at hr
    exact hr
  | cleanup _ max_age_seconds now ih =>
    refine ih.of_get? rfl fun id r hr => ?_
    simp only [memorySessionManager, SessionManager.cleanupExpired, memorySessionAdapter,
      OrderedMap.get?_foldl_erase] at hr
    split_ifs at hr
    exact hr
  | @write w _ r s hid _ ih =>
    intro id r' hr'
    obtain ⟨hlt, hkey⟩ := ih id r' hr'
    refine ⟨hlt, ?_⟩
    -- A write keeps the id of the object.
    by_cases hr : r' = r
    · rw [hr, Heap.read_write_self, hid, ← hr, hkey]
    · rw [Heap.read_write_of_ne _ hr, hkey]

/-- The loop of `list_sessions` pairs the ids with what is stored under them. -/
theorem SessionManager.loadSessions_memory (ttl : ℤ) (ids : List String) (w : World MemoryStore) :
    (memorySessionManager ttl).loadSessions ids w =
      (ids.filterMap fun id => (w.store.get? id).map (id, ·), w) := by
  induction ids with
  | nil => rfl
  | cons id ids ih =>
    have hload : (memorySessionManager ttl).adapter.load id w = (w.store.get? id, w) := rfl
    simp only [SessionManager.loadSessions, hload, ih, List.filterMap_cons]
    cases w.store.get? id <;> rfl

/-- The sessions that the manager lists are those of its ids, and the store stays as it is. -/
theorem SessionManager.listSessions_memory (ttl : ℤ) (user_id : Option String)
    (w : World MemoryStore) : (memorySessionManager ttl).listSessions user_id w =
      ((listedIds w.heap.read w.store user_id).filterMap fun id =>
        (w.store.get? id).map (id, ·), w) :=
  SessionManager.loadSessions_memory ttl _ w

/-- `_get_or_create_session` creates a session or leaves the store as it is. -/
theorem World.Reachable.getOrCreateSession {ttl : ℤ} {w : World MemoryStore} (h : w.Reachable ttl)
    (request : ChatRequest) (session_id : String) (now : Time) :
    (YellowBull.getOrCreateSession (memorySessionManager ttl) request session_id now w).2.Reachable
      ttl := by
  unfold YellowBull.getOrCreateSession
  cases truthy? request.session_id with
  | none => exact h.create request.user_id session_id now
  | some requested =>
    have hget : (memorySessionManager ttl).get requested w = (w.store.get? requested, w) := rfl
    simp only [hget]
    cases w.store.get? requested with
    | none => exact h.create request.user_id session_id now
    | some r => exact h

section Run

variable (P : Platform) (cfg : AgentConfig) (reg : ToolRegistry) {ttl : ℤ}

/-- One operation of a client. -/
theorem World.Reachable.step {h : AgentState MemoryStore} (hw : h.world.Reachable ttl)
    (op : Operation) :
    (h.step P cfg reg (memorySessionManager ttl) op).1.world.Reachable ttl := by
  cases op with
  | create user_id session_id now => exact hw.create user_id session_id now
  | chat request session_id now O =>
    -- A chat makes its session, if it has to, and then writes to it.
    have hreached := hw.getOrCreateSession request session_id now
    exact hreached.write _ _ (chat_session_id ..) (chat_user_id ..)
  | get session_id => exact hw
  | delete session_id => exact hw.delete session_id
  | listSessions user_id =>
    have hlisted := SessionManager.listSessions_memory ttl user_id h.world
    simp only [AgentState.step, hlisted]
    exact hw
  | cleanup max_age_seconds now => exact hw.cleanup max_age_seconds now
  | history session_id =>
    have hget : (memorySessionManager ttl).get session_id h.world =
      (h.world.store.get? session_id, h.world) := rfl
    simp only [AgentState.step, getHistory, hget]
    cases h.world.store.get? session_id <;> exact hw
  | sessions user_id => exact hw
  | newSession user_id session_id now work_dir =>
    exact (hw.create user_id session_id now).write _ _ rfl rfl
  -- `/workdir` writes to the session if it is stored, else it changes nothing.
  | workdir session_id new_dir =>
    have hget : (memorySessionManager ttl).get session_id h.world =
      (h.world.store.get? session_id, h.world) := rfl
    simp only [AgentState.step, setWorkDir, hget]
    cases h.world.store.get? session_id with
    | none => exact hw
    | some r => exact hw.write r _ rfl rfl

/-- Any operations of clients, one after another. -/
theorem World.Reachable.state (ops : List Operation) :
    (Machine.state (AgentState.step P cfg reg (memorySessionManager ttl)) (.start .empty)
      ops).world.Reachable ttl :=
  Machine.state_invariant (fun h : AgentState MemoryStore => h.world.Reachable ttl)
    (fun _ op hw => hw.step P cfg reg op) .start ops

end Run

/-! ## What is listed -/

/-- The sessions that a listing is asked for: those of the user, or all where no user is given. -/
def Session.AskedFor (user_id : Option String) (s : Session) : Prop := ∀ u ∈ user_id, s.user_id = u

/-- The three listings for a user id are exactly the live sessions of a kind, each once: the ids,
the pairs of ids and sessions, and the entries of the endpoint. -/
structure World.Lists (ttl : ℤ) (w : World MemoryStore) (user_id : Option String)
    (kind : Session → Prop) : Prop where
  ids_nodup : (memorySessionAdapter.listSessionIds user_id w).1.Nodup
  mem_ids : ∀ id, id ∈ (memorySessionAdapter.listSessionIds user_id w).1 ↔
    ∃ s, memoryContents.view w id = some s ∧ kind s
  sessions_nodup : (((memorySessionManager ttl).listSessions user_id w).1.map Prod.fst).Nodup
  mem_sessions : ∀ id s, (id, s) ∈ ((memorySessionManager ttl).listSessions user_id w).1.map
      (fun item => (item.1, w.heap.read item.2)) ↔ memoryContents.view w id = some s ∧ kind s
  infos : ∃ infos, getSessions (memorySessionManager ttl) user_id w = .ok infos ∧
    (infos.map SessionInfo.session_id).Nodup ∧ ∀ info, info ∈ infos ↔
      ∃ id s, memoryContents.view w id = some s ∧ kind s ∧ info = s.info

/-- The listings for a user id are what they are asked for: the live sessions of that user. -/
def World.ListsExactly (ttl : ℤ) (w : World MemoryStore) (user_id : Option String) : Prop :=
  w.Lists ttl user_id (Session.AskedFor user_id)

section Listings

variable {ttl : ℤ} {w : World MemoryStore}

/-- The endpoint goes through the items of the store. -/
theorem getSessions_memory (user_id : Option String) :
    getSessions (memorySessionManager ttl) user_id w = .ok ((w.store.items.filter fun item =>
      (w.heap.read item.2).OfUser user_id).map fun item => (w.heap.read item.2).info) := by
  have hsessions : (memorySessionManager ttl).sessions w = .ok w.store := rfl
  unfold getSessions
  rw [hsessions]
  show Except.ok _ = Except.ok _
  rw [OrderedMap.values, List.map_map, List.filter_map, List.map_map]
  refine congrArg Except.ok (congrArg _ (List.filter_congr fun item _ => ?_))
  rw [Bool.eq_iff_iff, decide_eq_true_iff, Session.OfUser, Function.comp_apply]
  cases truthy? user_id <;> simp

/-- The three filters agree, and list the sessions that the user filter lets through. -/
theorem World.Keyed.lists_ofUser (hw : w.Keyed) (user_id : Option String) :
    w.Lists ttl user_id (Session.OfUser user_id) := by
  have hinv : memoryContents.Inv w := fun id r hr => (hw id r hr).1
  obtain ⟨-, hpairs, hmem⟩ := SessionManager.listSessions_spec (M := memorySessionManager ttl)
    memorySessionAdapter_implements hinv user_id
  rw [SessionManager.listSessions_memory] at hpairs hmem
  have hread : ∀ item ∈ w.store.items, (w.heap.read item.2).session_id = item.1 :=
    fun item hitem => (hw _ _ ((OrderedMap.mem_items_iff _).mp hitem)).2
  refine ⟨nodup_listedIds .., fun _ => mem_listedIds .., ?_, ?_, _, getSessions_memory user_id,
    ?_, fun info => ?_⟩
  · -- Under one id there is one session, so pairs that differ have different ids.
    have hfst := hpairs.map_on (f := Prod.fst) fun p hp q hq hpq => by
      obtain ⟨id, s⟩ := p
      obtain ⟨id', s'⟩ := q
      obtain rfl : id = id' := hpq
      have hs := ((hmem id s).mp hp).1.symm.trans ((hmem id s').mp hq).1
      rw [Option.some.inj hs]
    rw [List.map_map] at hfst
    rw [SessionManager.listSessions_memory]
    exact hfst
  · rw [SessionManager.listSessions_memory]
    exact hmem
  · have hids : ((w.store.items.filter fun item => (w.heap.read item.2).OfUser user_id).map
        fun item => (w.heap.read item.2).info).map SessionInfo.session_id =
        (w.store.items.filter fun item => (w.heap.read item.2).OfUser user_id).map Prod.fst := by
      rw [List.map_map]
      exact List.map_congr_left fun item hitem => hread item (List.mem_of_mem_filter hitem)
    rw [hids]
    exact w.store.nodup_keys_filter _
  · simp only [List.mem_map, List.mem_filter, decide_eq_true_eq, Prod.exists,
      OrderedMap.mem_items_iff, memoryContents, dictView, Option.map_eq_some_iff]
    constructor
    · rintro ⟨id, r, ⟨hr, huser⟩, rfl⟩
      exact ⟨id, _, ⟨r, hr, rfl⟩, huser, rfl⟩
    · rintro ⟨id, _, ⟨r, hr, rfl⟩, huser, rfl⟩
      exact ⟨id, r, ⟨hr, huser⟩, rfl⟩

/-- A listing determines which of the live sessions are listed. -/
theorem World.Keyed.lists_iff (hw : w.Keyed) (user_id : Option String) (kind : Session → Prop) :
    w.Lists ttl user_id kind ↔
      ∀ id s, memoryContents.view w id = some s → (kind s ↔ s.OfUser user_id) := by
  have hlists : w.Lists ttl user_id (Session.OfUser user_id) := hw.lists_ofUser user_id
  constructor
  · intro h id s hs
    -- Two ways to list the same sessions, so they are of the same kinds.
    have hkind := h.mem_sessions id s
    rw [hlists.mem_sessions id s] at hkind
    simpa [hs] using hkind.symm
  · intro h
    -- In each of the listings, one kind may stand for the other.
    have hids (id : String) : (∃ s, memoryContents.view w id = some s ∧ kind s) ↔
        ∃ s, memoryContents.view w id = some s ∧ s.OfUser user_id :=
      exists_congr fun s => and_congr_right (h id s)
    obtain ⟨infos, hok, hnodup, hmem⟩ := hlists.infos
    refine ⟨hlists.ids_nodup, fun id => (hlists.mem_ids id).trans (hids id).symm,
      hlists.sessions_nodup, fun id s => ?_, infos, hok, hnodup, fun info => ?_⟩
    · rw [hlists.mem_sessions]
      exact and_congr_right fun hs => (h id s hs).symm
    · rw [hmem]
      refine exists_congr fun id => exists_congr fun s => and_congr_right fun hs => ?_
      rw [h id s hs]

/-- In every store that clients can bring about, the three listings are exact just if the user id is
not the empty text, or every live session has the empty user id. -/
theorem listsExactly_iff (h : w.Reachable ttl) (user_id : Option String) :
    w.ListsExactly ttl user_id ↔ user_id ≠ some "" ∨
      ∀ id s, memoryContents.view w id = some s → s.user_id = "" := by
  unfold World.ListsExactly
  rw [h.keyed.lists_iff]
  rcases user_id with _ | u
  · simp [Session.AskedFor, Session.OfUser, truthy?]
  · by_cases hu : u = ""
    · simp [Session.AskedFor, Session.OfUser, truthy?, hu]
    · simp [Session.AskedFor, Session.OfUser, truthy?, hu]

/-- The session of a user, listed for that user. -/
theorem listsExactly_iff_one_session :
    ((memorySessionManager 7200).create "u" "s" 0 ⟨.empty, .empty⟩).2.ListsExactly 7200
      (some "u") :=
  (listsExactly_iff (World.Reachable.start.create "u" "s" 0) (some "u")).mpr (Or.inl (by decide))

/-- The session of a user, listed for the user whose id is the empty text. -/
theorem listed_for_empty_user : ¬ ∀ w : World MemoryStore, w.Reachable 7200 →
    ∀ user_id, w.ListsExactly 7200 user_id := by
  intro h
  have hlists := h _ (World.Reachable.start.create "u" "s" 0) (some "")
  obtain ⟨s, hs, hasked⟩ := (hlists.mem_ids "s").mp (by decide)
  obtain rfl : { session_id := "s", user_id := "u" } = s := Option.some.inj hs
  have huser : "u" = "" := hasked "" rfl
  revert huser
  decide

end Listings

end YellowBull
