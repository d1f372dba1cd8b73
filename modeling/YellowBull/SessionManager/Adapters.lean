import YellowBull.Agent.Exits
import YellowBull.Api.Sessions
import YellowBull.Lib.Machine
import YellowBull.SessionManager.Interface

/-!
# Other adapters than the in-memory one

An adapter by value keeps copies: what it stands for does not depend on the objects that its clients
hold. The clients write to a session and never save it again, so that such an adapter keeps each
session as it was created, while the in-memory adapter gives out the object that was written to.
`Tracked` relates what the two keep over a run of operations: the sessions are the same ones, and
those that nobody has written to are equal. It follows that the two cannot be told apart as long as
no operation reads a session that was written to.
-/

namespace YellowBull

open Py

/-- An adapter by value, which is not the in-memory one: what it keeps is in its own state. -/
structure SessionPersistenceAdapter.ByValue {σ : Type} (A : SessionPersistenceAdapter σ)
    (C : Representation σ) : Prop extends A.Implements C where
  view_heap : ∀ {w heap}, C.view { w with heap } = C.view w
  external : ∀ w, A.memorySessions? w = none

/-! ## Written and unwritten sessions -/

/-- Nobody has written to the session since it was created. -/
def Session.Unwritten (s : Session) : Prop := s.messages = [] ∧ s.work_dir = none

instance : DecidablePred Session.Unwritten :=
  fun s => inferInstanceAs (Decidable (s.messages = [] ∧ s.work_dir = none))

/-- `saved` is the session `live` as it was when it was created. -/
structure Tracks (id : String) (live saved : Session) : Prop where
  live_id : live.session_id = id
  saved_id : saved.session_id = id
  user_id : saved.user_id = live.user_id
  unwritten : saved.Unwritten
  updated_at : live.messages = [] → saved.updated_at = live.updated_at
  eq_of_unwritten : live.Unwritten → saved = live

/-- A store by reference and one by value keep the same sessions, up to what was written to them. -/
def Tracked (live saved : String → Option Session) : Prop :=
  ∀ id, Option.Rel (Tracks id) (live id) (saved id)

namespace Tracked

variable {live saved : String → Option Session}

/-- A new session is put in both. -/
theorem set (h : Tracked live saved) {k : String} {s : Session} (hk : s.session_id = k)
    (hs : s.Unwritten) :
    Tracked (Function.update live k (some s)) (Function.update saved k (some s)) := by
  intro id
  by_cases hid : id = k
  · rw [hid, Function.update_self, Function.update_self]
    exact .some ⟨hk, hk, rfl, hs, fun _ => rfl, fun _ => rfl⟩
  · rw [Function.update_of_ne hid, Function.update_of_ne hid]
    exact h id

/-- A session is removed from both. -/
theorem erase (h : Tracked live saved) (k : String) :
    Tracked (Function.update live k none) (Function.update saved k none) := by
  intro id
  by_cases hid : id = k
  · rw [hid, Function.update_self, Function.update_self]
    exact .none
  · rw [Function.update_of_ne hid, Function.update_of_ne hid]
    exact h id

/-- The two have the same ids. -/
theorem cases (h : Tracked live saved) (id : String) : (live id = none ∧ saved id = none) ∨
    ∃ s s', live id = some s ∧ saved id = some s' ∧ Tracks id s s' := by
  have hid := h id
  generalize live id = l, saved id = s at hid
  cases hid with
  | none => exact .inl ⟨rfl, rfl⟩
  | some ht => exact .inr ⟨_, _, rfl, rfl, ht⟩

/-- The same ids are in use on both sides. -/
theorem isSome_eq (h : Tracked live saved) (id : String) :
    (live id).isSome = (saved id).isSome := by
  rcases h.cases id with ⟨hl, hs⟩ | ⟨s, s', hl, hs, -⟩
  · rw [hl, hs]
  · rw [hl, hs, Option.isSome_some, Option.isSome_some]

/-- An unwritten session is the same in both. -/
theorem eq_of_unwritten (h : Tracked live saved) {id : String}
    (hun : ∀ s, live id = some s → s.Unwritten) : saved id = live id := by
  rcases h.cases id with ⟨hl, hs⟩ | ⟨s, s', hl, hs, ht⟩
  · rw [hl, hs]
  · rw [hl, hs, ht.eq_of_unwritten (hun s hl)]

/-- Sessions that both have are deleted from both when they expire, if none has messages. -/
theorem expire (h : Tracked live saved) {ttl : ℤ} {now : Time}
    (hun : ∀ id s, live id = some s → s.messages = []) :
    Tracked (fun id => (live id).filter (¬ Session.Expired ttl now ·))
      (fun id => (saved id).filter (¬ Session.Expired ttl now ·)) := by
  intro id
  show Option.Rel _ ((live id).filter _) ((saved id).filter _)
  rcases h.cases id with ⟨hl, hs⟩ | ⟨s, s', hl, hs, ht⟩
  · rw [hl, hs]
    exact .none
  -- A session without messages has the same time in both stores, so both are expired or neither.
  · have hexp : s'.Expired ttl now ↔ s.Expired ttl now := by
      unfold Session.Expired
      rw [ht.updated_at (hun id s hl)]
    rw [hl, hs, Option.filter_some, Option.filter_some]
    by_cases hold : s.Expired ttl now
    · rw [if_neg (by simpa using hold), if_neg (by simpa using hexp.mpr hold)]
      exact .none
    · rw [if_pos (by simpa using hold), if_pos (by simpa using mt hexp.mp hold)]
      exact .some ht

/-- The same sessions expire in both, if none has messages. -/
theorem expired_iff (h : Tracked live saved) {ttl : ℤ} {now : Time}
    (hun : ∀ id s, live id = some s → s.messages = []) (id : String) :
    (∃ s, live id = some s ∧ s.Expired ttl now) ↔ ∃ s, saved id = some s ∧ s.Expired ttl now := by
  rcases h.cases id with ⟨hl, hs⟩ | ⟨s, s', hl, hs, ht⟩
  · rw [hl, hs]
  · simp only [hl, hs, Option.some.injEq, exists_eq_left', Session.Expired,
      ht.updated_at (hun id s hl)]

/-- The sessions of a user are the same in both, if they are unwritten. -/
theorem listed_iff (h : Tracked live saved) {user_id : Option String}
    (hun : ∀ id s, live id = some s → s.OfUser user_id → s.Unwritten) (id : String) (s : Session) :
    live id = some s ∧ s.OfUser user_id ↔ saved id = some s ∧ s.OfUser user_id := by
  rcases h.cases id with ⟨hl, hs⟩ | ⟨s₁, s₂, hl, hs, ht⟩
  · rw [hl, hs]
  · have huser : s₂.OfUser user_id ↔ s₁.OfUser user_id := by
      unfold Session.OfUser
      rw [ht.user_id]
    rw [hl, hs, Option.some.injEq, Option.some.injEq]
    constructor
    · rintro ⟨rfl, hu⟩
      exact ⟨ht.eq_of_unwritten (hun id _ hl hu), hu⟩
    · rintro ⟨rfl, hu⟩
      exact ⟨(ht.eq_of_unwritten (hun id _ hl (huser.mp hu))).symm, hu⟩

/-- Writing to an object of the in-memory store leaves the sessions that another store saved
behind. -/
theorem write {w : World MemoryStore} (h : Tracked (memoryContents.view w) saved) {r : Ref}
    {s : Session} (hid : s.session_id = (w.heap.read r).session_id)
    (huser : s.user_id = (w.heap.read r).user_id) (hwritten : ¬ s.Unwritten)
    (htime : s.messages = [] →
      (w.heap.read r).messages = [] ∧ s.updated_at = (w.heap.read r).updated_at) :
    Tracked (memoryContents.view { w with heap := w.heap.write r s }) saved := by
  intro id
  have ht := h id
  simp only [memoryContents, dictView] at ht ⊢
  cases hr' : w.store.get? id with
  | none => rwa [hr'] at ht
  | some r' =>
    rw [hr', Option.map_some] at ht
    rw [Option.map_some]
    by_cases hr : r' = r
    · -- The object that is written to: what was saved of it stays as it is.
      subst hr
      rw [Heap.read_write_self]
      generalize saved id = saved at ht
      cases ht with
      | @some _ s' ht =>
        have htime' : s.messages = [] → s'.updated_at = s.updated_at := fun hm => by
          rw [ht.updated_at (htime hm).1, (htime hm).2]
        exact .some ⟨hid.trans ht.live_id, ht.saved_id, ht.user_id.trans huser.symm, ht.unwritten,
          htime', fun hun => absurd hun hwritten⟩
    · rwa [Heap.read_write_of_ne _ hr]

end Tracked

/-! ## Operations that read no written session -/

/-- The sessions of the in-memory store, with their ids. -/
def AgentState.stored (h : AgentState MemoryStore) : List (String × Session) :=
  h.world.store.items.map fun item => (item.1, h.world.heap.read item.2)

/-- The sessions that are stored are those that the store shows under their ids. -/
theorem AgentState.mem_stored {h : AgentState MemoryStore} {id : String} {s : Session} :
    (id, s) ∈ h.stored ↔ memoryContents.view h.world id = some s := by
  simp only [stored, memoryContents, dictView, List.mem_map, Prod.exists, Prod.mk.injEq,
    OrderedMap.mem_items_iff, Option.map_eq_some_iff]
  constructor
  · rintro ⟨id', r, hr, rfl, rfl⟩
    exact ⟨r, hr, rfl⟩
  · rintro ⟨r, hr, rfl⟩
    exact ⟨id, r, hr, rfl, rfl⟩

/-- The operation reads no session that was written to since it was created, and does not go past
the adapter. A history is read off the messages only, and the expiry off the time of the last
one. -/
def AgentState.ReadsUnwritten (h : AgentState MemoryStore) : Operation → Prop
  | .chat request _ _ _ =>
    ∀ item ∈ h.stored, truthy? request.session_id = some item.1 → item.2.Unwritten
  | .get session_id => ∀ item ∈ h.stored, item.1 = session_id → item.2.Unwritten
  | .history session_id => ∀ item ∈ h.stored, item.1 = session_id → item.2.messages = []
  | .listSessions user_id => ∀ item ∈ h.stored, item.2.OfUser user_id → item.2.Unwritten
  | .cleanup _ _ => ∀ item ∈ h.stored, item.2.messages = []
  | .sessions _ => False
  | .create .. | .delete _ | .newSession .. | .workdir .. => True

instance (h : AgentState MemoryStore) : DecidablePred h.ReadsUnwritten
  | .chat request _ _ _ => inferInstanceAs (Decidable (∀ item ∈ h.stored,
      truthy? request.session_id = some item.1 → item.2.Unwritten))
  | .get session_id =>
    inferInstanceAs (Decidable (∀ item ∈ h.stored, item.1 = session_id → item.2.Unwritten))
  | .history session_id =>
    inferInstanceAs (Decidable (∀ item ∈ h.stored, item.1 = session_id → item.2.messages = []))
  | .listSessions user_id =>
    inferInstanceAs (Decidable (∀ item ∈ h.stored, item.2.OfUser user_id → item.2.Unwritten))
  | .cleanup _ _ => inferInstanceAs (Decidable (∀ item ∈ h.stored, item.2.messages = []))
  | .sessions _ => .isFalse id
  | .create .. | .delete _ | .newSession .. | .workdir .. => .isTrue trivial

/-- The operation gives sessions to its caller. -/
def Operation.Reads : Operation → Prop
  | .get _ | .history _ | .listSessions _ | .sessions _ => True
  | _ => False

/-- The in-memory store `h` and the agent `h'` over an adapter by value keep the same sessions, up
to what was written to them. -/
structure Simulates {σ : Type} (C : Representation σ) (h : AgentState MemoryStore)
    (h' : AgentState σ) : Prop where
  inv : memoryContents.Inv h.world
  inv' : C.Inv h'.world
  tracked : Tracked (memoryContents.view h.world) (C.view h'.world)
  cache : h.cache = h'.cache

/-- The session that `_get_or_create_session` finds. -/
def ChatRequest.found (request : ChatRequest) (view : String → Option Session) : Option Session :=
  (truthy? request.session_id).bind view

section Step

variable {σ : Type} {C : Representation σ}

/-- `_get_or_create_session` gives the object of the session that it finds, or of a new one. -/
theorem getOrCreateSession_spec {M : SessionManager σ} (hM : M.adapter.Implements C) {w : World σ}
    (hw : C.Inv w) (request : ChatRequest) (session_id : String) (now : Time) :
    let out := getOrCreateSession M request session_id now w
    let new : Session := { session_id, user_id := request.user_id, updated_at := now }
    (request.found (C.view w) = some (out.2.heap.read out.1) ∧ C.Leaves w out.2 (C.view w)) ∨
      (request.found (C.view w) = none ∧ out.2.heap.read out.1 = new ∧
        C.Leaves w out.2 (Function.update (C.view w) session_id (some new))) := by
  intro out new
  have hcreate (w' : World σ) (hw' : C.Inv w') :=
    SessionManager.create_spec hM hw' request.user_id session_id now
  -- Without an id, or with one that the adapter does not have, a new session is made.
  cases hr : truthy? request.session_id with
  | none =>
    refine .inr ⟨by rw [ChatRequest.found, hr, Option.bind_none], ?_⟩
    simp only [out, getOrCreateSession, hr]
    exact ⟨(hcreate w hw).2.1, (hcreate w hw).1⟩
  | some requested =>
    have hload := hM.load hw requested
    have heq := hM.load_eq hw requested
    simp only [out, getOrCreateSession, ChatRequest.found, hr, SessionManager.get, Option.bind_some]
    generalize M.adapter.load requested w = loaded at hload heq ⊢
    obtain ⟨session, w₁⟩ := loaded
    rw [← heq]
    cases session with
    | none =>
      -- The load left the contents as they were, so the creation starts from them.
      have hnew := hcreate w₁ hload.inv
      rw [hload.view_eq] at hnew
      exact .inr ⟨rfl, hnew.2.1, hload.trans hnew.1⟩
    | some r => exact .inl ⟨rfl, hload⟩

/-- `GET /api/sessions/{session_id}/history` answers with the history of the session that the
adapter keeps. -/
theorem getHistory_spec {M : SessionManager σ} (hM : M.adapter.Implements C) {w : World σ}
    (hw : C.Inv w) (session_id : String) :
    (getHistory M session_id w).1 =
        ((C.view w session_id).elim (.error sessionNotFound) fun s => .ok s.history) ∧
      C.Leaves w (getHistory M session_id w).2 (C.view w) := by
  have hload := hM.load hw session_id
  have heq := hM.load_eq hw session_id
  unfold getHistory SessionManager.get
  generalize M.adapter.load session_id w = loaded at hload heq ⊢
  obtain ⟨session, w₁⟩ := loaded
  rw [← heq]
  cases session with
  | none => exact ⟨rfl, hload⟩
  | some r => exact ⟨rfl, hload⟩

/-- Two agents stay related when their stores do, and the objects that exist stay as they are. -/
theorem Simulates.of_leaves {h : AgentState MemoryStore} {h' : AgentState σ} {w : World MemoryStore}
    {w' : World σ} {live saved : String → Option Session} (hsim : Simulates C h h')
    (hw : memoryContents.Leaves h.world w live) (hw' : C.Leaves h'.world w' saved)
    (ht : Tracked live saved) : Simulates C { h with world := w } { h' with world := w' } where
  inv := hw.inv
  inv' := hw'.inv
  tracked := by rwa [hw.view_eq, hw'.view_eq]
  cache := hsim.cache

/-- Writing to an object that a store by value gave out leaves what the store keeps alone. -/
theorem Simulates.write {A : SessionPersistenceAdapter σ} (hA : A.ByValue C) {w : World MemoryStore}
    {w' : World σ} {cache cache' : Cache} (hsim : Simulates C ⟨w, cache⟩ ⟨w', cache'⟩) {r r' : Ref}
    {s s' : Session} (hid : s.session_id = (w.heap.read r).session_id)
    (huser : s.user_id = (w.heap.read r).user_id) (hwritten : ¬ s.Unwritten)
    (htime : s.messages = [] →
      (w.heap.read r).messages = [] ∧ s.updated_at = (w.heap.read r).updated_at)
    {run_cache run_cache' : Cache} (hcache : run_cache = run_cache') :
    Simulates C ⟨{ w with heap := w.heap.write r s }, run_cache⟩
      ⟨{ w' with heap := w'.heap.write r' s' }, run_cache'⟩ where
  inv := memoryContents.inv_heap hsim.inv (Nat.le_refl _)
  inv' := C.inv_heap hsim.inv' (Nat.le_refl _)
  tracked := by
    -- The write on the other side does not reach what its adapter keeps.
    show Tracked _ (C.view _)
    rw [hA.view_heap]
    exact hsim.tracked.write hid huser hwritten htime
  cache := hcache

/-- Setting a directory, in particular. -/
theorem Simulates.setWorkDir {A : SessionPersistenceAdapter σ} (hA : A.ByValue C)
    {w : World MemoryStore} {w' : World σ} {cache cache' : Cache}
    (hsim : Simulates C ⟨w, cache⟩ ⟨w', cache'⟩) (r r' : Ref) (dir : String) :
    Simulates C
      ⟨{ w with heap := w.heap.write r { w.heap.read r with work_dir := some dir } }, cache⟩
      ⟨{ w' with heap := w'.heap.write r' { w'.heap.read r' with work_dir := some dir } },
        cache'⟩ := by
  refine hsim.write hA ?_ ?_ (fun hw => ?_) ?_ hsim.cache
  · rfl
  · rfl
  · cases hw.2
  · exact fun hm => ⟨hm, rfl⟩

variable {P : Platform} {cfg : AgentConfig} {reg : ToolRegistry} {A : SessionPersistenceAdapter σ}
variable {ttl : ℤ} {h : AgentState MemoryStore} {h' : AgentState σ}

/-- A chat that finds no written session goes the same way on both agents. -/
theorem Simulates.chat (hA : A.ByValue C) (hsim : Simulates C h h') {request : ChatRequest}
    (hun : ∀ s, request.found (memoryContents.view h.world) = some s → s.Unwritten)
    (session_id : String) (now : Time) (O : Behaviour) :
    (h.chat P cfg reg ⟨memorySessionAdapter, ttl⟩ request session_id now O).2 =
        (h'.chat P cfg reg ⟨A, ttl⟩ request session_id now O).2 ∧
      Simulates C (h.chat P cfg reg ⟨memorySessionAdapter, ttl⟩ request session_id now O).1
        (h'.chat P cfg reg ⟨A, ttl⟩ request session_id now O).1 := by
  have hfound :
      request.found (C.view h'.world) = request.found (memoryContents.view h.world) := by
    unfold ChatRequest.found at hun ⊢
    cases hr : truthy? request.session_id with
    | none => rfl
    | some requested =>
      rw [hr] at hun
      exact hsim.tracked.eq_of_unwritten hun
  have hspec := getOrCreateSession_spec (M := ⟨memorySessionAdapter, ttl⟩)
    memorySessionAdapter_implements hsim.inv request session_id now
  have hspec' := getOrCreateSession_spec (M := ⟨A, ttl⟩) hA.toImplements hsim.inv' request
    session_id now
  rw [hfound] at hspec'
  unfold AgentState.chat
  generalize getOrCreateSession ⟨memorySessionAdapter, ttl⟩ request session_id now h.world = out
    at hspec ⊢
  generalize getOrCreateSession ⟨A, ttl⟩ request session_id now h'.world = out' at hspec' ⊢
  obtain ⟨r, w⟩ := out
  obtain ⟨r', w'⟩ := out'
  have hreached : w.heap.read r = w'.heap.read r' ∧
      Simulates C { h with world := w } { h' with world := w' } := by
    -- Either both find the session, which is unwritten, or both make a new one.
    rcases hspec with ⟨hs, hl⟩ | ⟨hs, hr, hl⟩ <;> rcases hspec' with ⟨hs', hl'⟩ | ⟨hs', hr', hl'⟩
    · exact ⟨Option.some.inj (hs.symm.trans hs'), hsim.of_leaves hl hl' hsim.tracked⟩
    · cases hs.symm.trans hs'
    · cases hs.symm.trans hs'
    · exact ⟨hr.trans hr'.symm, hsim.of_leaves hl hl' (hsim.tracked.set rfl ⟨rfl, rfl⟩)⟩
  obtain ⟨hread, hsim₁⟩ := hreached
  simp only
  rw [← hread, ← hsim.cache]
  have hrecorded := chat_messages_ne_nil P cfg reg O (w.heap.read r) h.cache request
  refine ⟨rfl, hsim₁.write hA (chat_session_id ..) (chat_user_id ..) ?_ ?_ rfl⟩
  · exact fun hunwritten => hrecorded hunwritten.1
  · exact fun hm => absurd hm hrecorded

/-- Both adapters load a session, or neither does, and what they load is the same session up to what
was written to it. -/
theorem Simulates.load (hA : A.Implements C) (hsim : Simulates C h h') (id : String) :
    Simulates C { h with world := (memorySessionAdapter.load id h.world).2 }
        { h' with world := (A.load id h'.world).2 } ∧
      (((memorySessionAdapter.load id h.world).1 = none ∧ (A.load id h'.world).1 = none) ∨
        ∃ r r', (memorySessionAdapter.load id h.world).1 = some r ∧
          (A.load id h'.world).1 = some r' ∧
          memoryContents.view h.world id =
            some ((memorySessionAdapter.load id h.world).2.heap.read r) ∧
          Tracks id ((memorySessionAdapter.load id h.world).2.heap.read r)
            ((A.load id h'.world).2.heap.read r')) := by
  have hmem := memorySessionAdapter_implements
  -- A load changes nothing that either adapter holds.
  refine ⟨hsim.of_leaves (hmem.load hsim.inv id) (hA.load hsim.inv' id) hsim.tracked, ?_⟩
  have heq := hmem.load_eq hsim.inv id
  have heq' := hA.load_eq hsim.inv' id
  -- The two contents track each other under the id, and so do the loaded objects.
  rcases hsim.tracked.cases id with ⟨hl, hs⟩ | ⟨s, s', hl, hs, ht⟩
  · have hnone := Option.map_eq_none_iff.mp (heq.trans hl)
    have hnone' := Option.map_eq_none_iff.mp (heq'.trans hs)
    exact .inl ⟨hnone, hnone'⟩
  · obtain ⟨r, hr, rfl⟩ := Option.map_eq_some_iff.mp (heq.trans hl)
    obtain ⟨r', hr', rfl⟩ := Option.map_eq_some_iff.mp (heq'.trans hs)
    exact .inr ⟨r, r', hr, hr', hl, ht⟩

/-- The command `/workdir` keeps the two agents related. -/
theorem Simulates.workdir (hA : A.ByValue C) (hsim : Simulates C h h') (session_id dir : String) :
    Simulates C
      { h with world := YellowBull.setWorkDir ⟨memorySessionAdapter, ttl⟩ session_id dir h.world }
      { h' with world := YellowBull.setWorkDir ⟨A, ttl⟩ session_id dir h'.world } := by
  obtain ⟨hnext, hload⟩ := hsim.load hA.toImplements session_id
  unfold YellowBull.setWorkDir SessionManager.get
  generalize memorySessionAdapter.load session_id h.world = out at hnext hload ⊢
  generalize A.load session_id h'.world = out' at hnext hload ⊢
  obtain ⟨session, w⟩ := out
  obtain ⟨session', w'⟩ := out'
  rcases hload with ⟨rfl, rfl⟩ | ⟨r, r', rfl, rfl, -, -⟩
  · exact hnext
  · exact hnext.setWorkDir hA r r' dir

variable (ttl) in
/-- Both managers make the same new session. -/
theorem Simulates.create (hA : A.Implements C) (hsim : Simulates C h h')
    (user_id session_id : String) (now : Time) :
    let out := SessionManager.create ⟨memorySessionAdapter, ttl⟩ user_id session_id now h.world
    let out' := SessionManager.create ⟨A, ttl⟩ user_id session_id now h'.world
    out.2.heap.read out.1 = out'.2.heap.read out'.1 ∧
      Simulates C { h with world := out.2 } { h' with world := out'.2 } := by
  obtain ⟨hl, hr, -⟩ := SessionManager.create_spec (M := ⟨memorySessionAdapter, ttl⟩)
    memorySessionAdapter_implements hsim.inv user_id session_id now
  obtain ⟨hl', hr', -⟩ := SessionManager.create_spec (M := ⟨A, ttl⟩) hA hsim.inv' user_id
    session_id now
  exact ⟨hr.trans hr'.symm, hsim.of_leaves hl hl' (hsim.tracked.set rfl ⟨rfl, rfl⟩)⟩

/-- An operation that reads no written session answers alike over the two adapters. -/
theorem Simulates.step (hA : A.ByValue C) (hsim : Simulates C h h') {op : Operation}
    (hun : h.ReadsUnwritten op) :
    (h.step P cfg reg ⟨memorySessionAdapter, ttl⟩ op).2 = (h'.step P cfg reg ⟨A, ttl⟩ op).2 ∧
      Simulates C (h.step P cfg reg ⟨memorySessionAdapter, ttl⟩ op).1
        (h'.step P cfg reg ⟨A, ttl⟩ op).1 := by
  have hmem := memorySessionAdapter_implements
  have hunwritten {id : String} {s : Session} : memoryContents.view h.world id = some s →
    (id, s) ∈ h.stored := AgentState.mem_stored.mpr
  cases op with
  | create user_id session_id now =>
    obtain ⟨hread, hnext⟩ := hsim.create ttl hA.toImplements user_id session_id now
    exact ⟨congrArg Observation.created hread, hnext⟩
  | chat request session_id now O =>
    have hfound (s : Session) (hs : request.found (memoryContents.view h.world) = some s) :
        s.Unwritten := by
      obtain ⟨id, hid, hs⟩ := Option.bind_eq_some_iff.mp hs
      exact hun _ (hunwritten hs) hid
    obtain ⟨hout, hnext⟩ := hsim.chat hA hfound session_id now O
    exact ⟨congrArg Observation.responded hout, hnext⟩
  | get session_id =>
    have heq := hsim.tracked.eq_of_unwritten fun s hs => hun _ (hunwritten hs) rfl
    refine ⟨congrArg Observation.read ?_, (hsim.load hA.toImplements session_id).1⟩
    calc (memorySessionAdapter.load session_id h.world).1.map
          (memorySessionAdapter.load session_id h.world).2.heap.read
        = memoryContents.view h.world session_id := hmem.load_eq hsim.inv session_id
      _ = C.view h'.world session_id := heq.symm
      _ = (A.load session_id h'.world).1.map (A.load session_id h'.world).2.heap.read :=
          (hA.load_eq hsim.inv' session_id).symm
  | delete session_id =>
    have hnext := hsim.of_leaves (hmem.delete hsim.inv session_id)
      (hA.delete hsim.inv' session_id) (hsim.tracked.erase session_id)
    refine ⟨congrArg Observation.deleted ?_, hnext⟩
    calc (memorySessionAdapter.delete session_id h.world).1
        = (memoryContents.view h.world session_id).isSome := hmem.delete_eq hsim.inv session_id
      _ = (C.view h'.world session_id).isSome := hsim.tracked.isSome_eq session_id
      _ = (A.delete session_id h'.world).1 := (hA.delete_eq hsim.inv' session_id).symm
  | listSessions user_id =>
    obtain ⟨hl, hnodup, hin⟩ := SessionManager.listSessions_spec (M := ⟨memorySessionAdapter, ttl⟩)
      hmem hsim.inv user_id
    obtain ⟨hl', hnodup', hin'⟩ := SessionManager.listSessions_spec (M := ⟨A, ttl⟩)
      hA.toImplements hsim.inv' user_id
    refine ⟨congrArg Observation.listed (Multiset.coe_eq_coe.mpr ?_),
      hsim.of_leaves hl hl' hsim.tracked⟩
    -- Two listings without repetition and with the same members.
    refine (List.perm_ext_iff_of_nodup hnodup hnodup').mpr fun item => ?_
    rw [hin, hin']
    exact hsim.tracked.listed_iff (fun id s hs => hun _ (hunwritten hs)) item.1 item.2
  | cleanup max_age_seconds now =>
    have hold (id : String) (s : Session) (hs : memoryContents.view h.world id = some s) :
        s.messages = [] := hun _ (hunwritten hs)
    have hl := hmem.cleanup hsim.inv (max_age_seconds.getD ttl) now
    have hl' := hA.cleanup hsim.inv' (max_age_seconds.getD ttl) now
    refine ⟨congrArg Observation.cleaned (Multiset.coe_eq_coe.mpr ?_),
      hsim.of_leaves hl hl' (hsim.tracked.expire hold)⟩
    -- Both delete the sessions that are expired, each once.
    have hnodup := hmem.nodup_cleanup hsim.inv (max_age_seconds.getD ttl) now
    have hnodup' := hA.nodup_cleanup hsim.inv' (max_age_seconds.getD ttl) now
    refine (List.perm_ext_iff_of_nodup hnodup hnodup').mpr fun id => ?_
    have hin := hmem.mem_cleanup hsim.inv (max_age_seconds.getD ttl) now id
    have hin' := hA.mem_cleanup hsim.inv' (max_age_seconds.getD ttl) now id
    exact hin.trans ((hsim.tracked.expired_iff hold id).trans hin'.symm)
  | history session_id =>
    obtain ⟨heq, hl⟩ := getHistory_spec (M := ⟨memorySessionAdapter, ttl⟩) hmem hsim.inv session_id
    obtain ⟨heq', hl'⟩ := getHistory_spec (M := ⟨A, ttl⟩) hA.toImplements hsim.inv' session_id
    refine ⟨congrArg Observation.history ?_, hsim.of_leaves hl hl' hsim.tracked⟩
    show (getHistory ⟨memorySessionAdapter, ttl⟩ session_id h.world).1 =
      (getHistory ⟨A, ttl⟩ session_id h'.world).1
    rw [heq, heq']
    rcases hsim.tracked.cases session_id with ⟨hnone, hnone'⟩ | ⟨s, s', hs, hs', ht⟩
    · rw [hnone, hnone']
    · have hmsgs : s.messages = [] := hun _ (hunwritten hs) rfl
      have hhistory : s.history = s'.history := by
        rw [Session.history, Session.history, ht.live_id, ht.saved_id, hmsgs, ht.unwritten.1]
      rw [hs, hs', Option.elim_some, Option.elim_some, hhistory]
  | sessions user_id => exact hun.elim
  | newSession user_id session_id now work_dir =>
    obtain ⟨-, hnext⟩ := hsim.create ttl hA.toImplements user_id session_id now
    exact ⟨rfl, hnext.setWorkDir hA _ _ work_dir⟩
  | workdir session_id new_dir => exact ⟨rfl, hsim.workdir hA session_id new_dir⟩

/-- Conversely, a reader that finds a written session does see a difference, and so does whoever
goes past the adapter. -/
theorem Simulates.differs_of_read (hA : A.ByValue C) (hsim : Simulates C h h') {op : Operation}
    (hop : op.Reads) (hun : ¬ h.ReadsUnwritten op) :
    (h.step P cfg reg ⟨memorySessionAdapter, ttl⟩ op).2 ≠ (h'.step P cfg reg ⟨A, ttl⟩ op).2 := by
  have hmem := memorySessionAdapter_implements
  intro heq
  apply hun
  -- What is stored in memory is tracked by an unwritten session.
  have htracked {id : String} {s : Session} (hs : (id, s) ∈ h.stored) :
      ∃ s', C.view h'.world id = some s' ∧ Tracks id s s' := by
    rcases hsim.tracked.cases id with ⟨hl, -⟩ | ⟨s₀, s', hl, hs', ht⟩
    · cases hl.symm.trans (AgentState.mem_stored.mp hs)
    · obtain rfl := Option.some.inj (hl.symm.trans (AgentState.mem_stored.mp hs))
      exact ⟨s', hs', ht⟩
  cases op with
  | get session_id =>
    rintro ⟨id, s⟩ hs rfl
    obtain ⟨s', hs', ht⟩ := htracked hs
    have hviews : memoryContents.view h.world id = C.view h'.world id := by
      calc memoryContents.view h.world id
          = (memorySessionAdapter.load id h.world).1.map
              (memorySessionAdapter.load id h.world).2.heap.read := (hmem.load_eq hsim.inv id).symm
        _ = (A.load id h'.world).1.map (A.load id h'.world).2.heap.read :=
            Observation.read.inj heq
        _ = C.view h'.world id := hA.load_eq hsim.inv' id
    rw [AgentState.mem_stored.mp hs, hs'] at hviews
    exact Option.some.inj hviews ▸ ht.unwritten
  | history session_id =>
    rintro ⟨id, s⟩ hs rfl
    obtain ⟨s', hs', ht⟩ := htracked hs
    obtain ⟨hans, -⟩ := getHistory_spec (M := ⟨memorySessionAdapter, ttl⟩) hmem hsim.inv id
    obtain ⟨hans', -⟩ := getHistory_spec (M := ⟨A, ttl⟩) hA.toImplements hsim.inv' id
    have hhistory : (getHistory ⟨memorySessionAdapter, ttl⟩ id h.world).1 =
        (getHistory ⟨A, ttl⟩ id h'.world).1 := Observation.history.inj heq
    rw [hans, hans', AgentState.mem_stored.mp hs, hs', Option.elim_some, Option.elim_some]
      at hhistory
    have hmsgs : s.history.messages = s'.history.messages :=
      congrArg History.messages (Except.ok.inj hhistory)
    simpa [Session.history, ht.unwritten.1] using hmsgs
  | listSessions user_id =>
    rintro ⟨id, s⟩ hs huser
    obtain ⟨-, -, hin⟩ := SessionManager.listSessions_spec (M := ⟨memorySessionAdapter, ttl⟩)
      hmem hsim.inv user_id
    obtain ⟨-, -, hin'⟩ := SessionManager.listSessions_spec (M := ⟨A, ttl⟩)
      hA.toImplements hsim.inv' user_id
    have hperm := Multiset.coe_eq_coe.mp (Observation.listed.inj heq)
    -- The session is in both listings, and what the adapter by value lists is unwritten.
    have hlisted := (hin id s).mpr ⟨AgentState.mem_stored.mp hs, huser⟩
    have hboth := (hin' id s).mp (hperm.subset hlisted)
    obtain ⟨s', hs', ht⟩ := htracked hs
    obtain rfl := Option.some.inj (hs'.symm.trans hboth.1)
    exact ht.unwritten
  | sessions user_id =>
    have hinfos := Observation.infos.inj heq
    simp only [getSessions, SessionManager.sessions, hA.external] at hinfos
    cases hinfos
  | _ => exact hop.elim

end Step

/-! ## An adapter by value -/

/-- A dictionary of copies. -/
def copyingSessionAdapter : SessionPersistenceAdapter (OrderedMap String Session) where
  save r w :=
    { w with store := w.store.set (w.heap.read r).session_id (w.heap.read r) }
  load session_id w :=
    match w.store.get? session_id with
    | none => (none, w)
    | some s => (some (w.heap.alloc s).1, { w with heap := (w.heap.alloc s).2 })
  delete session_id w :=
    ((w.store.get? session_id).isSome, { w with store := w.store.erase session_id })
  listSessionIds user_id w := (listedIds id w.store user_id, w)
  cleanupExpired ttl now w :=
    let expired := expiredIds id w.store ttl now
    (expired, { w with store := expired.foldl OrderedMap.erase w.store })
  memorySessions? _ := none

/-- The copies. -/
def copiedContents : Representation (OrderedMap String Session) where
  Inv _ := True
  view w := dictView id w.store
  inv_heap _ _ := trivial
  view_extends _ _ := rfl

/-- It is one by value. -/
theorem copyingSessionAdapter_byValue : copyingSessionAdapter.ByValue copiedContents where
  save _ r _ := ⟨trivial, .refl _, dictView_set ..⟩
  load {w} _ id := by
    cases hs : w.store.get? id with
    | none =>
      simp only [copyingSessionAdapter, hs]
      exact ⟨trivial, .refl _, rfl⟩
    | some s =>
      simp only [copyingSessionAdapter, hs]
      exact ⟨trivial, w.heap.extends_alloc s, rfl⟩
  -- A load hands out a copy, which is a new object of the heap.
  load_eq {w} _ id := by
    simp only [copyingSessionAdapter, copiedContents, dictView]
    cases w.store.get? id with
    | none => rfl
    | some s => exact congrArg some (w.heap.read_alloc s)
  load_lt {w} _ id r hr := by
    cases hs : w.store.get? id with
    | none =>
      simp only [copyingSessionAdapter, hs] at hr
      cases hr
    | some s =>
      simp only [copyingSessionAdapter, hs] at hr ⊢
      obtain rfl := Option.some.inj hr
      exact w.heap.alloc_lt_next s
  delete _ _ := ⟨trivial, .refl _, dictView_erase ..⟩
  delete_eq _ _ := Option.isSome_map.symm
  list _ _ := ⟨trivial, .refl _, rfl⟩
  nodup_list _ _ := nodup_listedIds ..
  mem_list _ _ _ := mem_listedIds ..
  cleanup _ _ _ := ⟨trivial, .refl _, dictView_expired ..⟩
  nodup_cleanup {w} _ _ _ := w.store.nodup_keys_filter _
  mem_cleanup _ _ _ _ := mem_expiredIds ..
  view_heap := rfl
  external _ := rfl

/-! ## Runs -/

section Runs

variable {σ : Type} {C : Representation σ} {A : SessionPersistenceAdapter σ} (P : Platform)
variable (cfg : AgentConfig) (reg : ToolRegistry) (ttl : ℤ)

/-- Nothing is stored at the start. -/
theorem Simulates.start {store : σ} (hinv : C.Inv ⟨store, .empty⟩)
    (hempty : ∀ id, C.view ⟨store, .empty⟩ id = none) :
    Simulates C (.start .empty) (.start store) where
  inv id r hr := by cases hr
  inv' := hinv
  tracked id := by
    show Option.Rel _ _ (C.view ⟨store, .empty⟩ id)
    rw [hempty]
    exact .none
  cache := rfl

/-- Operations that read no written session, in any number and order, cannot tell an adapter by
value from the in-memory one. -/
theorem byValue_outputs_eq (hA : A.ByValue C) {store : σ} (hinv : C.Inv ⟨store, .empty⟩)
    (hempty : ∀ id, C.view ⟨store, .empty⟩ id = none) (ops : List Operation)
    (hok : Machine.EveryStep (AgentState.step P cfg reg ⟨memorySessionAdapter, ttl⟩)
      AgentState.ReadsUnwritten (.start .empty) ops) :
    Machine.outputs (AgentState.step P cfg reg ⟨memorySessionAdapter, ttl⟩) (.start .empty) ops =
      Machine.outputs (AgentState.step P cfg reg ⟨A, ttl⟩) (.start store) ops := by
  refine Machine.outputs_eq_of_simulation (R := Simulates C) ?_ (.start hinv hempty) hok
  intro h h' op hsim hun
  exact hsim.step hA hun

/-- Creating a session and reading it, and a chat on another one, which is then deleted. -/
theorem byValue_outputs_eq_new_sessions :
    let ops : List Operation := [.create "u" "s1" 0, .get "s1",
      .chat { user_id := "u", message := "hi" } "s2" 1 (.scripted [{ content := some "ok" }]
        (.error ⟨.other, ""⟩)), .delete "s2", .listSessions (some "u"), .history "s1"]
    Machine.outputs (AgentState.step .bare { system_prompt := "p" } .empty
        ⟨memorySessionAdapter, 7200⟩) (.start .empty) ops =
      Machine.outputs (AgentState.step .bare { system_prompt := "p" } .empty
        ⟨copyingSessionAdapter, 7200⟩) (.start .empty) ops :=
  byValue_outputs_eq .bare { system_prompt := "p" } .empty 7200 copyingSessionAdapter_byValue
    trivial (fun _ => rfl) _ (by decide)

/-- After a chat, `get` gives its messages over the in-memory adapter, and an empty session over one
by value. -/
theorem byValue_loses_chat :
    let ops : List Operation := [.chat { user_id := "u", message := "hi" } "s1" 0
      (.scripted [{ content := some "ok" }] (.error ⟨.other, ""⟩)), .get "s1"]
    let inMemory := Machine.outputs (AgentState.step .bare { system_prompt := "p" } .empty
      ⟨memorySessionAdapter, 7200⟩) (.start .empty) ops
    let byValue := Machine.outputs (AgentState.step .bare { system_prompt := "p" } .empty
      ⟨copyingSessionAdapter, 7200⟩) (.start .empty) ops
    copyingSessionAdapter.ByValue copiedContents ∧
      inMemory = [.responded (.ok { content := "ok", session_id := "s1" }),
        .read (some {
          session_id := "s1"
          user_id := "u"
          state := { chain_depth := 1 }
          messages := [{ role := .user, content := some "hi" },
            { role := .assistant, content := some "ok" }] })]
      ∧ byValue = [.responded (.ok { content := "ok", session_id := "s1" }),
        .read (some { session_id := "s1", user_id := "u" })] := by
  -- The chat writes to the object that it got; only in memory is that the stored one.
  refine ⟨copyingSessionAdapter_byValue, ?_, ?_⟩
  · rfl
  · rfl

/-- As long as the chats and the clean-ups meet no written session, one reader that does is enough
to tell the two apart. -/
theorem byValue_outputs_eq_iff_of_writers (hA : A.ByValue C) {store : σ}
    (hinv : C.Inv ⟨store, .empty⟩) (hempty : ∀ id, C.view ⟨store, .empty⟩ id = none)
    (ops : List Operation)
    (hwriters : Machine.EveryStep (AgentState.step P cfg reg ⟨memorySessionAdapter, ttl⟩)
      (fun h op => op.Reads ∨ h.ReadsUnwritten op) (.start .empty) ops) :
    Machine.outputs (AgentState.step P cfg reg ⟨memorySessionAdapter, ttl⟩) (.start .empty) ops =
        Machine.outputs (AgentState.step P cfg reg ⟨A, ttl⟩) (.start store) ops ↔
      Machine.EveryStep (AgentState.step P cfg reg ⟨memorySessionAdapter, ttl⟩)
        AgentState.ReadsUnwritten (.start .empty) ops := by
  refine Machine.outputs_eq_iff_of_simulation (R := Simulates C) ?_ ?_ (.start hinv hempty) hwriters
  · intro h h' op hsim hun
    exact hsim.step hA hun
  · intro h h' op hsim hor hun
    exact hsim.differs_of_read hA (hor.resolve_right hun) hun

end Runs

end YellowBull
