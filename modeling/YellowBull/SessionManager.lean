import YellowBull.Lib.Heap
import YellowBull.Lib.OrderedMap
import YellowBull.Models

/-!
# Sessions and their store

`core/session_manager.py`. Sessions are objects on a heap, which the agent and the store reach by
reference: `MemorySessionAdapter` keeps references to the very objects that `create` returned, while
another adapter may keep anything. A method of an adapter is a function on the adapter's own state
with the heap (`World`).

`uuid4` and the clock are inputs of the functions that call them.
-/

namespace YellowBull

open Py

instance : Inhabited Session := ⟨{ session_id := "" }⟩

/-- `(now - s.updated_at).total_seconds() > max_age_seconds`. -/
def Session.Expired (max_age_seconds : ℤ) (now : Time) (s : Session) : Prop :=
  max_age_seconds * 1000000 < now - s.updated_at

instance (max_age_seconds : ℤ) (now : Time) :
    DecidablePred (Session.Expired max_age_seconds now) :=
  fun s => inferInstanceAs (Decidable (max_age_seconds * 1000000 < now - s.updated_at))

/-! ## Dictionaries of sessions

The comprehensions of `MemorySessionAdapter` over `self._sessions.items()`, where `session` is the
session that a value of the dictionary stands for.
-/

section Dict

variable {ν : Type} (session : ν → Session) (sessions : OrderedMap String ν)

/-- The ids that `list_session_ids` returns. -/
def listedIds (user_id : Option String) : List String :=
  match truthy? user_id with
  | some user_id =>
    (sessions.items.filter fun item => (session item.2).user_id = user_id).map Prod.fst
  | none => sessions.keys

/-- The ids that `cleanup_expired` deletes and returns. -/
def expiredIds (max_age_seconds : ℤ) (now : Time) : List String :=
  (sessions.items.filter fun item =>
    (session item.2).Expired max_age_seconds now).map Prod.fst

end Dict

/-! ## The adapters and the manager -/

/-- The state of an adapter and the heap of the sessions. -/
structure World (σ : Type) where
  store : σ
  heap : Heap Session

/-- The `dict` of `MemorySessionAdapter`, with sessions by reference. -/
abbrev MemoryStore := OrderedMap String Ref

/-- `SessionPersistenceAdapter`, with its state in `σ`. -/
structure SessionPersistenceAdapter (σ : Type) where
  save : Ref → World σ → World σ
  load : String → World σ → Option Ref × World σ
  delete : String → World σ → Bool × World σ
  listSessionIds : Option String → World σ → List String × World σ
  /-- `cleanup_expired(max_age_seconds)`, at the time `now`. -/
  cleanupExpired : ℤ → Time → World σ → List String × World σ
  /-- The `_sessions` of the adapter where it is a `MemorySessionAdapter`. -/
  memorySessions? : World σ → Option MemoryStore

/-- `MemorySessionAdapter`: `save` keeps the reference that it is given, and `load` gives it out. -/
def memorySessionAdapter : SessionPersistenceAdapter MemoryStore where
  save session w := { w with store := w.store.set (w.heap.read session).session_id session }
  load session_id w := (w.store.get? session_id, w)
  delete session_id w :=
    ((w.store.get? session_id).isSome, { w with store := w.store.erase session_id })
  listSessionIds user_id w := (listedIds w.heap.read w.store user_id, w)
  cleanupExpired max_age_seconds now w :=
    let expired := expiredIds w.heap.read w.store max_age_seconds now
    (expired, { w with store := expired.foldl OrderedMap.erase w.store })
  memorySessions? w := some w.store

/-- `SessionManager`. -/
structure SessionManager (σ : Type) where
  adapter : SessionPersistenceAdapter σ
  default_ttl_seconds : ℤ := 7200

/-- The `SessionManager` that is made without an adapter. -/
def memorySessionManager (default_ttl_seconds : ℤ) : SessionManager MemoryStore :=
  ⟨memorySessionAdapter, default_ttl_seconds⟩

namespace SessionManager

variable {σ : Type} (M : SessionManager σ)

/-- `SessionManager.create`, the only method that saves. -/
def create (user_id session_id : String) (now : Time) (w : World σ) : Ref × World σ :=
  let (session, heap) := w.heap.alloc { session_id, user_id, updated_at := now }
  (session, M.adapter.save session { w with heap })

/-- `SessionManager.get`. -/
def get (session_id : String) (w : World σ) : Option Ref × World σ := M.adapter.load session_id w

/-- `SessionManager.delete`. -/
def delete (session_id : String) (w : World σ) : Bool × World σ := M.adapter.delete session_id w

/-- The loop of `SessionManager.list_sessions`. -/
def loadSessions : List String → World σ → List (String × Ref) × World σ
  | [], w => ([], w)
  | session_id :: ids, w =>
    let (session, w) := M.adapter.load session_id w
    let (result, w) := loadSessions ids w
    ((session.map (session_id, ·)).toList ++ result, w)

/-- `SessionManager.list_sessions`. -/
def listSessions (user_id : Option String) (w : World σ) : List (String × Ref) × World σ :=
  let (ids, w) := M.adapter.listSessionIds user_id w
  M.loadSessions ids w

/-- `SessionManager.cleanup_expired`. -/
def cleanupExpired (max_age_seconds : Option ℤ) (now : Time) (w : World σ) :
    List String × World σ :=
  M.adapter.cleanupExpired (max_age_seconds.getD M.default_ttl_seconds) now w

/-- The property `SessionManager._sessions`. -/
def sessions (w : World σ) : Except Exn MemoryStore :=
  match M.adapter.memorySessions? w with
  | some store => .ok store
  | none => .error ⟨.attributeError,
      "Use list_sessions() instead of _sessions with external adapters"⟩

end SessionManager

end YellowBull
