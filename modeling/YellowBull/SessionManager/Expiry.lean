import YellowBull.Lib.Latest
import YellowBull.SessionManager.Interface

/-!
# The sessions in memory over whole runs

The clients of `SessionManager` over `MemorySessionAdapter` create, get and delete sessions, clean
up, and add messages to the `Session` objects that they hold, whether the store still has them or
not. What is so of a session after a run is told by the calls alone (`sessions_kept`): whether it is
stored (`Present`), its messages, and the time of its last activity, which each `cleanup_expired`
compares with the age that it is given.

The clock may go either way, since an age is only compared when a cleanup asks. The store keeps
references, so that a message reaches the stored session through the client's own object. The step
from the objects to the calls goes through `Kept`, what is known of one id: each call changes it
without regard to the other ids (`step_acts`).
-/

namespace YellowBull

open Latest

/-- A call on a session manager or on a `Session` object, with the id of a session that it makes and
its reading of the clock. -/
inductive SessionOp where
  | create (user_id session_id : String) (now : Time)
  | get (session_id : String)
  | delete (session_id : String)
  /-- `add_message` on the object that the client holds for the id. -/
  | addMessage (session_id : String) (now : Time) (msg : Message)
  | cleanup (max_age_seconds : Option ℤ) (now : Time)

/-- The store and the objects, with the `Session` object that the clients hold for an id. -/
structure SessionClients where
  world : World MemoryStore
  held : String → Option Ref

namespace SessionClients

variable (M : SessionManager MemoryStore)

/-- No session has been made. -/
def start : SessionClients := ⟨⟨.empty, .empty⟩, fun _ => none⟩

/-- One call. The clients hold each object that they are given. -/
def step (c : SessionClients) : SessionOp → SessionClients
  | .create user_id session_id now =>
    let (session, world) := M.create user_id session_id now c.world
    ⟨world, Function.update c.held session_id (some session)⟩
  | .get session_id =>
    match M.get session_id c.world with
    | (some session, world) => ⟨world, Function.update c.held session_id (some session)⟩
    | (none, world) => { c with world }
  | .delete session_id => { c with world := (M.delete session_id c.world).2 }
  | .addMessage session_id now msg =>
    match c.held session_id with
    | some session =>
      { c with world.heap :=
          c.world.heap.write session ((c.world.heap.read session).addMessage now msg) }
    | none => c
  | .cleanup max_age_seconds now =>
    { c with world := (M.cleanupExpired max_age_seconds now c.world).2 }

/-- The calls of a run, one after another. -/
def run (ops : List SessionOp) : SessionClients := ops.foldl (step M) start

end SessionClients

/-! ## What the calls tell -/

/-- The id of the session that a call makes. -/
def SessionOp.created : SessionOp → Option String
  | .create _ session_id _ => some session_id
  | _ => none

/-- The ids of the sessions that the calls make, in order. -/
def createdIds (ops : List SessionOp) : List String := ops.filterMap SessionOp.created

/-- When a call is an activity of the session: its creation and each added message are. -/
def SessionOp.activity (session_id : String) : SessionOp → Option Time
  | .create _ id now => if id = session_id then some now else none
  | .addMessage id now _ => if id = session_id then some now else none
  | _ => none

/-- The message that a call adds to the session. -/
def SessionOp.added (session_id : String) : SessionOp → Option Message
  | .addMessage id _ msg => if id = session_id then some msg else none
  | _ => none

/-- The time of the last activity of a session. -/
def lastActivity (session_id : String) (ops : List SessionOp) : Time :=
  latest (SessionOp.activity session_id) 0 ops

/-- After the calls of `head`, the calls of `post` did not take the session out of the store: none
deletes it, and no cleanup found that its last activity was longer ago than the age given. -/
def Survives (default_ttl_seconds : ℤ) (session_id : String) (head post : List SessionOp) : Prop :=
  .delete session_id ∉ post ∧
    ∀ before max_age_seconds t after, post = before ++ .cleanup max_age_seconds t :: after →
      ¬ max_age_seconds.getD default_ttl_seconds * 1000000 <
        t - lastActivity session_id (head ++ before)

/-- The session that the last call of `head` created, after the calls of `post`: the messages that
were added to it, in order, and the time of its last activity. -/
def sessionAfter (user_id session_id : String) (head post : List SessionOp) : Session where
  session_id := session_id
  user_id := user_id
  messages := post.filterMap (SessionOp.added session_id)
  updated_at := lastActivity session_id (head ++ post)

/-- The session was created, and nothing took it out of the store since. -/
def Present (default_ttl_seconds : ℤ) (session_id : String) (ops : List SessionOp) : Prop :=
  ∃ pre user_id now post, ops = pre ++ .create user_id session_id now :: post ∧
    Survives default_ttl_seconds session_id (pre ++ [.create user_id session_id now]) post

/-! ## What is known of one id -/

/-- The session that was made under an id, and whether it is stored. -/
structure Kept where
  session : Session
  stored : Bool

variable {default_ttl_seconds : ℤ} {c : SessionClients}

variable (default_ttl_seconds) in
/-- What a call does to the session of an id. -/
def SessionOp.keep (session_id : String) (kept : Option Kept) : SessionOp → Option Kept
  | .create user_id id now =>
    if id = session_id then some ⟨{ session_id, user_id, updated_at := now }, true⟩ else kept
  | .get _ => kept
  | .delete id => if id = session_id then kept.map ({ · with stored := false }) else kept
  | .addMessage id now msg =>
    if id = session_id then kept.map fun k => { k with session := k.session.addMessage now msg }
    else kept
  | .cleanup max_age_seconds now =>
    kept.map fun k =>
      if k.session.Expired (max_age_seconds.getD default_ttl_seconds) now then
        { k with stored := false }
      else k

/-- The session of an id among the objects of the clients. -/
def SessionClients.view (c : SessionClients) (session_id : String) : Option Kept :=
  (c.held session_id).map fun session =>
    ⟨c.world.heap.read session, (c.world.store.get? session_id).isSome⟩

/-- The objects are held under their ids, and the store has no others. -/
structure SessionClients.Consistent (c : SessionClients) : Prop where
  lt_next : ∀ {id r}, c.held id = some r → r < c.world.heap.next
  session_id_eq : ∀ {id r}, c.held id = some r → (c.world.heap.read r).session_id = id
  held_of_stored : ∀ {id r}, c.world.store.get? id = some r → c.held id = some r

variable (default_ttl_seconds) in
/-- The clients go from the first state to the second, as `keep` says of the sessions of each id. -/
structure Acts (c : SessionClients) (op : SessionOp) (c' : SessionClients) : Prop where
  consistent : c'.Consistent
  view_eq : ∀ id, c'.view id = op.keep default_ttl_seconds id (c.view id)

/-! ## One call -/

section Step

variable (hc : c.Consistent)
include hc

/-- Different ids have different objects. -/
theorem SessionClients.Consistent.ne {id id' : String} {r r' : Ref} (hid : id ≠ id')
    (hr : c.held id = some r) (hr' : c.held id' = some r') : r ≠ r' := by
  rintro rfl
  exact hid ((hc.session_id_eq hr).symm.trans (hc.session_id_eq hr'))

/-- Changing the object of an id leaves the others. -/
theorem SessionClients.Consistent.read_write {id id' : String} {r r' : Ref} (s : Session)
    (hid : id' ≠ id) (hr : c.held id = some r) (hr' : c.held id' = some r') :
    (c.world.heap.write r s).read r' = c.world.heap.read r' :=
  Heap.read_write_of_ne _ (hc.ne hid hr' hr) _

variable (default_ttl_seconds)

/-- `create` makes a new object and stores it. -/
theorem create_acts (user_id id : String) (now : Time) :
    Acts default_ttl_seconds c (.create user_id id now)
      (c.step (memorySessionManager default_ttl_seconds) (.create user_id id now)) := by
  have hstep : c.step (memorySessionManager default_ttl_seconds) (.create user_id id now) =
      ⟨⟨c.world.store.set id c.world.heap.next,
        (c.world.heap.alloc { session_id := id, user_id, updated_at := now }).2⟩,
        Function.update c.held id (some c.world.heap.next)⟩ := by
    have hread := c.world.heap.read_alloc { session_id := id, user_id, updated_at := now }
    exact congrArg (fun s : Session =>
      SessionClients.mk ⟨c.world.store.set s.session_id c.world.heap.next,
        (c.world.heap.alloc { session_id := id, user_id, updated_at := now }).2⟩
        (Function.update c.held id (some c.world.heap.next))) hread
  rw [hstep]
  have hold {id' : String} {r : Ref} (hr : c.held id' = some r) (s : Session) :
      (c.world.heap.alloc s).2.read r = c.world.heap.read r :=
    (c.world.heap.extends_alloc s).read_eq r (hc.lt_next hr)
  -- The object of the id is the new one, the others are older.
  refine ⟨⟨fun {id' r} hr => ?_, fun {id' r} hr => ?_, fun {id' r} hr => ?_⟩, fun id' => ?_⟩
  · by_cases h : id' = id
    · obtain rfl : c.world.heap.next = r := by simpa [h] using hr
      exact Nat.lt_succ_self _
    · exact Nat.lt_succ_of_lt (hc.lt_next (by simpa [h] using hr))
  · by_cases h : id' = id
    · obtain rfl : c.world.heap.next = r := by simpa [h] using hr
      exact (congrArg Session.session_id (c.world.heap.read_alloc _)).trans h.symm
    · have hr : c.held id' = some r := by simpa [h] using hr
      exact (congrArg Session.session_id (hold hr _)).trans (hc.session_id_eq hr)
  · rw [OrderedMap.get?_set] at hr
    by_cases h : id' = id
    · simpa [h] using hr
    · simpa [h] using hc.held_of_stored (by simpa [h] using hr)
  · simp only [SessionOp.keep, SessionClients.view, OrderedMap.get?_set]
    by_cases h : id' = id
    · rw [h, Function.update_self, Function.update_self, if_pos rfl, Option.map_some]
      exact congrArg (fun s => some (Kept.mk s true)) (c.world.heap.read_alloc _)
    · rw [Function.update_of_ne h, Function.update_of_ne h, if_neg (Ne.symm h)]
      cases hr : c.held id' with
      | none => rfl
      | some r => exact congrArg (fun s => some (Kept.mk s _)) (hold hr _)

/-- `get` gives the object that is held. -/
theorem get_acts (id : String) :
    Acts default_ttl_seconds c (.get id)
      (c.step (memorySessionManager default_ttl_seconds) (.get id)) := by
  have hstep : c.step (memorySessionManager default_ttl_seconds) (.get id) = c := by
    show (match (c.world.store.get? id, c.world) with
      | (some session, world) => ⟨world, Function.update c.held id (some session)⟩
      | (none, world) => { c with world := world }) = c
    cases hr : c.world.store.get? id with
    | none => rfl
    | some r =>
      show SessionClients.mk c.world (Function.update c.held id (some r)) = c
      rw [← hc.held_of_stored hr, Function.update_eq_self]
  rw [hstep]
  exact ⟨hc, fun _ => rfl⟩

/-- `delete` takes a session out of the store. -/
theorem delete_acts (id : String) :
    Acts default_ttl_seconds c (.delete id)
      (c.step (memorySessionManager default_ttl_seconds) (.delete id)) := by
  refine ⟨⟨hc.lt_next, hc.session_id_eq, fun {id' r} hr => ?_⟩, fun id' => ?_⟩
  · have hr : (c.world.store.erase id).get? id' = some r := hr
    rw [OrderedMap.get?_erase] at hr
    by_cases h : id' = id
    · simp [h] at hr
    · exact hc.held_of_stored (by simpa [h] using hr)
  · show (c.held id').map (fun session => Kept.mk (c.world.heap.read session)
      ((c.world.store.erase id).get? id').isSome) = _
    rw [SessionOp.keep, SessionClients.view, OrderedMap.get?_erase]
    by_cases h : id' = id
    · rw [h, Function.update_self, if_pos rfl, Option.map_map]
      rfl
    · rw [Function.update_of_ne h, if_neg (Ne.symm h)]

/-- `add_message` changes the object of the id, and the store not at all. -/
theorem addMessage_acts (id : String) (now : Time) (msg : Message) :
    Acts default_ttl_seconds c (.addMessage id now msg)
      (c.step (memorySessionManager default_ttl_seconds) (.addMessage id now msg)) := by
  rw [SessionClients.step]
  -- Nobody holds a session of this id, so there is nothing to add to.
  cases hr : c.held id with
  | none =>
    refine ⟨hc, fun id' => ?_⟩
    rw [SessionOp.keep, SessionClients.view]
    by_cases h : id = id'
    · rw [if_pos h, ← h, hr]
      rfl
    · rw [if_neg h]
  | some r =>
    refine ⟨⟨hc.lt_next, fun {id' r'} hr' => ?_, hc.held_of_stored⟩, fun id' => ?_⟩
    -- The object keeps its id; the others are not written to.
    · by_cases h : id' = id
      · obtain rfl : r = r' := Option.some.inj (hr.symm.trans (h ▸ hr'))
        exact (congrArg Session.session_id (Heap.read_write_self ..)).trans
          (hc.session_id_eq hr')
      · exact (congrArg Session.session_id (hc.read_write _ h hr hr')).trans (hc.session_id_eq hr')
    · rw [SessionOp.keep, SessionClients.view, SessionClients.view]
      -- Only the session under this id gets the message.
      by_cases h : id' = id
      · rw [if_pos h.symm, h, hr]
        exact congrArg (fun s => some (Kept.mk s _)) (Heap.read_write_self ..)
      · rw [if_neg (Ne.symm h)]
        cases hr' : c.held id' with
        | none => rfl
        | some r' => exact congrArg (fun s => some (Kept.mk s _)) (hc.read_write _ h hr hr')

/-- `cleanup_expired` takes the expired sessions out of the store. -/
theorem cleanup_acts (max_age_seconds : Option ℤ) (now : Time) :
    Acts default_ttl_seconds c (.cleanup max_age_seconds now)
      (c.step (memorySessionManager default_ttl_seconds) (.cleanup max_age_seconds now)) := by
  generalize hage : max_age_seconds.getD default_ttl_seconds = age
  have hget (id : String) :
      (c.step (memorySessionManager default_ttl_seconds)
        (.cleanup max_age_seconds now)).world.store.get? id =
      if id ∈ expiredIds c.world.heap.read c.world.store age now then none
      else c.world.store.get? id := by
    rw [← hage]
    exact OrderedMap.get?_foldl_erase ..
  refine ⟨⟨hc.lt_next, hc.session_id_eq, fun {id r} hr => ?_⟩, fun id => ?_⟩
  · rw [hget] at hr
    split_ifs at hr
    exact hc.held_of_stored hr
  · show (c.held id).map (fun session => Kept.mk (c.world.heap.read session) (Option.isSome _)) = _
    rw [hget, SessionOp.keep, SessionClients.view, hage, Option.map_map]
    cases hr : c.held id with
    | none => rfl
    | some r =>
      simp only [mem_expiredIds, dictView, Option.map_some, Function.comp_apply]
      cases hstored : c.world.store.get? id with
      | none => simp
      | some r' =>
        -- The object that the cleanup looks at is the one that the clients hold.
        obtain rfl : r = r' := Option.some.inj (hr.symm.trans (hc.held_of_stored hstored))
        by_cases hexp : (c.world.heap.read r).Expired age now
        · simp [hexp]
        · simp [hexp]

/-- Each call acts on every id. -/
theorem step_acts (op : SessionOp) :
    Acts default_ttl_seconds c op (c.step (memorySessionManager default_ttl_seconds) op) := by
  cases op with
  | create user_id id now => exact create_acts _ hc user_id id now
  | get id => exact get_acts _ hc id
  | delete id => exact delete_acts _ hc id
  | addMessage id now msg => exact addMessage_acts _ hc id now msg
  | cleanup max_age_seconds now => exact cleanup_acts _ hc max_age_seconds now

end Step

/-! ## Runs -/

/-- What is known of an id after a run. -/
def kept (default_ttl_seconds : ℤ) (session_id : String) (ops : List SessionOp) : Option Kept :=
  ops.foldl (SessionOp.keep default_ttl_seconds session_id) none

/-- One more operation changes what is kept of the session. -/
theorem kept_concat (default_ttl_seconds : ℤ) (session_id : String) (ops : List SessionOp)
    (op : SessionOp) : kept default_ttl_seconds session_id (ops ++ [op]) =
      op.keep default_ttl_seconds session_id (kept default_ttl_seconds session_id ops) := by
  simp only [kept, List.foldl_append, List.foldl_cons, List.foldl_nil]

/-- After a run, the objects are as the calls say. -/
theorem run_acts (default_ttl_seconds : ℤ) (ops : List SessionOp) :
    (SessionClients.run (memorySessionManager default_ttl_seconds) ops).Consistent ∧
      ∀ id, (SessionClients.run (memorySessionManager default_ttl_seconds) ops).view id =
        kept default_ttl_seconds id ops := by
  -- Each further operation acts on what has been kept as the definition says.
  induction ops using List.reverseRecOn with
  | nil =>
    refine ⟨⟨fun h => ?_, fun h => ?_, fun h => ?_⟩, fun id => rfl⟩
    · cases h
    · cases h
    · cases h
  | append_singleton ops op ih =>
    obtain ⟨hc, hview⟩ := ih
    obtain ⟨hc', hview'⟩ := step_acts default_ttl_seconds hc op
    have hrun : SessionClients.run (memorySessionManager default_ttl_seconds) (ops ++ [op]) =
        (SessionClients.run (memorySessionManager default_ttl_seconds) ops).step
          (memorySessionManager default_ttl_seconds) op := List.foldl_concat ..
    rw [hrun]
    exact ⟨hc', fun id => by rw [hview', hview, kept_concat]⟩

/-- The places of a call in a history with one more call. -/
theorem concat_eq_append_cons {ι : Type*} {ops pre post : List ι} {last op : ι} :
    ops ++ [last] = pre ++ op :: post ↔
      (ops = pre ∧ last = op ∧ post = []) ∨ ∃ post', post = post' ++ [last] ∧
        ops = pre ++ op :: post' := by
  constructor
  · intro h
    rcases List.eq_nil_or_concat' post with rfl | ⟨post', op', rfl⟩
    · obtain ⟨rfl, hop⟩ := List.append_inj' h rfl
      exact Or.inl ⟨rfl, List.singleton_inj.mp hop, rfl⟩
    · rw [← List.cons_append, ← List.append_assoc] at h
      obtain ⟨rfl, hop⟩ := List.append_inj' h rfl
      exact Or.inr ⟨post', by rw [List.singleton_inj.mp hop], rfl⟩
  · rintro (⟨rfl, rfl, rfl⟩ | ⟨post', rfl, rfl⟩)
    · rfl
    · simp

/-- One more call. -/
theorem survives_concat {default_ttl_seconds : ℤ} {session_id : String} {head post : List SessionOp}
    {op : SessionOp} : Survives default_ttl_seconds session_id head (post ++ [op]) ↔
      Survives default_ttl_seconds session_id head post ∧ op ≠ .delete session_id ∧
        ∀ max_age_seconds t, op = .cleanup max_age_seconds t →
          ¬ max_age_seconds.getD default_ttl_seconds * 1000000 <
            t - lastActivity session_id (head ++ post) := by
  constructor
  -- The last cleanup is one of those that the session has to survive.
  · rintro ⟨hdelete, hcleanup⟩
    simp only [List.mem_append, List.mem_singleton, not_or] at hdelete
    refine ⟨⟨hdelete.1, fun before age t after hpost => ?_⟩, Ne.symm hdelete.2, ?_⟩
    · exact hcleanup before age t (after ++ [op]) (by simp [hpost])
    · rintro age t rfl
      exact hcleanup post age t [] rfl
  · rintro ⟨⟨hdelete, hcleanup⟩, hop, hlast⟩
    refine ⟨?_, fun before age t after hpost => ?_⟩
    · simp only [List.mem_append, List.mem_singleton, not_or]
      exact ⟨hdelete, Ne.symm hop⟩
    -- Every other cleanup is one of the run before.
    · rcases concat_eq_append_cons.mp hpost with ⟨rfl, hop', -⟩ | ⟨after', -, hpost'⟩
      · exact hlast age t hop'
      · exact hcleanup before age t after' hpost'

/-- A call that is no activity of the session leaves it as it is. -/
theorem sessionAfter_concat_of_none {user_id session_id : String} {head post : List SessionOp}
    {op : SessionOp} (hactivity : op.activity session_id = none)
    (hadded : op.added session_id = none) :
    sessionAfter user_id session_id head (post ++ [op]) =
      sessionAfter user_id session_id head post := by
  unfold sessionAfter lastActivity
  rw [← List.append_assoc, latest_concat, hactivity, List.filterMap_append]
  simp [hadded]

/-- A message that is added to the session. -/
theorem sessionAfter_concat_addMessage (user_id session_id : String) (head post : List SessionOp)
    (now : Time) (msg : Message) :
    sessionAfter user_id session_id head (post ++ [.addMessage session_id now msg]) =
      (sessionAfter user_id session_id head post).addMessage now msg := by
  unfold sessionAfter lastActivity Session.addMessage
  rw [← List.append_assoc, latest_concat, List.filterMap_append]
  simp [SessionOp.activity, SessionOp.added]

/-- What a session has become since its creation. -/
theorem kept_of_created (default_ttl_seconds : ℤ) (user_id : String) {session_id : String}
    (now : Time) (pre : List SessionOp) {post : List SessionOp}
    (hpost : session_id ∉ createdIds post) :
    ∃ stored, kept default_ttl_seconds session_id
        (pre ++ .create user_id session_id now :: post) =
          some ⟨sessionAfter user_id session_id (pre ++ [.create user_id session_id now]) post,
            stored⟩ ∧
      (stored = true ↔ Survives default_ttl_seconds session_id
        (pre ++ [.create user_id session_id now]) post) := by
  rw [List.append_cons]
  generalize hhead : pre ++ [.create user_id session_id now] = head
  -- Whether a cleanup takes the session depends on the calls before it, so the last call is split
  -- off. The session goes on as an object when it has left the store.
  induction post using List.reverseRecOn with
  | nil =>
    refine ⟨true, ?_, by simp [Survives]⟩
    subst hhead
    simp [kept, SessionOp.keep, sessionAfter, lastActivity, SessionOp.activity]
  | append_singleton post op ih =>
    simp only [createdIds, List.filterMap_append, List.mem_append, not_or] at hpost
    obtain ⟨stored, hkept, hstored⟩ := ih hpost.1
    have hstep : kept default_ttl_seconds session_id (head ++ (post ++ [op])) =
        op.keep default_ttl_seconds session_id
          (some ⟨sessionAfter user_id session_id head post, stored⟩) := by
      rw [← hkept, ← List.append_assoc, kept_concat]
    rw [hstep]
    simp only [survives_concat, ← hstored]
    cases op with
    | create user_id' id now' =>
      have hid : id ≠ session_id := by simpa [SessionOp.created, eq_comm] using hpost.2
      have hactivity : (SessionOp.create user_id' id now').activity session_id = none := if_neg hid
      rw [sessionAfter_concat_of_none hactivity rfl]
      exact ⟨stored, if_neg hid, by simp⟩
    | get id =>
      rw [sessionAfter_concat_of_none rfl rfl]
      exact ⟨stored, rfl, by simp⟩
    | delete id =>
      rw [sessionAfter_concat_of_none rfl rfl]
      by_cases hid : id = session_id
      · exact ⟨false, by simp [SessionOp.keep, hid], by simp [hid]⟩
      · exact ⟨stored, by simp [SessionOp.keep, hid], by simp [hid]⟩
    | addMessage id now' msg =>
      by_cases hid : id = session_id
      · subst hid
        rw [sessionAfter_concat_addMessage]
        exact ⟨stored, by simp [SessionOp.keep], by simp⟩
      · have hactivity : (SessionOp.addMessage id now' msg).activity session_id = none :=
          if_neg hid
        rw [sessionAfter_concat_of_none hactivity (if_neg hid)]
        exact ⟨stored, by simp [SessionOp.keep, hid], by simp⟩
    | cleanup max_age_seconds t =>
      rw [sessionAfter_concat_of_none rfl rfl]
      by_cases hexp : (sessionAfter user_id session_id head post).Expired
          (max_age_seconds.getD default_ttl_seconds) t
      · refine ⟨false, by simp [SessionOp.keep, hexp], ?_⟩
        simp only [Bool.false_eq_true, false_iff, not_and]
        exact fun _ _ h => h max_age_seconds t rfl hexp
      · refine ⟨stored, by simp [SessionOp.keep, hexp], ?_⟩
        refine (and_iff_left ⟨by simp, ?_⟩).symm
        rintro _ _ ⟨⟩
        exact hexp

/-- A session that was not created is not known. -/
theorem kept_of_not_created {default_ttl_seconds : ℤ} {session_id : String}
    {ops : List SessionOp} (h : session_id ∉ createdIds ops) :
    kept default_ttl_seconds session_id ops = none := by
  induction ops using List.reverseRecOn with
  | nil => rfl
  | append_singleton ops op ih =>
    simp only [createdIds, List.filterMap_append, List.mem_append, not_or] at h
    rw [kept_concat, ih h.1]
    cases op with
    | create user_id id now =>
      have hid : id ≠ session_id := by simpa [SessionOp.created, eq_comm] using h.2
      exact if_neg hid
    | get id => rfl
    | delete id => exact ite_self _
    | addMessage id now msg => exact ite_self _
    | cleanup max_age_seconds t => rfl

/-- An id that is made once is made in one place. -/
theorem not_mem_of_nodup {pre post : List SessionOp} {user_id session_id : String} {now : Time}
    (h : (createdIds (pre ++ .create user_id session_id now :: post)).Nodup) :
    session_id ∉ createdIds post := by
  have hcons : createdIds (.create user_id session_id now :: post) =
      session_id :: createdIds post := List.filterMap_cons_some rfl
  unfold createdIds at h hcons ⊢
  rw [List.filterMap_append, hcons] at h
  exact (List.nodup_cons.mp (List.nodup_append.mp h).2.1).1

/-! ## The store -/

section Store

variable (default_ttl_seconds : ℤ) (ops : List SessionOp)

/-- The clients after a run over the in-memory store. -/
def clientsAfter : SessionClients :=
  SessionClients.run (memorySessionManager default_ttl_seconds) ops

/-- What `get` returns after a run. -/
def getAfter (session_id : String) : Option Ref :=
  ((memorySessionManager default_ttl_seconds).get session_id
    (clientsAfter default_ttl_seconds ops).world).1

/-- What `cleanup_expired` returns after a run. -/
def cleanupAfter (max_age_seconds : Option ℤ) (now : Time) : List String :=
  ((memorySessionManager default_ttl_seconds).cleanupExpired max_age_seconds now
    (clientsAfter default_ttl_seconds ops).world).1

/-- What a run of calls that make different ids leaves in the store. -/
structure SessionsKept : Prop where
  /-- `get` returns a session exactly when it is present. -/
  getAfter_isSome_iff : ∀ session_id,
    (getAfter default_ttl_seconds ops session_id).isSome ↔
      Present default_ttl_seconds session_id ops
  /-- What it returns is the object that the clients hold. -/
  held_of_get : ∀ session_id, ∀ session ∈ getAfter default_ttl_seconds ops session_id,
    (clientsAfter default_ttl_seconds ops).held session_id = some session
  /-- The object has the messages that were added, in order. -/
  read_held : ∀ pre user_id session_id now post,
    ops = pre ++ .create user_id session_id now :: post →
      ((clientsAfter default_ttl_seconds ops).held session_id).map
          (clientsAfter default_ttl_seconds ops).world.heap.read =
        some (sessionAfter user_id session_id (pre ++ [.create user_id session_id now]) post)
  /-- A cleanup returns each id at most once. -/
  nodup_cleanup : ∀ max_age_seconds now,
    (cleanupAfter default_ttl_seconds ops max_age_seconds now).Nodup
  /-- A cleanup returns the ids that it removes. -/
  mem_cleanup_iff : ∀ max_age_seconds now session_id,
    session_id ∈ cleanupAfter default_ttl_seconds ops max_age_seconds now ↔
      (getAfter default_ttl_seconds ops session_id).isSome ∧
        getAfter default_ttl_seconds (ops ++ [.cleanup max_age_seconds now]) session_id = none
  /-- A session that was removed does not come back, whatever is added to its object. -/
  never_back : ∀ post session_id, (createdIds (ops ++ post)).Nodup →
    session_id ∈ createdIds ops → getAfter default_ttl_seconds ops session_id = none →
      getAfter default_ttl_seconds (ops ++ post) session_id = none

variable {default_ttl_seconds ops}

/-- `get` finds just the sessions that are known to be stored. -/
theorem getAfter_isSome (session_id : String) :
    (getAfter default_ttl_seconds ops session_id).isSome ↔
      ∃ k ∈ kept default_ttl_seconds session_id ops, k.stored = true := by
  obtain ⟨hc, hview⟩ := run_acts default_ttl_seconds ops
  rw [← hview]
  unfold SessionClients.view
  constructor
  · intro h
    obtain ⟨r, hr⟩ := Option.isSome_iff_exists.mp h
    exact ⟨_, Option.map_eq_some_iff.mpr ⟨r, hc.held_of_stored hr, rfl⟩, h⟩
  · rintro ⟨k, hk, hstored⟩
    obtain ⟨r, -, rfl⟩ := Option.map_eq_some_iff.mp hk
    exact hstored

/-- `get` returns the sessions that are present. -/
theorem getAfter_isSome_iff_present (hops : (createdIds ops).Nodup) (session_id : String) :
    (getAfter default_ttl_seconds ops session_id).isSome ↔
      Present default_ttl_seconds session_id ops := by
  rw [getAfter_isSome]
  constructor
  · rintro ⟨k, hk, hstored⟩
    -- What is known of the session was made by one call, which splits the history.
    have hmem : session_id ∈ createdIds ops := by
      by_contra h
      rw [kept_of_not_created h] at hk
      cases hk
    obtain ⟨op, hop, hcreated⟩ := List.mem_filterMap.mp hmem
    cases op with
    | create user_id id now =>
      obtain rfl : id = session_id := by simpa [SessionOp.created] using hcreated
      obtain ⟨pre, post, rfl⟩ := List.append_of_mem hop
      obtain ⟨stored, hkept, hiff⟩ :=
        kept_of_created default_ttl_seconds user_id now pre (not_mem_of_nodup hops)
      obtain rfl := Option.some.inj (hkept.symm.trans hk)
      exact ⟨pre, user_id, now, post, rfl, hiff.mp hstored⟩
    | _ => cases hcreated
  · rintro ⟨pre, user_id, now, post, rfl, hsurvives⟩
    obtain ⟨stored, hkept, hiff⟩ :=
      kept_of_created default_ttl_seconds user_id now pre (not_mem_of_nodup hops)
    exact ⟨_, hkept, hiff.mpr hsurvives⟩

/-- A call that does not make the session does not put it into the store. -/
theorem stored_keep {session_id : String} {op : SessionOp} {kept : Option Kept}
    (hop : op.created ≠ some session_id) (h : ∀ k ∈ kept, k.stored = false) :
    ∀ k ∈ op.keep default_ttl_seconds session_id kept, k.stored = false := by
  -- Only a creation under the id stores it; a deletion or a cleanup can only take it away.
  cases op with
  | create user_id id now =>
    have hid : id ≠ session_id := fun hid => hop (congrArg some hid)
    rw [SessionOp.keep, if_neg hid]
    exact h
  | get id => exact h
  | delete id =>
    rw [SessionOp.keep]
    split_ifs
    · rintro _ hkept
      obtain ⟨k, -, rfl⟩ := Option.map_eq_some_iff.mp hkept
      rfl
    · exact h
  | addMessage id now msg =>
    rw [SessionOp.keep]
    split_ifs
    · rintro _ hkept
      obtain ⟨k, hk, rfl⟩ := Option.map_eq_some_iff.mp hkept
      exact h k hk
    · exact h
  | cleanup max_age_seconds t =>
    rintro _ hkept
    obtain ⟨k, hk, rfl⟩ := Option.map_eq_some_iff.mp hkept
    split_ifs
    · rfl
    · exact h k hk

/-- A session that was taken out of the store does not come back. -/
theorem getAfter_append_eq_none {post : List SessionOp} {session_id : String}
    (hpost : session_id ∉ createdIds post)
    (h : getAfter default_ttl_seconds ops session_id = none) :
    getAfter default_ttl_seconds (ops ++ post) session_id = none := by
  have hnot (ops : List SessionOp) : getAfter default_ttl_seconds ops session_id = none ↔
      ∀ k ∈ kept default_ttl_seconds session_id ops, k.stored = false := by
    rw [← Option.not_isSome_iff_eq_none, getAfter_isSome]
    simp
  rw [hnot] at h ⊢
  unfold kept at h ⊢
  rw [List.foldl_append]
  generalize List.foldl _ none ops = k at h ⊢
  -- No call after the removal creates the session, and none but `create` stores one.
  induction post generalizing k with
  | nil => exact h
  | cons op post ih =>
    have hop : op.created ≠ some session_id := fun hop =>
      hpost (List.mem_filterMap.mpr ⟨op, by simp, hop⟩)
    refine ih (fun hmem => hpost ?_) _ (stored_keep hop h)
    obtain ⟨op', hop', hid⟩ := List.mem_filterMap.mp hmem
    exact List.mem_filterMap.mpr ⟨op', List.mem_cons_of_mem _ hop', hid⟩

/-- On every run of calls that make different ids, the in-memory store is told by the calls. -/
theorem sessions_kept (hops : (createdIds ops).Nodup) : SessionsKept default_ttl_seconds ops where
  getAfter_isSome_iff := getAfter_isSome_iff_present hops
  held_of_get session_id session hget := (run_acts default_ttl_seconds ops).1.held_of_stored hget
  read_held pre user_id session_id now post hsplit := by
    subst hsplit
    obtain ⟨stored, hkept, -⟩ :=
      kept_of_created default_ttl_seconds user_id now pre (not_mem_of_nodup hops)
    rw [← (run_acts _ _).2] at hkept
    obtain ⟨r, hr, hk⟩ := Option.map_eq_some_iff.mp hkept
    rw [clientsAfter, hr, Option.map_some]
    exact congrArg (fun k : Kept => some k.session) hk
  nodup_cleanup max_age_seconds now := OrderedMap.nodup_keys_filter _ _
  mem_cleanup_iff max_age_seconds now session_id := by
    -- What a cleanup returns are the ids that it erases.
    generalize hc : clientsAfter default_ttl_seconds ops = c
    have hids : cleanupAfter default_ttl_seconds ops max_age_seconds now =
        expiredIds c.world.heap.read c.world.store
          (max_age_seconds.getD default_ttl_seconds) now := by rw [← hc]; rfl
    have hbefore : getAfter default_ttl_seconds ops session_id =
        c.world.store.get? session_id := by rw [← hc]; rfl
    have hafter : getAfter default_ttl_seconds (ops ++ [.cleanup max_age_seconds now]) session_id =
        if session_id ∈ expiredIds c.world.heap.read c.world.store
          (max_age_seconds.getD default_ttl_seconds) now then none
        else c.world.store.get? session_id := by
      rw [← OrderedMap.get?_foldl_erase, ← hc, getAfter, clientsAfter, SessionClients.run,
        List.foldl_append]
      rfl
    rw [hids, hbefore, hafter]
    by_cases hexp : session_id ∈ expiredIds c.world.heap.read c.world.store
        (max_age_seconds.getD default_ttl_seconds) now
    · obtain ⟨s, hs, -⟩ := (mem_expiredIds _ _).mp hexp
      obtain ⟨r, hr, -⟩ := Option.map_eq_some_iff.mp hs
      simp [hexp, hr]
    -- The other ids are there after it if they were before.
    · simp only [hexp, if_false, false_iff, not_and]
      intro hsome hnone
      rw [hnone] at hsome
      cases hsome
  never_back post session_id hnodup hmem h := by
    refine getAfter_append_eq_none (fun hpost => ?_) h
    rw [createdIds, List.filterMap_append, List.nodup_append] at hnodup
    exact hnodup.2.2 session_id hmem session_id hpost rfl

end Store

/-- A session that expires, whose client adds to it afterwards, and one that its messages keep. -/
theorem sessions_kept_two_sessions :
    SessionsKept 1 [.create "u" "a" 0, .create "u" "b" 0, .addMessage "b" 900000 { role := .user },
      .cleanup none 1500000, .addMessage "a" 1600000 { role := .user }, .get "a", .delete "b"] :=
  sessions_kept (by decide)

end YellowBull
