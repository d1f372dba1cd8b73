import YellowBull.SessionManager

/-!
# The contract of a session adapter

What `SessionPersistenceAdapter` is for: an adapter keeps a set of sessions under their ids, and
each method reads or changes that set. How the state of an adapter stands for the set is a
`Representation`, with `view` for the set and `Inv` for what the adapter relies on, and an adapter
that answers and acts on the set `Implements` it. `MemorySessionAdapter` implements the sessions
that its references lead to. The methods of `SessionManager` are specified once, over any adapter.
-/

namespace YellowBull

/-- The user filter of a listing lets the session through. -/
def Session.OfUser (user_id : Option String) (s : Session) : Prop :=
  ∀ u ∈ truthy? user_id, s.user_id = u

instance (user_id : Option String) : DecidablePred (Session.OfUser user_id) :=
  fun s => inferInstanceAs (Decidable (∀ u ∈ truthy? user_id, s.user_id = u))

/-- How the state of an adapter stands for a set of sessions. -/
structure Representation (σ : Type) where
  Inv : World σ → Prop
  view : World σ → String → Option Session
  /-- The clients of the adapter may make new objects. -/
  inv_heap : ∀ {w heap}, Inv w → w.heap.next ≤ heap.next → Inv { w with heap }
  view_extends : ∀ {w heap}, Inv w → w.heap.Extends heap → view { w with heap } = view w

variable {σ : Type}

/-- A method leaves the set as `after`, and the objects that exist as they are. -/
structure Representation.Leaves (C : Representation σ) (w w' : World σ)
    (after : String → Option Session) : Prop where
  inv : C.Inv w'
  extends_heap : w.heap.Extends w'.heap
  view_eq : C.view w' = after

/-- The adapter answers from the set of sessions that its state stands for, and acts on it. -/
structure SessionPersistenceAdapter.Implements (A : SessionPersistenceAdapter σ)
    (C : Representation σ) : Prop where
  save : ∀ {w}, C.Inv w → ∀ r < w.heap.next, C.Leaves w (A.save r w)
    (Function.update (C.view w) (w.heap.read r).session_id (some (w.heap.read r)))
  load : ∀ {w}, C.Inv w → ∀ id, C.Leaves w (A.load id w).2 (C.view w)
  load_eq : ∀ {w}, C.Inv w → ∀ id, (A.load id w).1.map (A.load id w).2.heap.read = C.view w id
  load_lt : ∀ {w}, C.Inv w → ∀ id, ∀ r ∈ (A.load id w).1, r < (A.load id w).2.heap.next
  delete : ∀ {w}, C.Inv w → ∀ id,
    C.Leaves w (A.delete id w).2 (Function.update (C.view w) id none)
  delete_eq : ∀ {w}, C.Inv w → ∀ id, (A.delete id w).1 = (C.view w id).isSome
  list : ∀ {w}, C.Inv w → ∀ user_id, C.Leaves w (A.listSessionIds user_id w).2 (C.view w)
  nodup_list : ∀ {w}, C.Inv w → ∀ user_id, (A.listSessionIds user_id w).1.Nodup
  mem_list : ∀ {w}, C.Inv w → ∀ user_id id, id ∈ (A.listSessionIds user_id w).1 ↔
    ∃ s, C.view w id = some s ∧ s.OfUser user_id
  cleanup : ∀ {w}, C.Inv w → ∀ ttl now, C.Leaves w (A.cleanupExpired ttl now w).2
    fun id => (C.view w id).filter (¬ Session.Expired ttl now ·)
  nodup_cleanup : ∀ {w}, C.Inv w → ∀ ttl now, (A.cleanupExpired ttl now w).1.Nodup
  mem_cleanup : ∀ {w}, C.Inv w → ∀ ttl now id, id ∈ (A.cleanupExpired ttl now w).1 ↔
    ∃ s, C.view w id = some s ∧ s.Expired ttl now

/-! ## Dictionaries of sessions -/

section Dict

variable {ν : Type} (session : ν → Session) (d : OrderedMap String ν)

/-- The sessions that a dictionary keeps, by their ids. -/
def dictView (id : String) : Option Session := (d.get? id).map session

/-- Setting an id changes what is seen under it. -/
theorem dictView_set (id : String) (v : ν) :
    dictView session (d.set id v) = Function.update (dictView session d) id (some (session v)) := by
  funext k
  unfold dictView
  rw [OrderedMap.get?_set]
  by_cases hk : k = id
  · rw [hk, Function.update_self, Function.update_self, Option.map_some]
  · rw [Function.update_of_ne hk, Function.update_of_ne hk]

/-- Erasing an id takes away what is seen under it. -/
theorem dictView_erase (id : String) :
    dictView session (d.erase id) = Function.update (dictView session d) id none := by
  funext k
  unfold dictView
  rw [OrderedMap.get?_erase]
  by_cases hk : k = id
  · rw [hk, Function.update_self, Function.update_self, Option.map_none]
  · rw [Function.update_of_ne hk, Function.update_of_ne hk]

/-- A listing has the ids of the user's sessions. -/
theorem mem_listedIds {user_id : Option String} {id : String} :
    id ∈ listedIds session d user_id ↔ ∃ s, dictView session d id = some s ∧ s.OfUser user_id := by
  simp only [dictView, Option.map_eq_some_iff, listedIds, Session.OfUser]
  cases truthy? user_id with
  | none => simp [OrderedMap.mem_keys_iff]
  | some u =>
    rw [d.mem_keys_filter fun v => (session v).user_id = u]
    constructor
    · rintro ⟨v, hv, hu⟩
      exact ⟨_, ⟨v, hv, rfl⟩, by simpa using hu⟩
    · rintro ⟨_, ⟨v, hv, rfl⟩, hu⟩
      exact ⟨v, hv, hu u rfl⟩

/-- No id is listed twice. -/
theorem nodup_listedIds (user_id : Option String) : (listedIds session d user_id).Nodup := by
  unfold listedIds
  cases truthy? user_id with
  | none => exact d.nodup
  | some u => exact d.nodup_keys_filter _

/-- The deleted ids are those of the expired sessions. -/
theorem mem_expiredIds {ttl : ℤ} {now : Time} {id : String} :
    id ∈ expiredIds session d ttl now ↔
      ∃ s, dictView session d id = some s ∧ s.Expired ttl now := by
  simp only [dictView, Option.map_eq_some_iff, expiredIds,
    d.mem_keys_filter fun v => (session v).Expired ttl now]
  constructor
  · rintro ⟨v, hv, hexp⟩
    exact ⟨_, ⟨v, hv, rfl⟩, hexp⟩
  · rintro ⟨_, ⟨v, hv, rfl⟩, hexp⟩
    exact ⟨v, hv, hexp⟩

/-- What is left after the deletion: the sessions that are not expired. -/
theorem dictView_expired (ttl : ℤ) (now : Time) :
    dictView session ((expiredIds session d ttl now).foldl .erase d) =
      fun id => (dictView session d id).filter (¬ Session.Expired ttl now ·) := by
  funext id
  conv_lhs => unfold dictView
  rw [OrderedMap.get?_foldl_erase]
  by_cases hexp : id ∈ expiredIds session d ttl now
  · obtain ⟨s, hs, hs'⟩ := (mem_expiredIds session d).mp hexp
    rw [if_pos hexp, hs, Option.filter_some, if_neg (by simpa using hs'), Option.map_none]
  · rw [if_neg hexp]
    show dictView session d id = _
    cases hs : dictView session d id with
    | none => rfl
    | some s =>
      have hs' : ¬ s.Expired ttl now := fun h => hexp ((mem_expiredIds session d).mpr ⟨s, hs, h⟩)
      rw [Option.filter_some, if_pos (by simpa using hs')]

end Dict

/-! ## The in-memory adapter -/

/-- The sessions that the references of the in-memory store lead to. -/
def memoryContents : Representation MemoryStore where
  Inv w := ∀ id r, w.store.get? id = some r → r < w.heap.next
  view w := dictView w.heap.read w.store
  inv_heap hw hnext id r hr := Nat.lt_of_lt_of_le (hw id r hr) hnext
  view_extends {w heap} hw hext := by
    funext id
    unfold dictView
    cases hr : w.store.get? id with
    | none => rfl
    | some r => exact congrArg some (hext.read_eq r (hw id r hr))

/-- `MemorySessionAdapter` obeys the interface. -/
theorem memorySessionAdapter_implements : memorySessionAdapter.Implements memoryContents where
  save {w} hw r hr := by
    refine ⟨fun id r' hr' => ?_, .refl _, dictView_set ..⟩
    simp only [memorySessionAdapter, OrderedMap.get?_set] at hr'
    -- A saved object has been handed out before, like all that are stored.
    by_cases hid : id = (w.heap.read r).session_id
    · rw [hid, Function.update_self, Option.some.injEq] at hr'
      exact hr' ▸ hr
    · rw [Function.update_of_ne hid] at hr'
      exact hw id r' hr'
  load hw _ := ⟨hw, .refl _, rfl⟩
  load_eq _ _ := rfl
  load_lt hw id r hr := hw id r hr
  delete {w} hw id := by
    refine ⟨fun k r hr => ?_, .refl _, dictView_erase ..⟩
    simp only [memorySessionAdapter, OrderedMap.get?_erase] at hr
    -- What is left after a deletion or a cleanup was stored before.
    by_cases hk : k = id
    · rw [hk, Function.update_self] at hr
      cases hr
    · rw [Function.update_of_ne hk] at hr
      exact hw k r hr
  delete_eq _ _ := Option.isSome_map.symm
  list hw _ := ⟨hw, .refl _, rfl⟩
  nodup_list _ _ := nodup_listedIds ..
  mem_list _ _ _ := mem_listedIds ..
  cleanup {w} hw ttl now := by
    refine ⟨fun id r hr => ?_, .refl _, dictView_expired ..⟩
    simp only [memorySessionAdapter, OrderedMap.get?_foldl_erase] at hr
    by_cases hexp : id ∈ expiredIds w.heap.read w.store ttl now
    · rw [if_pos hexp] at hr
      cases hr
    · rw [if_neg hexp] at hr
      exact hw id r hr
  nodup_cleanup {w} _ _ _ := w.store.nodup_keys_filter _
  mem_cleanup _ _ _ _ := mem_expiredIds ..

/-! ## The methods of the manager -/

variable {C : Representation σ} {M : SessionManager σ}

/-- What two operations leave, one after the other. -/
theorem Representation.Leaves.trans {w w₁ w₂ : World σ} {v₁ v₂ : String → Option Session}
    (h₁ : C.Leaves w w₁ v₁) (h₂ : C.Leaves w₁ w₂ v₂) : C.Leaves w w₂ v₂ :=
  ⟨h₂.inv, h₁.extends_heap.trans h₂.extends_heap, h₂.view_eq⟩

section Manager

variable (hM : M.adapter.Implements C) {w : World σ} (hw : C.Inv w)
include hM hw

/-- `create` makes an object with the new session, and puts it in the set. -/
theorem SessionManager.create_spec (user_id session_id : String) (now : Time) :
    C.Leaves w (M.create user_id session_id now w).2 (Function.update (C.view w) session_id
        (some { session_id, user_id, updated_at := now })) ∧
      (M.create user_id session_id now w).2.heap.read (M.create user_id session_id now w).1 =
        { session_id, user_id, updated_at := now } ∧
      (M.create user_id session_id now w).1 < (M.create user_id session_id now w).2.heap.next := by
  have hext := w.heap.extends_alloc { session_id, user_id, updated_at := now }
  have hread := w.heap.read_alloc { session_id, user_id, updated_at := now }
  have hlt := w.heap.alloc_lt_next { session_id, user_id, updated_at := now }
  have hsave := hM.save (C.inv_heap hw hext.next_le) _ hlt
  rw [hread, C.view_extends hw hext] at hsave
  -- Saving leaves the new object as it is.
  have hkeep := hsave.extends_heap.read_eq _ hlt
  refine ⟨⟨hsave.inv, hext.trans hsave.extends_heap, hsave.view_eq⟩, ?_, ?_⟩
  · exact hkeep.trans hread
  · exact Nat.lt_of_lt_of_le hlt hsave.extends_heap.next_le

/-- The loop of `list_sessions` pairs each id with its session. -/
theorem SessionManager.loadSessions_spec (ids : List String) :
    C.Leaves w (M.loadSessions ids w).2 (C.view w) ∧
      (M.loadSessions ids w).1.map (fun item =>
        (item.1, (M.loadSessions ids w).2.heap.read item.2)) =
      ids.filterMap fun id => (C.view w id).map (id, ·) := by
  induction ids generalizing w with
  | nil => exact ⟨⟨hw, .refl _, rfl⟩, rfl⟩
  | cons id ids ih =>
    have hload := hM.load hw id
    have heq := hM.load_eq hw id
    have hlt := hM.load_lt hw id
    obtain ⟨hrest, hmap⟩ := ih hload.inv
    unfold SessionManager.loadSessions
    generalize M.adapter.load id w = loaded at hload heq hlt hrest hmap ⊢
    obtain ⟨session, w₁⟩ := loaded
    rw [hload.view_eq] at hrest hmap
    refine ⟨hload.trans hrest, ?_⟩
    rw [List.map_append, hmap, List.filterMap_cons, ← heq]
    cases session with
    | none => rfl
    | some r =>
      -- The loads that follow leave the object as it is.
      have hkeep := hrest.extends_heap.read_eq r (hlt r rfl)
      simp [hkeep]

/-- `list_sessions` gives each session of the user with its id, once. -/
theorem SessionManager.listSessions_spec (user_id : Option String) :
    C.Leaves w (M.listSessions user_id w).2 (C.view w) ∧
      ((M.listSessions user_id w).1.map fun item =>
        (item.1, (M.listSessions user_id w).2.heap.read item.2)).Nodup ∧
      ∀ id s, (id, s) ∈ (M.listSessions user_id w).1.map (fun item =>
          (item.1, (M.listSessions user_id w).2.heap.read item.2)) ↔
        C.view w id = some s ∧ s.OfUser user_id := by
  have hlist := hM.list hw user_id
  have hnodup := hM.nodup_list hw user_id
  have hmem := hM.mem_list hw user_id
  obtain ⟨hload, hmap⟩ := SessionManager.loadSessions_spec hM hlist.inv
    (M.adapter.listSessionIds user_id w).1
  unfold SessionManager.listSessions
  generalize M.adapter.listSessionIds user_id w = listed at hlist hnodup hmem hload hmap ⊢
  obtain ⟨ids, w₁⟩ := listed
  rw [hlist.view_eq] at hload hmap
  refine ⟨hlist.trans hload, ?_, fun id s => ?_⟩
  · rw [hmap]
    -- A pair shows its id, so that different ids give different pairs.
    refine hnodup.filterMap fun id id' item hitem hitem' => ?_
    obtain ⟨s, -, rfl⟩ := Option.map_eq_some_iff.mp hitem
    obtain ⟨s', -, hs'⟩ := Option.map_eq_some_iff.mp hitem'
    exact (Prod.mk.inj hs').1.symm
  · rw [hmap, List.mem_filterMap]
    constructor
    · rintro ⟨id', hid', hs⟩
      obtain ⟨s', hs', heq⟩ := Option.map_eq_some_iff.mp hs
      obtain ⟨rfl, rfl⟩ := Prod.mk.inj heq
      obtain ⟨s'', hs'', huser⟩ := (hmem id').mp hid'
      obtain rfl := Option.some.inj (hs'.symm.trans hs'')
      exact ⟨hs', huser⟩
    · rintro ⟨hs, huser⟩
      exact ⟨id, (hmem id).mpr ⟨s, hs, huser⟩, by rw [hs]; rfl⟩

end Manager

end YellowBull
