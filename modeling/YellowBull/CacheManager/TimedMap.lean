import YellowBull.CacheManager
import YellowBull.Lib.Latest
import YellowBull.Lib.Machine
import YellowBull.Models

/-!
# The cache is a timed map

What `CacheManager` is for: a map in which each key has its latest entry, and which shows an entry
until it expires. The store differs from that map, since `get` and `cleanup_expired` delete expired
entries at the time that they happen to be called. They delete only what has expired, and at a clock
that does not go back nothing of it is shown again: from any time on, the store and the map agree on
the live entries (`live_get?_after`). So what a key shows depends on the calls that write it, and on
no other (`cache_refines_timed_map`).
-/

namespace YellowBull

open Latest Py

variable {α τ : Type*}

/-- A reading of the clock by a call. -/
def CacheOp.ReadsClock : CacheOp α τ → τ → Prop
  | .set _ _ _ now, t => t = now
  | .setJson _ _ _ now, t => t = now
  | .get _ now, t => t = now
  | .getJson _ now, t => t = now
  | .delete _, _ => False
  | .clear, _ => False
  | .cleanup now, t => ∃ key, t = now key

/-- The call is a `get` or a `get_json` of the key. -/
def CacheOp.reads (key : String) : CacheOp α τ → Bool
  | .get key' _ => key' = key
  | .getJson key' _ => key' = key
  | _ => false

/-- The call is a `get`, a `get_json` or a `cleanup_expired`, or one on another key. -/
def CacheOp.Harmless (key : String) : CacheOp α τ → Prop
  | .set key' _ _ _ => key' ≠ key
  | .setJson key' _ _ _ => key' ≠ key
  | .delete key' => key' ≠ key
  | .clear => False
  | .get _ _ => True
  | .getJson _ _ => True
  | .cleanup _ => True

section Clock

variable [LinearOrder τ]

/-- The expiry of the entry is none, or not over. -/
def CacheEntry.LiveAt (t : τ) (entry : CacheEntry α τ) : Prop :=
  ∀ expires_at ∈ entry.expires_at, t ≤ expires_at

instance (t : τ) : DecidablePred (CacheEntry.LiveAt (α := α) t) :=
  fun entry => inferInstanceAs (Decidable (∀ expires_at ∈ entry.expires_at, t ≤ expires_at))

/-- The clock does not go back from one call to a later one. -/
def Clocked (ops : List (CacheOp α τ)) : Prop :=
  ops.Pairwise fun op op' => ∀ t t', op.ReadsClock t → op'.ReadsClock t' → t ≤ t'

/-- `_is_expired` tells the live entries from the others. -/
theorem CacheEntry.isExpired_iff (entry : CacheEntry α τ) (t : τ) :
    entry.isExpired t = true ↔ ¬ entry.LiveAt t := by
  unfold CacheEntry.isExpired CacheEntry.LiveAt
  cases entry.expires_at with
  | none => simp
  | some expires_at => simp

/-- What has expired stays so. -/
theorem CacheEntry.LiveAt.mono {entry : CacheEntry α τ} {t t' : τ} (h : entry.LiveAt t')
    (ht : t ≤ t') : entry.LiveAt t :=
  fun expires_at hexp => ht.trans (h expires_at hexp)

end Clock

variable (cm : CacheManager τ) (codec : JsonCodec α)

/-! ## The timed map -/

section Map

variable [Add τ]

/-- What a call leaves under a key, none where it does not write there. -/
def CacheOp.write (key : String) : CacheOp α τ → Option (Option (CacheEntry α τ))
  | .set key' value ttl now => if key' = key then some (some (cm.entry value ttl now)) else none
  | .setJson key' value ttl now =>
    match codec.dumps value with
    | .ok serialized =>
      if key' = key then some (some (cm.entry (some (codec.ofStr serialized)) ttl now)) else none
    | .error _ => none
  | .delete key' => if key' = key then some none else none
  | .clear => some none
  | .get _ _ => none
  | .getJson _ _ => none
  | .cleanup _ => none

/-- The entry of the latest `set` or `set_json` of a key that no `delete` of the key and no `clear`
followed. -/
def latestEntry (key : String) (ops : List (CacheOp α τ)) : Option (CacheEntry α τ) :=
  latest (CacheOp.write cm codec key) none ops

/-- The latest entry of a key, in terms of the history. -/
theorem latestEntry_eq_some_iff {key : String} {ops : List (CacheOp α τ)}
    {entry : CacheEntry α τ} : latestEntry cm codec key ops = some entry ↔
      ∃ before op after, ops = before ++ op :: after ∧
        op.write cm codec key = some (some entry) ∧
        ∀ op' ∈ after, op'.write cm codec key = none := by
  refine latest_eq_iff.trans (or_iff_left ?_)
  rintro ⟨-, h⟩
  cases h

/-- The value that a key shows at a time: that of its latest entry, while it is live. -/
def shownAt [LinearOrder τ] (key : String) (t : τ) (ops : List (CacheOp α τ)) : Option α :=
  ((latestEntry cm codec key ops).filter (·.LiveAt t)).bind CacheEntry.value

/-- A harmless call writes nothing under the key. -/
theorem CacheOp.Harmless.write_eq_none {key : String} {op : CacheOp α τ} (h : op.Harmless key) :
    op.write cm codec key = none := by
  cases op with
  | set key' value ttl now => exact if_neg h
  | setJson key' value ttl now =>
    cases hdumps : codec.dumps value with
    | ok serialized =>
      simp only [CacheOp.write, hdumps]
      exact if_neg h
    | error e => simp only [CacheOp.write, hdumps]
  | delete key' => exact if_neg h
  | clear => exact h.elim
  | get key' now => rfl
  | getJson key' now => rfl
  | cleanup now => rfl

end Map

/-! ## One call -/

namespace CacheManager

variable {cm codec} [LinearOrder τ]

/-- `get` shows a live entry. -/
theorem get_answer (key : String) (now : τ) (store : CacheStore α τ) :
    (get key now store).2 = ((store.get? key).filter (·.LiveAt now)).bind CacheEntry.value := by
  unfold get
  cases store.get? key with
  | none => rfl
  | some entry =>
    have hexp := entry.isExpired_iff now
    simp only [Option.filter_some, decide_eq_true_eq]
    by_cases h : entry.LiveAt now
    · rw [if_neg (hexp.not_left.mpr h), if_pos h, Option.bind_some]
    · rw [if_pos (hexp.mpr h), if_neg h, Option.bind_none]

/-- A deleted entry that expired before a time is not live then. -/
theorem filter_expired {entry : CacheEntry α τ} {now t : τ} (hexp : entry.isExpired now = true)
    (ht : now ≤ t) : (some entry).filter (·.LiveAt t) = none := by
  have hdead : ¬ entry.LiveAt t := fun h => (entry.isExpired_iff now).mp hexp (h.mono ht)
  rw [Option.filter_some, if_neg (by simpa using hdead)]

/-- `get` keeps what lives on at later times. -/
theorem get_keeps (key k : String) {now t : τ} (ht : now ≤ t) (store : CacheStore α τ) :
    ((get key now store).1.get? k).filter (·.LiveAt t) = (store.get? k).filter (·.LiveAt t) := by
  unfold get
  cases hentry : store.get? key with
  | none => rfl
  | some entry =>
    -- The entry that is deleted is not live at the later time, either.
    by_cases hexp : entry.isExpired now = true
    · simp only [hexp, if_true, OrderedMap.get?_erase]
      by_cases hk : k = key
      · rw [hk, Function.update_self, hentry, filter_expired hexp ht]
        rfl
      · rw [Function.update_of_ne hk]
    · simp only [if_neg hexp]

/-- `cleanup_expired` keeps what lives on at later times. -/
theorem cleanupExpired_keeps (k : String) {now : String → τ} {t : τ} (ht : ∀ key, now key ≤ t)
    (store : CacheStore α τ) : ((cleanupExpired now store).1.get? k).filter (·.LiveAt t) =
      (store.get? k).filter (·.LiveAt t) := by
  show (((expiredKeys now store).foldl OrderedMap.erase store).get? k).filter _ = _
  rw [OrderedMap.get?_foldl_erase]
  split_ifs with hk
  · obtain ⟨item, hitem, rfl⟩ := List.mem_map.mp hk
    obtain ⟨hmem, hexp⟩ := List.mem_filter.mp hitem
    rw [store.mem_items_iff.mp hmem, filter_expired hexp (ht item.1)]
    rfl
  · rfl

omit [LinearOrder τ] in
/-- `delete` takes the entry of its key away, and no other. -/
theorem get?_delete (key : String) (store : CacheStore α τ) :
    (delete key store).1.get? = Function.update store.get? key none := by
  unfold delete
  cases hkey : store.get? key with
  | none =>
    show store.get? = _
    rw [← hkey, Function.update_eq_self]
  | some entry => exact OrderedMap.get?_erase store key

/-- A call that writes under the key leaves what it writes. -/
theorem step_of_write [Add τ] {key : String} {op : CacheOp α τ} {e : Option (CacheEntry α τ)}
    (h : op.write cm codec key = some e) (store : CacheStore α τ) :
    (cm.step codec store op).1.get? key = e := by
  -- A write under the key is seen at once, whatever was stored before.
  cases op with
  | set key' value ttl now =>
    obtain ⟨rfl, rfl⟩ : key' = key ∧ some (cm.entry value ttl now) = e := by
      simpa [CacheOp.write] using h
    exact OrderedMap.get?_set_self ..
  | setJson key' value ttl now =>
    -- A value that cannot be written as JSON writes nothing.
    cases hdumps : codec.dumps value with
    | error _ => simp [CacheOp.write, hdumps] at h
    | ok serialized =>
      obtain ⟨rfl, rfl⟩ :
          key' = key ∧ some (cm.entry (some (codec.ofStr serialized)) ttl now) = e := by
        simpa [CacheOp.write, hdumps] using h
      simp only [step, setJson, hdumps]
      exact OrderedMap.get?_set_self ..
  | delete key' =>
    obtain ⟨rfl, rfl⟩ : key' = key ∧ none = e := by simpa [CacheOp.write] using h
    show (delete key' store).1.get? key' = none
    rw [get?_delete, Function.update_self]
  | clear =>
    obtain rfl : none = e := by simpa [CacheOp.write] using h
    rfl
  | get key' now => cases h
  | getJson key' now => cases h
  | cleanup now => cases h

/-- A call that writes nothing under the key keeps there what lives on at later times. -/
theorem step_of_not_write [Add τ] {key : String} {op : CacheOp α τ}
    (h : op.write cm codec key = none) {t : τ} (ht : ∀ t', op.ReadsClock t' → t' ≤ t)
    (store : CacheStore α τ) :
    ((cm.step codec store op).1.get? key).filter (·.LiveAt t) =
      (store.get? key).filter (·.LiveAt t) := by
  -- The write was under another key.
  cases op with
  | set key' value ttl now =>
    have hk : key ≠ key' := fun hk => by simp [CacheOp.write, hk] at h
    exact congrArg _ (OrderedMap.get?_set_of_ne store hk _)
  | setJson key' value ttl now =>
    cases hdumps : codec.dumps value with
    | error e => simp only [step, setJson, hdumps]
    | ok serialized =>
      have hk : key ≠ key' := fun hk => by simp [CacheOp.write, hdumps, hk] at h
      simp only [step, setJson, hdumps]
      exact congrArg _ (OrderedMap.get?_set_of_ne store hk _)
  | delete key' =>
    have hk : key ≠ key' := fun hk => by simp [CacheOp.write, hk] at h
    show ((delete key' store).1.get? key).filter _ = _
    rw [get?_delete, Function.update_of_ne hk]
  | clear => cases h
  -- Reads and cleanups take away expired entries only, which the filter leaves out as well.
  | get key' now => exact get_keeps key' key (ht now rfl) store
  | getJson key' now => exact get_keeps key' key (ht now rfl) store
  | cleanup now => exact cleanupExpired_keeps key (fun k => ht (now k) ⟨k, rfl⟩) store

end CacheManager

/-! ## Runs -/

variable [Add τ] [LinearOrder τ]

/-- The store after a run of calls on an empty cache. -/
def CacheManager.after (ops : List (CacheOp α τ)) : CacheStore α τ :=
  Machine.state (cm.step codec) .empty ops

/-- After any run, from then on, a key has a live entry in the store exactly when its latest entry
is live. -/
theorem live_get?_after {ops : List (CacheOp α τ)} (hops : Clocked ops) {t : τ}
    (ht : ∀ op ∈ ops, ∀ t', op.ReadsClock t' → t' ≤ t) (key : String) :
    ((cm.after codec ops).get? key).filter (·.LiveAt t) =
      (latestEntry cm codec key ops).filter (·.LiveAt t) := by
  unfold latestEntry CacheManager.after
  -- The last call wrote the entry, or it kept what the calls before it leave live at `t`.
  induction ops using List.reverseRecOn with
  | nil => rfl
  | append_singleton ops op ih =>
    have hops' := (List.pairwise_append.mp hops).1
    have ih := ih hops' fun op' hop' => ht op' (by simp [hop'])
    rw [Machine.state_append, latest_concat]
    show Option.filter _ ((cm.step codec _ op).1.get? key) = _
    cases hwrite : op.write cm codec key with
    | some e => rw [CacheManager.step_of_write hwrite, Option.getD_some]
    | none =>
      rw [CacheManager.step_of_not_write hwrite (ht op (by simp)), Option.getD_none, ih]

omit [Add τ] in
/-- The readings of a run do not come after those of the call that follows it. -/
theorem Clocked.before {ops : List (CacheOp α τ)} {op : CacheOp α τ} (h : Clocked (ops ++ [op]))
    {t : τ} (ht : op.ReadsClock t) : ∀ op' ∈ ops, ∀ t', op'.ReadsClock t' → t' ≤ t :=
  fun op' hop' t' ht' => (List.pairwise_append.mp h).2.2 op' hop' op (by simp) t' t ht' ht

/-- After any run, `get` answers with what the key shows. -/
theorem get_after {ops : List (CacheOp α τ)} {key : String} {t : τ} {op : CacheOp α τ}
    (h : Clocked (ops ++ [op])) (ht : op.ReadsClock t) :
    (CacheManager.get key t (cm.after codec ops)).2 = shownAt cm codec key t ops := by
  rw [CacheManager.get_answer, live_get?_after cm codec (List.pairwise_append.mp h).1 (h.before ht)]
  rfl

/-- A call, with its answer where it is a `get` or a `get_json` of the key. -/
def CacheManager.readStep (key : String) (store : CacheStore α τ) (op : CacheOp α τ) :
    CacheStore α τ × Option (CacheResult α) :=
  let (store, result) := cm.step codec store op
  (store, if op.reads key then some result else none)

/-- Each read of a key is answered from the calls that are not harmless to the key. -/
theorem readStep_after {key : String} {ops : List (CacheOp α τ)} {op : CacheOp α τ}
    (h : Clocked (ops ++ [op])) {ops' : List (CacheOp α τ)} (h' : Clocked (ops' ++ [op]))
    (hsame : latestEntry cm codec key ops = latestEntry cm codec key ops') :
    (cm.readStep codec key (cm.after codec ops) op).2 =
      (cm.readStep codec key (cm.after codec ops') op).2 := by
  have hshown (t : τ) : shownAt cm codec key t ops = shownAt cm codec key t ops' := by
    unfold shownAt
    rw [hsame]
  -- Both reads show a value through `get`, and only `get_json` decodes it.
  cases hreads : op.reads key with
  | false => simp [CacheManager.readStep, hreads]
  | true =>
    cases op with
    | get key' t =>
      obtain rfl : key' = key := by simpa [CacheOp.reads] using hreads
      simp only [CacheManager.readStep, CacheManager.step, get_after cm codec h rfl,
        get_after cm codec h' rfl, hshown]
    | getJson key' t =>
      obtain rfl : key' = key := by simpa [CacheOp.reads] using hreads
      simp only [CacheManager.readStep, CacheManager.step, CacheManager.getJson,
        get_after cm codec h rfl, get_after cm codec h' rfl, hshown]
    | _ => cases hreads

/-- What a timed map promises of a run of calls on an empty cache. -/
structure RefinesTimedMap (ops : List (CacheOp α τ)) : Prop where
  /-- `get` returns the value of the latest entry of the key while it is live. -/
  get_eq : ∀ pre key t, pre ++ [.get key t] <+: ops →
    (CacheManager.get key t (cm.after codec pre)).2 = shownAt cm codec key t pre
  /-- `get_json` decodes the same value. -/
  getJson_eq : ∀ pre key t, pre ++ [.getJson key t] <+: ops →
    (CacheManager.getJson codec key t (cm.after codec pre)).2 =
      CacheManager.decoded codec (shownAt cm codec key t pre)
  /-- The calls of the run that are marked are harmless to a key. Without them, the others have the
  same answers from the key. -/
  inserted : ∀ key (run : List (CacheOp α τ × Bool)), run.map Prod.fst = ops →
    (∀ call ∈ run, call.2 = true → call.1.Harmless key) →
      Machine.outputsTo (fun store call => cm.readStep codec key store call.1) (!·.2) .empty run =
        Machine.outputs (cm.readStep codec key) .empty ((run.filter (!·.2)).map Prod.fst)

/-- On every run at a clock that does not go back, the cache is a timed map. -/
theorem cache_refines_timed_map {ops : List (CacheOp α τ)} (hops : Clocked ops) :
    RefinesTimedMap cm codec ops where
  get_eq pre key t hpre := get_after cm codec (hops.sublist hpre.sublist) rfl
  getJson_eq pre key t hpre :=
    congrArg (CacheManager.decoded codec) (get_after cm codec (hops.sublist hpre.sublist) rfl)
  inserted key run hrun hmarked := by
    rw [Machine.outputs_map]
    refine Machine.outputsTo_eq_outputs_filter fun pre call hpre _ => ?_
    have hafter (run : List (CacheOp α τ × Bool)) :
        Machine.state (fun store call => cm.readStep codec key store call.1) .empty run =
          cm.after codec (run.map Prod.fst) := by
      unfold CacheManager.after
      rw [Machine.state_map]
      refine Machine.state_congr (fun store call => ?_) _ _
      rfl
    -- Both histories are runs at the same clock, and the marked calls wrote nothing.
    have hclock : Clocked (pre.map Prod.fst ++ [call.1]) := by
      rw [← hrun] at hops
      have hsub := hpre.sublist.map Prod.fst
      rw [List.map_append] at hsub
      exact hops.sublist hsub
    have hkept : Clocked ((pre.filter (!·.2)).map Prod.fst ++ [call.1]) :=
      hclock.sublist ((List.filter_sublist.map Prod.fst).append_right _)
    have hsame : latestEntry cm codec key (pre.map Prod.fst) =
        latestEntry cm codec key ((pre.filter (!·.2)).map Prod.fst) := by
      unfold latestEntry
      rw [latest_map, latest_map]
      refine (latest_filter (fun call hcall hmark => ?_) none).symm
      have hmem := hpre.subset (List.mem_append_left _ hcall)
      exact (hmarked call hmem (by simpa using hmark)).write_eq_none cm codec
    rw [hafter, hafter]
    exact readStep_after cm codec hclock hkept hsame

/-- The values of a platform as the objects of a cache, where their strings are ASCII. -/
def JsonCodec.ofPlatform (P : Platform) : JsonCodec Val where
  str?
    | .str s => some s
    | _ => none
  ofStr := .str
  dumps value := .ok ((value.getD .none).dumps false)
  loads text := (P.loads text).map fun v => if v = .none then none else some v

/-- A default TTL of five, one of zero, and reads on both sides of the expiry. -/
theorem cache_refines_timed_map_reads :
    RefinesTimedMap ⟨some (5 : ℤ)⟩ (.ofPlatform .bare)
      [.setJson "a" (some (.dict [])) none 0, .set "b" (some (.int 1)) (some 0) 1, .get "b" 1,
        .cleanup fun _ => 3, .getJson "a" 5, .get "a" 6, .delete "a"] :=
  cache_refines_timed_map _ _ (by simp [Clocked, CacheOp.ReadsClock])

end YellowBull
