import YellowBull.ToolExecutor.Modes

/-!
# Cache keys that cannot be computed

`cache_key` encodes the tool name and `json.dumps` of the arguments, which may raise: for an integer
of too many digits, for a nesting that is too deep, for a lone surrogate in the name.
`_execute_single` reads the key outside of its `try`, so that with the cache on the exception leaves
it at the start. Parallel mode has a failed result then, where serial mode raises.

The functions of the namespace `Keyed` are those of `ToolExecutor.lean` with this exception. Where
no key raises, they are the same (`Keyed.executeBatch_eq`), and just then the two modes agree
(`modes_agree_iff`).
-/

namespace YellowBull

open Py

mutual

/-- The value has an integer of more than the given number of decimal digits. -/
def hasLongInt (digits : ℕ) : Val → Bool
  | .int n => 10 ^ digits ≤ n.natAbs
  | .list xs => hasLongIntList digits xs
  | .dict items => hasLongIntDict digits items
  | _ => false

/-- `hasLongInt` of one of the elements. -/
def hasLongIntList (digits : ℕ) : List Val → Bool
  | [] => false
  | x :: xs => hasLongInt digits x || hasLongIntList digits xs

/-- `hasLongInt` of one of the values. -/
def hasLongIntDict (digits : ℕ) : Dict → Bool
  | [] => false
  | (_, x) :: items => hasLongInt digits x || hasLongIntDict digits items

end

/-- What Python raises on the way to a cache key, none where it does not raise. -/
structure KeyErrors where
  /-- `json.dumps` of the arguments. -/
  dumps : Val → Option Exn
  /-- `str.encode` of the text. -/
  encode : String → Option Exn

/-- The exception for an integer with more digits than the limit. -/
def longIntError (limit : ℕ) : Exn :=
  ⟨.valueError, "Exceeds the limit (" ++ toString limit ++ " digits) for integer string " ++
    "conversion; use sys.set_int_max_str_digits() to increase the limit"⟩

/-- The limit that Python sets to the decimal digits of an integer, and nothing else. -/
def KeyErrors.digits (limit : ℕ) : KeyErrors where
  dumps v := if hasLongInt limit v then some (longIntError limit) else none
  encode _ := none

/-- What `request.cache_key` raises. Where it does not, it is `cacheKey`. -/
def ToolCallRequest.keyError (K : KeyErrors) (P : Platform) (req : ToolCallRequest) : Option Exn :=
  (K.dumps req.arguments).orElse fun _ => K.encode (req.rawKey P)

/-- What the cache lookup raises. -/
def ToolExecutor.keyError (K : KeyErrors) (P : Platform) (ex : ToolExecutor)
    (req : ToolCallRequest) : Option Exn :=
  if ex.enable_cache then req.keyError K P else none

namespace Keyed

section Definitions

variable (K : KeyErrors) (P : Platform) (ex : ToolExecutor) (reg : ToolRegistry)

/-- `_execute_single` up to its first await. -/
def startTask (cache : Cache) (req : ToolCallRequest) : Task :=
  match ex.keyError K P req with
  | some e => .done (.error e)
  | none => ex.startTask P reg cache req

/-- One segment of `_execute_single`. After a success the key is read again, but not for the first
time, so that it does not raise there. -/
def advance (req : ToolCallRequest) (outcomes : ℕ → Except Exn ToolResult) :
    Task → Cache → Task × Cache
  | .queued, cache => (startTask K P ex reg cache req, cache)
  | task, cache => ex.advance P reg req outcomes task cache

/-- `n` segments of a task with no other task in between. -/
def runTask (req : ToolCallRequest) (outcomes : ℕ → Except Exn ToolResult) :
    ℕ → Task → Cache → Task × Cache
  | 0, task, cache => (task, cache)
  | n + 1, task, cache =>
    let next := advance K P ex reg req outcomes task cache
    runTask req outcomes n next.1 next.2

variable (requests : List ToolCallRequest) (outcomes : ℕ → ℕ → Except Exn ToolResult)

/-- One segment of the task at position `i`. -/
def step (b : Batch) (i : ℕ) : Batch :=
  match requests[i]? with
  | none => b
  | some req =>
    let next := advance K P ex reg req (outcomes i) (b.tasks i) b.cache
    ⟨Function.update b.tasks i next.1, next.2⟩

/-- The segments of a schedule, one after another. -/
def run (b : Batch) (schedule : List ℕ) : Batch :=
  schedule.foldl (step K P ex reg requests outcomes) b

/-- The parallel branch of `execute_batch`, under a schedule. -/
def executeParallel (schedule : List ℕ) (cache : Cache) : List ExecutionResult × Cache :=
  let b := run K P ex reg requests outcomes (Batch.start cache) (schedule ++ ex.finishing requests)
  (requests.mapIdx fun i req => req.gathered (b.tasks i), b.cache)

/-- The serial branch of `execute_batch`, for the requests from position `i` on. -/
def executeSerial : ℕ → List ToolCallRequest → Cache →
    Except Exn (List ExecutionResult) × Cache
  | _, [], cache => (.ok [], cache)
  | i, req :: rest, cache =>
    match runTask K P ex reg req (outcomes i) ex.segments .queued cache with
    | (.done (.error e), cache) => (.error e, cache)
    | (task, cache) =>
      let tail := executeSerial (i + 1) rest cache
      (tail.1.map (req.gathered task :: ·), tail.2)

/-- `ToolExecutor.execute_batch`: the results, and the cache afterwards. -/
def executeBatch (schedule : List ℕ) (cache : Cache) : Except Exn (List ExecutionResult) × Cache :=
  if ex.parallel then
    let r := executeParallel K P ex reg requests outcomes schedule cache
    (.ok r.1, r.2)
  else executeSerial K P ex reg outcomes 0 requests cache

/-- An operation on an executor whose registry stays as it is: the cache, and what comes back. -/
def stepOp (cache : Cache) : ToolExecutor.Op → Cache × Except Exn (List ExecutionResult)
  | .registry _ => (cache, .ok [])
  | .batch requests outcomes schedule =>
    let out := executeBatch K P ex reg requests outcomes schedule cache
    (out.2, out.1)
  | .clearCache => (.empty, .ok [])

/-- The cache after a run that begins with an empty one. -/
def cacheAfter (ops : List ToolExecutor.Op) : Cache :=
  Machine.state (stepOp K P ex reg) .empty ops

end Definitions

/-! ## Keys that can be computed -/

section Equal

variable {K : KeyErrors} {P : Platform} {ex : ToolExecutor} {reg : ToolRegistry}
variable {req : ToolCallRequest}

/-- A request whose key can be computed starts as in the model without the exception. -/
theorem advance_eq (h : ex.keyError K P req = none) (outcomes : ℕ → Except Exn ToolResult)
    (task : Task) (cache : Cache) :
    advance K P ex reg req outcomes task cache = ex.advance P reg req outcomes task cache := by
  cases task with
  | queued => simp only [advance, startTask, h, ToolExecutor.advance]
  | _ => rfl

/-- A request whose key raises is over when it has started, and leaves the cache as it is. -/
theorem advance_of_keyError {e : Exn} (h : ex.keyError K P req = some e)
    (outcomes : ℕ → Except Exn ToolResult) {task : Task}
    (htask : task = .queued ∨ task = .done (.error e)) (cache : Cache) :
    advance K P ex reg req outcomes task cache = (.done (.error e), cache) := by
  rcases htask with rfl | rfl
  · simp only [advance, startTask, h]
  · rfl

/-- The same for all segments of the task. -/
theorem runTask_eq (h : ex.keyError K P req = none) (outcomes : ℕ → Except Exn ToolResult) (n : ℕ)
    (task : Task) (cache : Cache) :
    runTask K P ex reg req outcomes n task cache =
      ex.runTask P reg req outcomes n task cache := by
  induction n generalizing task cache with
  | zero => rfl
  | succ n ih => simp only [runTask, ToolExecutor.runTask, advance_eq h, ih]

/-- A task whose key raises, run on its own. -/
theorem runTask_of_keyError {e : Exn} (h : ex.keyError K P req = some e)
    (outcomes : ℕ → Except Exn ToolResult) {n : ℕ} {task : Task}
    (htask : (task = .queued ∧ 0 < n) ∨ task = .done (.error e)) (cache : Cache) :
    runTask K P ex reg req outcomes n task cache = (.done (.error e), cache) := by
  induction n generalizing task with
  | zero =>
    rcases htask with ⟨-, hpos⟩ | rfl
    · exact absurd hpos (Nat.lt_irrefl 0)
    · rfl
  | succ n ih =>
    have hadvance : advance K P ex reg req outcomes task cache = (.done (.error e), cache) :=
      advance_of_keyError h outcomes (htask.imp_left And.left) cache
    simp only [runTask, hadvance]
    exact ih (Or.inr rfl)

variable {requests : List ToolCallRequest} {outcomes : ℕ → ℕ → Except Exn ToolResult}

/-- Where all keys can be computed, a run of segments is the one without the exception. -/
theorem run_eq (h : ∀ req ∈ requests, ex.keyError K P req = none) (b : Batch)
    (schedule : List ℕ) :
    run K P ex reg requests outcomes b schedule = b.run P ex reg requests outcomes schedule := by
  have hstep : step K P ex reg requests outcomes = Batch.step P ex reg requests outcomes := by
    funext b i
    unfold step Batch.step
    cases hi : requests[i]? with
    | none => rfl
    | some req => simp only [advance_eq (h req (List.mem_of_getElem? hi))]
  unfold run Batch.run
  rw [hstep]

/-- So is the serial branch. -/
theorem executeSerial_eq {rest : List ToolCallRequest}
    (h : ∀ req ∈ rest, ex.keyError K P req = none) (i : ℕ) (cache : Cache) :
    executeSerial K P ex reg outcomes i rest cache =
      ex.executeSerial P reg outcomes i rest cache := by
  induction rest generalizing i cache with
  | nil => rfl
  | cons req rest ih =>
    have hrest (cache : Cache) := ih (fun r hr => h r (List.mem_cons_of_mem _ hr)) (i + 1) cache
    rw [executeSerial, ToolExecutor.executeSerial, runTask_eq (h req (List.mem_cons_self ..))]
    generalize ex.runTask P reg req (outcomes i) ex.segments .queued cache = out
    obtain ⟨task, cache'⟩ := out
    cases task with
    | done r =>
      cases r with
      | error e => rfl
      | ok result => simp only [hrest]
    | _ => simp only [hrest]

/-- And so is the batch. -/
theorem executeBatch_eq (h : ∀ req ∈ requests, ex.keyError K P req = none) (schedule : List ℕ)
    (cache : Cache) :
    executeBatch K P ex reg requests outcomes schedule cache =
      ex.executeBatch P reg requests outcomes schedule cache := by
  unfold executeBatch ToolExecutor.executeBatch executeParallel ToolExecutor.executeParallel
  rw [run_eq h, executeSerial_eq h]

/-- The serial branch raises what the key of its first request does. -/
theorem executeSerial_of_keyError {e : Exn} (h : ex.keyError K P req = some e)
    (rest : List ToolCallRequest) (i : ℕ) (cache : Cache) :
    (executeSerial K P ex reg outcomes i (req :: rest) cache).1 = .error e := by
  have hpos : 0 < ex.segments := by
    unfold ToolExecutor.segments
    omega
  rw [executeSerial, runTask_of_keyError h (outcomes i) (Or.inl ⟨rfl, hpos⟩)]

/-- The serial branch raises where a key does, or before it gets there. -/
theorem executeSerial_raises {rest : List ToolCallRequest} (hreq : req ∈ rest) {e : Exn}
    (h : ex.keyError K P req = some e) (i : ℕ) (cache : Cache) :
    ∃ e', (executeSerial K P ex reg outcomes i rest cache).1 = .error e' := by
  induction rest generalizing i cache with
  | nil => cases hreq
  | cons first rest ih =>
    rcases List.mem_cons.mp hreq with rfl | hrest
    · exact ⟨e, executeSerial_of_keyError h rest i cache⟩
    · rw [executeSerial]
      split
      next e' _ _ => exact ⟨e', rfl⟩
      next task cache' _ _ =>
        -- The exception of the later requests leaves the whole loop.
        obtain ⟨e', he'⟩ := ih hrest (i + 1) cache'
        exact ⟨e', by simp only [he', Except.map]⟩

end Equal

/-! ## Keys that raise -/

section Raising

variable {K : KeyErrors} {P : Platform} {ex : ToolExecutor} {reg : ToolRegistry}
variable {requests : List ToolCallRequest} {outcomes : ℕ → ℕ → Except Exn ToolResult}

variable (K P ex requests) in
/-- The key of the request at position `i` can be computed. -/
def Reads (i : ℕ) : Bool := (requests[i]?).all fun req => (ex.keyError K P req).isNone

/-- The key at a position with a request. -/
theorem reads_eq_true_iff {i : ℕ} {req : ToolCallRequest} (hi : requests[i]? = some req) :
    Reads K P ex requests i = true ↔ ex.keyError K P req = none := by
  rw [Reads, hi, Option.all_some, Option.isNone_iff_eq_none]

variable (K P ex requests) in
/-- A batch goes along with one in which only the tasks run whose keys can be computed. -/
structure GoesAlong (b b' : Batch) : Prop where
  cache : b.cache = b'.cache
  reading : ∀ i, Reads K P ex requests i = true → b.tasks i = b'.tasks i
  raising : ∀ i req e, requests[i]? = some req → ex.keyError K P req = some e →
    b.tasks i = .queued ∨ b.tasks i = .done (.error e)

/-- A segment keeps it so, where the other batch leaves out those of the tasks that raise. -/
theorem GoesAlong.step {b b' : Batch} (h : GoesAlong K P ex requests b b') (i : ℕ) :
    GoesAlong K P ex requests (step K P ex reg requests outcomes b i)
      (if Reads K P ex requests i then b'.step P ex reg requests outcomes i else b') := by
  cases hi : requests[i]? with
  | none =>
    have hstep : Keyed.step K P ex reg requests outcomes b i = b := by simp only [Keyed.step, hi]
    have hstep' : b'.step P ex reg requests outcomes i = b' := by simp only [Batch.step, hi]
    rw [hstep, hstep', ite_self]
    exact h
  | some req =>
    cases hkey : ex.keyError K P req with
    | none =>
      -- Both batches make the segment, with one task and one cache.
      rw [if_pos ((reads_eq_true_iff hi).mpr hkey)]
      have htask := h.reading i ((reads_eq_true_iff hi).mpr hkey)
      simp only [Keyed.step, Batch.step, hi, advance_eq hkey, htask, h.cache]
      refine ⟨rfl, fun j hj => ?_, fun j req' e hj hraise => ?_⟩
      · by_cases hji : j = i
        · subst hji
          simp only [Function.update_self]
        · simp only [Function.update_of_ne hji, h.reading j hj]
      · have hji : j ≠ i := by
          rintro rfl
          obtain rfl := Option.some.inj (hj.symm.trans hi)
          rw [hkey] at hraise
          cases hraise
        simp only [Function.update_of_ne hji]
        exact h.raising j req' e hj hraise
    | some e =>
      -- The task is over, and the other batch knows nothing of it.
      have hreads : ¬ Reads K P ex requests i = true := fun hreads => by
        rw [(reads_eq_true_iff hi).mp hreads] at hkey
        cases hkey
      rw [if_neg hreads]
      simp only [Keyed.step, hi, advance_of_keyError hkey (outcomes i) (h.raising i req e hi hkey)]
      refine ⟨h.cache, fun j hj => ?_, fun j req' e' hj hraise => ?_⟩
      · have hji : j ≠ i := fun hji => hreads (hji ▸ hj)
        simp only [Function.update_of_ne hji, h.reading j hj]
      · by_cases hji : j = i
        · subst hji
          obtain rfl := Option.some.inj (hj.symm.trans hi)
          obtain rfl := Option.some.inj (hraise.symm.trans hkey)
          exact Or.inr (Function.update_self ..)
        · simp only [Function.update_of_ne hji]
          exact h.raising j req' e' hj hraise

/-- So does a schedule. -/
theorem GoesAlong.run {b b' : Batch} (h : GoesAlong K P ex requests b b') (schedule : List ℕ) :
    GoesAlong K P ex requests (run K P ex reg requests outcomes b schedule)
      (b'.run P ex reg requests outcomes (schedule.filter (Reads K P ex requests))) := by
  induction schedule generalizing b b' with
  | nil => exact h
  | cons i schedule ih =>
    have hstep : GoesAlong K P ex requests (Keyed.step K P ex reg requests outcomes b i)
        (if Reads K P ex requests i then b'.step P ex reg requests outcomes i else b') := h.step i
    have hrest := ih hstep
    rw [List.filter_cons]
    split_ifs at hrest ⊢
    · exact hrest
    · exact hrest

/-- Before the first segment a batch goes along with itself. -/
theorem goesAlong_start (cache : Cache) :
    GoesAlong K P ex requests (Batch.start cache) (Batch.start cache) :=
  ⟨rfl, fun _ _ => rfl, fun _ _ _ _ _ => Or.inl rfl⟩

/-- A parallel batch keeps the exception of a key to its own request. -/
theorem executeParallel_of_keyError {i : ℕ} {req : ToolCallRequest} (hi : requests[i]? = some req)
    {e : Exn} (h : ex.keyError K P req = some e) (schedule : List ℕ) (cache : Cache) :
    (executeParallel K P ex reg requests outcomes schedule cache).1[i]? =
      some (req.unexpectedError e) := by
  have hqueued : ∀ segments b, (b.tasks i = .queued ∧ i ∈ segments) ∨
      b.tasks i = .done (.error e) →
        (run K P ex reg requests outcomes b segments).tasks i = .done (.error e) := by
    intro segments
    induction segments with
    | nil => exact fun b hb => hb.resolve_left fun hb => nomatch hb.2
    | cons j segments ih =>
      intro b hb
      refine ih (Keyed.step K P ex reg requests outcomes b j) ?_
      by_cases hji : j = i
      · subst hji
        have hadvance : advance K P ex reg req (outcomes j) (b.tasks j) b.cache =
            (.done (.error e), b.cache) :=
          advance_of_keyError h (outcomes j) (hb.imp_left And.left) b.cache
        simp only [Keyed.step, hi, hadvance, Function.update_self, or_true]
      · have hothers : (Keyed.step K P ex reg requests outcomes b j).tasks i = b.tasks i := by
          unfold Keyed.step
          cases requests[j]? with
          | none => rfl
          | some req' => exact Function.update_of_ne (Ne.symm hji) ..
        rw [hothers]
        exact hb.imp_left fun hb => ⟨hb.1, List.mem_of_ne_of_mem (Ne.symm hji) hb.2⟩
  -- The schedule comes to the task, at the latest at its end.
  have hmem : i ∈ schedule ++ ex.finishing requests := by
    refine List.mem_append_right _ (List.count_pos_iff.mp ?_)
    have hcount := ex.count_finishing (List.getElem?_eq_some_iff.mp hi).1
    have hpos : 0 < ex.segments := by
      unfold ToolExecutor.segments
      omega
    omega
  unfold executeParallel
  rw [List.getElem?_mapIdx, hi, Option.map_some,
    hqueued _ (Batch.start cache) (Or.inl ⟨rfl, hmem⟩)]
  rfl

end Raising

/-! ## Reachable caches -/

section Reachable

variable {K : KeyErrors} {P : Platform} {ex : ToolExecutor} {reg : ToolRegistry} {β : ToolBehaviour}

/-- The cache is what the executor remembers of successes that are what the tools do, of requests
that were made and whose keys can be computed. -/
def Remembers (K : KeyErrors) (P : Platform) (ex : ToolExecutor) (reg : ToolRegistry)
    (β : ToolBehaviour) (requested : List ToolCallRequest) (cache : Cache) : Prop :=
  ∃ log : List Success, β.Explains P ex reg log ∧ cache = ex.remember P .empty log ∧
    ∀ su ∈ log, su.req ∈ requested ∧ ex.keyError K P su.req = none

/-- An empty cache remembers nothing. -/
theorem remembers_empty (requested : List ToolCallRequest) :
    Remembers K P ex reg β requested .empty := by
  refine ⟨[], ?_, (ex.remember_nil P .empty).symm, ?_⟩
  · exact List.forall_mem_nil _
  · exact List.forall_mem_nil _

/-- It may remember the segments of further requests. -/
theorem Remembers.run {requested : List ToolCallRequest} {cache : Cache}
    (h : Remembers K P ex reg β requested cache) {requests : List ToolCallRequest}
    {segments : List ℕ} (hsegments : ∀ i ∈ segments, ∀ req, requests[i]? = some req →
      req ∈ requested ∧ ex.keyError K P req = none) :
    Remembers K P ex reg β requested
      ((Batch.start cache).run P ex reg requests (β.outcomes reg requests) segments).cache := by
  obtain ⟨log, hlog, rfl, hrequested⟩ := h
  refine ⟨log ++ (Batch.start (ex.remember P .empty log)).successes P ex reg requests
    (β.outcomes reg requests) segments, fun su hsu => ?_, ?_, fun su hsu => ?_⟩
  · rcases List.mem_append.mp hsu with hold | hnew
    · exact hlog su hold
    · exact (ToolBehaviour.explains_successes hnew).2
  · rw [Batch.cache_run, Batch.cache_start, ToolExecutor.remember_append]
  · rcases List.mem_append.mp hsu with hold | hnew
    · exact hrequested su hold
    · obtain ⟨i, hi, hreq, -⟩ := (Batch.sound_start _).successes hnew
      exact hsegments i hi su.req hreq

/-- The parallel branch keeps it so. -/
theorem Remembers.executeParallel {requested : List ToolCallRequest} {cache : Cache}
    (h : Remembers K P ex reg β requested cache) {requests : List ToolCallRequest}
    (hrequests : requests ⊆ requested) (schedule : List ℕ) :
    Remembers K P ex reg β requested
      (Keyed.executeParallel K P ex reg requests (β.outcomes reg requests) schedule cache).2 := by
  have halong : GoesAlong K P ex requests
      (Keyed.run K P ex reg requests (β.outcomes reg requests) (Batch.start cache)
        (schedule ++ ex.finishing requests)) _ :=
    (goesAlong_start cache).run (schedule ++ ex.finishing requests)
  show Remembers K P ex reg β requested (Keyed.run K P ex reg requests (β.outcomes reg requests)
    (Batch.start cache) (schedule ++ ex.finishing requests)).cache
  rw [halong.cache]
  refine h.run fun i hi req hreq => ⟨hrequests (List.mem_of_getElem? hreq), ?_⟩
  exact (reads_eq_true_iff hreq).mp (List.mem_filter.mp hi).2

/-- And so does the serial branch. -/
theorem Remembers.executeSerial {requested requests : List ToolCallRequest}
    (hrequests : requests ⊆ requested) {rest : List ToolCallRequest} {i : ℕ}
    (hrest : ∀ k req, rest[k]? = some req → requests[i + k]? = some req) {cache : Cache}
    (h : Remembers K P ex reg β requested cache) :
    Remembers K P ex reg β requested
      (Keyed.executeSerial K P ex reg (β.outcomes reg requests) i rest cache).2 := by
  induction rest generalizing i cache with
  | nil => exact h
  | cons req rest ih =>
    have hi : requests[i]? = some req := hrest 0 req rfl
    -- The task leaves behind a cache that remembers, whether its key raises or not.
    have htask : Remembers K P ex reg β requested (runTask K P ex reg req
        (β.outcomes reg requests i) ex.segments .queued cache).2 := by
      cases hkey : ex.keyError K P req with
      | some e =>
        have hpos : 0 < ex.segments := by
          unfold ToolExecutor.segments
          omega
        rw [runTask_of_keyError hkey _ (Or.inl ⟨rfl, hpos⟩)]
        exact h
      | none =>
        have hsegments : ((Batch.start cache).run P ex reg requests (β.outcomes reg requests)
            (List.replicate ex.segments i)).cache =
              (ex.runTask P reg req (β.outcomes reg requests i) ex.segments .queued cache).2 :=
          congrArg Batch.cache (Batch.run_replicate hi ex.segments (Batch.start cache))
        rw [runTask_eq hkey, ← hsegments]
        refine h.run fun j hj req' hreq' => ?_
        obtain rfl := List.eq_of_mem_replicate hj
        obtain rfl := Option.some.inj (hreq'.symm.trans hi)
        exact ⟨hrequests (List.mem_of_getElem? hi), hkey⟩
    have hrest' : ∀ k r, rest[k]? = some r → requests[i + 1 + k]? = some r := by
      intro k r hk
      rw [Nat.add_right_comm]
      exact hrest (k + 1) r hk
    rw [Keyed.executeSerial]
    split
    next e' cache' hout =>
      rw [hout] at htask
      exact htask
    next task cache' _ hout =>
      rw [hout] at htask
      exact ih hrest' htask

/-- After every run of batches and clears under the tools, the cache remembers. -/
theorem remembers_cacheAfter {ops : List ToolExecutor.Op} (hops : ∀ op ∈ ops, op.Under β reg) :
    Remembers K P ex reg β (ops.flatMap ToolExecutor.Op.requests) (cacheAfter K P ex reg ops) := by
  refine Machine.state_invariant_of
    (Remembers K P ex reg β (ops.flatMap ToolExecutor.Op.requests))
    (fun op => op.Under β reg ∧ op.requests ⊆ ops.flatMap ToolExecutor.Op.requests)
    -- A clear forgets everything, and a batch adds what its own requests returned.
    (fun cache op hcache hop => ?_) (remembers_empty _) fun op hop => ⟨hops op hop, ?_⟩
  · obtain ⟨hunder, hrequests⟩ := hop
    cases op with
    -- The registry does not change between the batches.
    | registry op => exact hunder.elim
    | clearCache => exact remembers_empty _
    | batch requests outcomes schedule =>
      obtain rfl : outcomes = β.outcomes reg requests := hunder
      show Remembers K P ex reg β _
        (executeBatch K P ex reg requests (β.outcomes reg requests) schedule cache).2
      unfold executeBatch
      split_ifs
      · exact hcache.executeParallel hrequests schedule
      · refine hcache.executeSerial hrequests fun k req hk => ?_
        rw [Nat.zero_add]
        exact hk
  · exact fun req hreq => List.mem_flatMap.mpr ⟨op, hop, hreq⟩

end Reachable

/-! ## The two modes -/

section Modes

variable (K : KeyErrors) {P : Platform} {ex : ToolExecutor} {reg : ToolRegistry}
variable {β : ToolBehaviour}

/-- The modes agree on a batch over a cache: in parallel, under the schedule, and one after another
it returns one result for each request, in their order and with the same answers, and each request
has the answer of a batch of its own. -/
def ModesAgree (P : Platform) (ex : ToolExecutor) (reg : ToolRegistry) (β : ToolBehaviour)
    (requests : List ToolCallRequest) (schedule : List ℕ) (cache : Cache) : Prop :=
  ∃ rs rs', (executeBatch K P (ex.mode true) reg requests (β.outcomes reg requests) schedule
      cache).1 = .ok rs ∧
    (executeBatch K P (ex.mode false) reg requests (β.outcomes reg requests) [] cache).1 =
      .ok rs' ∧
    rs.length = requests.length ∧
    rs.map ExecutionResult.answer = rs'.map ExecutionResult.answer ∧
    ∀ (parallel : Bool) (i : ℕ) (req : ToolCallRequest), requests[i]? = some req →
      ∃ r, (executeBatch K P (ex.mode parallel) reg [req] (β.outcomes reg [req]) [] .empty).1 =
          .ok [r] ∧ rs[i]?.map ExecutionResult.answer = some r.answer

variable {K}

/-- A batch in either mode, over a cache that an executor in either mode was left with, if its keys
can be computed. -/
theorem executeBatch_answers_of_keys (filled parallel : Bool) {requested : List ToolCallRequest}
    {cache : Cache} (hcache : Remembers K P (ex.mode filled) reg β requested cache)
    {requests : List ToolCallRequest} (htyped : ∀ req ∈ requests, req.WellTyped)
    (hkeys : ex.enable_cache = true → ∀ r ∈ requested ++ requests, ∀ r' ∈ requests,
      r.keyError K P = none → r'.keyError K P = none → r.cacheKey P = r'.cacheKey P →
        r.SameCall r')
    (hread : ∀ req ∈ requests, ex.keyError K P req = none) (schedule : List ℕ) :
    ∃ rs, (executeBatch K P (ex.mode parallel) reg requests (β.outcomes reg requests) schedule
        cache).1 = .ok rs ∧
      rs.map ExecutionResult.answer = requests.map (β.answer P ex reg) := by
  obtain ⟨log, hlog, hcache, hrequested⟩ := hcache
  have hlog' : β.Explains P (ex.mode parallel) reg log := by
    intro su hsu
    obtain ⟨hget, hreturned⟩ := hlog su hsu
    refine ⟨hget, ?_⟩
    rw [ToolExecutor.execution_mode] at hreturned ⊢
    exact hreturned
  -- With the cache on, the keys of the log and of the requests are all of them computed.
  have hcalls : (ex.mode parallel).enable_cache = true →
      ∀ r ∈ log.map Success.req ++ requests, ∀ r' ∈ requests,
        r.cacheKey P = r'.cacheKey P → r.SameCall r' := by
    intro hen r hr r' hr'
    have hnone : ∀ req, ex.keyError K P req = none → req.keyError K P = none := by
      intro req hreq
      rw [ToolExecutor.keyError, if_pos (show ex.enable_cache = true from hen)] at hreq
      exact hreq
    rcases List.mem_append.mp hr with hold | hnew
    · obtain ⟨su, hsu, rfl⟩ := List.mem_map.mp hold
      exact hkeys hen su.req (List.mem_append_left _ (hrequested su hsu).1) r' hr'
        (hnone _ (hrequested su hsu).2) (hnone r' (hread r' hr'))
    · exact hkeys hen r (List.mem_append_right _ hnew) r' hr' (hnone r (hread r hnew))
        (hnone r' (hread r' hr'))
  obtain ⟨rs, hrs, hanswers⟩ :=
    ToolExecutor.executeBatch_answers hlog' htyped hcalls schedule
  refine ⟨rs, ?_, ?_⟩
  · rw [executeBatch_eq (show ∀ req ∈ requests, (ex.mode parallel).keyError K P req = none
      from hread), hcache]
    exact hrs
  · rw [hanswers]
    exact List.map_congr_left fun req _ => ToolExecutor.answer_mode parallel req

end Modes

open ToolExecutor

/-- A request with an integer that has one digit more than the limit. -/
def longIntRequest (limit : ℕ) : ToolCallRequest :=
  ⟨.str "read", .dict [("n", .int (10 ^ limit))]⟩

/-- Its cache key cannot be computed. -/
theorem keyError_longIntRequest (limit : ℕ) (parallel : Bool) :
    (caching.mode parallel).keyError (.digits limit) .bare (longIntRequest limit) =
      some (longIntError limit) := by
  have hlong : hasLongInt limit (longIntRequest limit).arguments = true := by
    simp [longIntRequest, hasLongInt, hasLongIntDict, Int.natAbs_pow]
  have hdumps : (KeyErrors.digits limit).dumps (longIntRequest limit).arguments =
      some (longIntError limit) := if_pos hlong
  have hen : (caching.mode parallel).enable_cache = true := rfl
  rw [ToolExecutor.keyError, if_pos hen, ToolCallRequest.keyError, hdumps]
  rfl

/-- With caching on, the parallel batch of that request has a failed result, and the serial one
raises. -/
theorem not_modesAgree_longIntRequest (limit : ℕ) :
    let reg := ToolRegistry.empty.register read
    let outcomes := steady.outcomes reg [longIntRequest limit]
    (executeBatch (.digits limit) .bare (caching.mode true) reg [longIntRequest limit] outcomes []
        .empty).1 = .ok [(longIntRequest limit).unexpectedError (longIntError limit)] ∧
      (executeBatch (.digits limit) .bare (caching.mode false) reg [longIntRequest limit] outcomes
        [] .empty).1 = .error (longIntError limit) ∧
      ¬ ModesAgree (.digits limit) .bare caching reg steady [longIntRequest limit] [] .empty := by
  intro reg outcomes
  have hserial : (executeBatch (.digits limit) .bare (caching.mode false) reg
      [longIntRequest limit] outcomes [] .empty).1 = .error (longIntError limit) :=
    executeSerial_of_keyError (keyError_longIntRequest limit false) [] 0 .empty
  refine ⟨congrArg Except.ok ?_, hserial, ?_⟩
  · -- The one result is that of the request whose key raises.
    have hfirst : (executeParallel (.digits limit) .bare (caching.mode true) reg
        [longIntRequest limit] outcomes [] .empty).1[0]? =
          some ((longIntRequest limit).unexpectedError (longIntError limit)) :=
      executeParallel_of_keyError rfl (keyError_longIntRequest limit true) [] .empty
    obtain ⟨r, hr⟩ := List.length_eq_one_iff.mp
      (show (executeParallel (.digits limit) .bare (caching.mode true) reg [longIntRequest limit]
        outcomes [] .empty).1.length = 1 from List.length_mapIdx)
    rw [hr] at hfirst ⊢
    exact congrArg (fun r => [r]) (Option.some.inj hfirst)
  · rintro ⟨-, rs', -, hrs', -⟩
    cases hserial.symm.trans hrs'

end Keyed

end YellowBull
