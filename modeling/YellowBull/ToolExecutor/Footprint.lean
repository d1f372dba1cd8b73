import YellowBull.ToolExecutor.Cache

/-!
# What a batch has to do with the cache

A batch reads the cache under the keys of its requests, and writes it under the keys of those whose
execution succeeds. So it does the same from two caches that have the same under its keys
(`executeParallel_congr`), and leaves a cache alone under the keys of no such execution
(`executeParallel_get?`).
-/

namespace YellowBull

open Py

open OrderedMap (AgreeOn)

section Footprint

variable (P : Platform) (ex : ToolExecutor) (reg : ToolRegistry)
variable (requests : List ToolCallRequest) (outcomes : ℕ → ℕ → Except Exn ToolResult)

/-- The cache is on, and a request has the key. -/
def ToolExecutor.Reads (key : String) : Prop :=
  ex.enable_cache = true ∧ ∃ req ∈ requests, req.cacheKey P = key

/-- The cache is on, and a request with the key has an execution that succeeds. -/
def ToolExecutor.Writes (key : String) : Prop :=
  ex.enable_cache = true ∧ ∃ i req, requests[i]? = some req ∧ req.cacheKey P = key ∧
    (ex.execution P reg req (outcomes i)).Succeeds

variable {P ex reg requests outcomes} {K : String → Prop}

/-! ## The same from caches that agree -/

/-- The lookup of a request reads its key. -/
theorem ToolExecutor.lookup_congr {c c' : Cache} (hc : AgreeOn K c c') {req : ToolCallRequest}
    (hkey : ex.enable_cache = true → K (req.cacheKey P)) :
    ex.lookup P c req = ex.lookup P c' req := by
  unfold ToolExecutor.lookup
  split_ifs with henable
  · rw [hc _ (hkey henable)]
  · rfl

/-- A result goes to both caches. -/
theorem ToolExecutor.store_congr {c c' : Cache} (hc : AgreeOn K c c') (req : ToolCallRequest)
    (attempt : ℕ) (r : ToolResult) :
    AgreeOn K (ex.store P c req attempt r) (ex.store P c' req attempt r) := by
  unfold ToolExecutor.store
  split_ifs with h
  · exact hc.set _ _
  · exact hc

variable (reg) in
/-- A segment of a task. -/
theorem ToolExecutor.advance_congr {c c' : Cache} (hc : AgreeOn K c c') {req : ToolCallRequest}
    (hkey : ex.enable_cache = true → K (req.cacheKey P)) (outcomes : ℕ → Except Exn ToolResult)
    (task : Task) :
    (ex.advance P reg req outcomes task c).1 = (ex.advance P reg req outcomes task c').1 ∧
      AgreeOn K (ex.advance P reg req outcomes task c).2
        (ex.advance P reg req outcomes task c').2 := by
  -- Only the first segment looks the request up, and only a call that comes back stores a result.
  cases task with
  | queued =>
    refine ⟨?_, hc⟩
    simp only [ToolExecutor.advance, ToolExecutor.startTask]
    rw [ToolExecutor.lookup_congr hc hkey]
  | sleeping tool attempt wait_time => exact ⟨rfl, hc⟩
  | done r => exact ⟨rfl, hc⟩
  | calling tool attempt =>
    simp only [ToolExecutor.advance, ToolExecutor.finishAttempt]
    cases ex.waitFor P tool req.arguments (outcomes attempt) with
    | ok r => exact ⟨rfl, ToolExecutor.store_congr hc req attempt r⟩
    | error e =>
      cases hlast : ex.lastError P req tool e with
      | none => simpa [hlast] using hc
      | some last_error => simpa [hlast] using hc

/-- The batches are at the same point, with caches that agree. -/
structure Batch.Agree (K : String → Prop) (b b' : Batch) : Prop where
  tasks : b.tasks = b'.tasks
  cache : AgreeOn K b.cache b'.cache

/-- A segment of a batch. -/
theorem Batch.Agree.step {b b' : Batch} (h : b.Agree K b')
    (hkeys : ∀ key, ex.Reads P requests key → K key) (i : ℕ) :
    (b.step P ex reg requests outcomes i).Agree K (b'.step P ex reg requests outcomes i) := by
  unfold Batch.step
  cases hreq : requests[i]? with
  | none => exact h
  | some req =>
    have hkey : ex.enable_cache = true → K (req.cacheKey P) := fun henable =>
      hkeys _ ⟨henable, req, List.mem_of_getElem? hreq, rfl⟩
    obtain ⟨htask, hcache⟩ :=
      ToolExecutor.advance_congr reg h.cache hkey (outcomes i) (b.tasks i)
    rw [h.tasks] at htask hcache
    exact ⟨by simp only [htask, h.tasks], by simpa only [h.tasks] using hcache⟩

variable (reg outcomes) in
/-- The segments of a schedule. -/
theorem Batch.Agree.run {b b' : Batch} (h : b.Agree K b')
    (hkeys : ∀ key, ex.Reads P requests key → K key) (schedule : List ℕ) :
    (b.run P ex reg requests outcomes schedule).Agree K
      (b'.run P ex reg requests outcomes schedule) := by
  induction schedule generalizing b b' with
  | nil => exact h
  | cons i schedule ih => exact ih (h.step hkeys i)

variable (reg outcomes) in
/-- A batch from caches that have the same under its keys. -/
theorem executeParallel_congr {c c' : Cache} (hc : AgreeOn K c c')
    (hkeys : ∀ key, ex.Reads P requests key → K key) (schedule : List ℕ) :
    (ex.executeParallel P reg requests outcomes schedule c).1 =
        (ex.executeParallel P reg requests outcomes schedule c').1 ∧
      AgreeOn K (ex.executeParallel P reg requests outcomes schedule c).2
        (ex.executeParallel P reg requests outcomes schedule c').2 := by
  have hstart : (Batch.start c).Agree K (Batch.start c') := ⟨rfl, hc⟩
  have hend := hstart.run reg outcomes hkeys (schedule ++ ex.finishing requests)
  exact ⟨by simp only [ToolExecutor.executeParallel, hend.tasks], hend.cache⟩

/-! ## What is left alone -/

/-- Segments leave the cache alone under the keys that the batch does not write. -/
theorem Batch.run_get? (segments : List ℕ) (cache : Cache) {key : String}
    (hkey : ¬ ex.Writes P reg requests outcomes key) :
    ((Batch.start cache).run P ex reg requests outcomes segments).cache.get? key =
      cache.get? key := by
  rw [Batch.cache_run, Batch.cache_start, ToolExecutor.remember]
  split_ifs with henable
  · refine OrderedMap.get?_setAll_of_ne fun item hitem => ?_
    obtain ⟨su, hsu, rfl⟩ := List.mem_map.mp hitem
    obtain ⟨i, -, hreq, hexecution⟩ := (Batch.sound_start cache).successes hsu
    refine fun heq => hkey ⟨henable, i, su.req, hreq, heq, ?_⟩
    rw [hexecution.returned]
    exact su.succeeds
  · rfl

/-- A batch does so, too. -/
theorem executeParallel_get? (schedule : List ℕ) (cache : Cache) {key : String}
    (hkey : ¬ ex.Writes P reg requests outcomes key) :
    (ex.executeParallel P reg requests outcomes schedule cache).2.get? key = cache.get? key :=
  Batch.run_get? (schedule ++ ex.finishing requests) cache hkey

end Footprint

end YellowBull
