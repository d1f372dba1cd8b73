import Mathlib.Data.List.Induction

/-!
# Pools of jobs

Jobs that wait in one queue until a holder begins them. A pool keeps every job it was given, in the
order of submission: first those that were begun, each with its progress, then those that wait.

A history is a list of operations, and `replay` is the pool that it leaves. In an *orderly* history
a holder begins the job at the head of the queue, holds one job at a time, and ends the job it
holds. Then no job is lost, begun twice or begun out of order (`Orderly.begun_append_waiting`), and
a job only ever goes from waiting to held to ended (`jobs_apply`).
-/

/-- How far a job that was begun has come. -/
inductive Progress (ι ω : Type*) where
  | held (holder : ι)
  | ended (outcome : ω)
  deriving DecidableEq

/-- The progress of a job when the holder `i` ends the one it holds. -/
def Progress.finish {ι ω : Type*} [DecidableEq ι] (i : ι) (o : ω) : Progress ι ω → Progress ι ω
  | .held j => if j = i then .ended o else .held j
  | .ended o' => .ended o'

/-- A job ends when the one that holds it finishes. -/
theorem Progress.finish_held_self {ι ω : Type*} [DecidableEq ι] (i : ι) (o : ω) :
    (Progress.held i).finish i o = .ended o := if_pos rfl

/-- Any other job is left as it is. -/
theorem Progress.finish_of_ne {ι ω : Type*} [DecidableEq ι] {i : ι} {o : ω} {p : Progress ι ω}
    (hp : p ≠ .held i) : p.finish i o = p := by
  cases p with
  | held j => exact if_neg fun hj => hp (congrArg Progress.held hj)
  | ended o' => rfl

/-- Where a job stands. -/
inductive Stage (ι ω : Type*) where
  | waiting
  | begun (progress : Progress ι ω)
  deriving DecidableEq

/-- The stage of a job when the holder `i` ends the one it holds. -/
def Stage.finish {ι ω : Type*} [DecidableEq ι] (i : ι) (o : ω) : Stage ι ω → Stage ι ω
  | .waiting => .waiting
  | .begun p => .begun (p.finish i o)

/-- Only a job that is held by the one that finishes ends. -/
theorem Stage.finish_of_ne {ι ω : Type*} [DecidableEq ι] {i : ι} {o : ω} {s : Stage ι ω}
    (hs : s ≠ .begun (.held i)) : s.finish i o = s := by
  cases s with
  | waiting => rfl
  | begun p =>
    have hp : p ≠ .held i := fun hp => hs (congrArg Stage.begun hp)
    rw [Stage.finish, Progress.finish_of_ne hp]

/-- A job moves on by one stage. -/
inductive Stage.Next {ι ω : Type*} : Stage ι ω → Stage ι ω → Prop
  | begin (i : ι) : Next .waiting (.begun (.held i))
  | finish (i : ι) (o : ω) : Next (.begun (.held i)) (.begun (.ended o))

/-- The jobs that were begun and those that wait, both in the order of submission. -/
structure JobPool (β ι ω : Type*) where
  started : List (β × Progress ι ω) := []
  waiting : List β := []

namespace JobPool

variable {β ι ω : Type*}

/-- All jobs with their stages, in the order of submission. -/
def jobs (P : JobPool β ι ω) : List (β × Stage ι ω) :=
  P.started.map (fun job => (job.1, .begun job.2)) ++ P.waiting.map fun b => (b, .waiting)

/-- All jobs, in the order of submission. -/
def payloads (P : JobPool β ι ω) : List β := P.started.map Prod.fst ++ P.waiting

/-- The jobs are those of the payloads, in order. -/
theorem map_fst_jobs (P : JobPool β ι ω) : P.jobs.map Prod.fst = P.payloads := by
  simp [jobs, payloads, Function.comp_def]

/-- There are as many jobs as payloads. -/
theorem length_jobs (P : JobPool β ι ω) : P.jobs.length = P.payloads.length := by
  rw [← map_fst_jobs, List.length_map]

/-- A job is one of those submitted. -/
theorem payloads_of_jobs {P : JobPool β ι ω} {k : ℕ} {b : β} {s : Stage ι ω}
    (hk : P.jobs[k]? = some (b, s)) : P.payloads[k]? = some b := by
  rw [← map_fst_jobs, List.getElem?_map, hk, Option.map_some]

/-- What was submitted is at some stage. -/
theorem exists_stage {P : JobPool β ι ω} {k : ℕ} {b : β} (hk : P.payloads[k]? = some b) :
    ∃ s, P.jobs[k]? = some (b, s) := by
  rw [← map_fst_jobs, List.getElem?_map, Option.map_eq_some_iff] at hk
  obtain ⟨⟨b', s⟩, hk, rfl⟩ := hk
  exact ⟨s, hk⟩

/-- The stage of a begun job is its progress. -/
theorem jobs_begun_iff {P : JobPool β ι ω} {k : ℕ} {b : β} {p : Progress ι ω} :
    P.jobs[k]? = some (b, .begun p) ↔ P.started[k]? = some (b, p) := by
  unfold jobs
  rw [List.getElem?_append]
  by_cases hk : k < P.started.length
  · simp [hk, Prod.ext_iff]
  · simp [hk]

/-- A job at the stage `waiting` stands behind the begun ones, in the queue. -/
theorem jobs_waiting_iff {P : JobPool β ι ω} {k : ℕ} {b : β} :
    P.jobs[k]? = some (b, .waiting) ↔
      P.started.length ≤ k ∧ P.waiting[k - P.started.length]? = some b := by
  unfold jobs
  rw [List.getElem?_append]
  by_cases hk : k < P.started.length
  · simp [hk, Nat.not_le_of_lt hk]
  · simp [hk, Nat.le_of_not_lt hk]

/-- The head of the queue is the first job that waits. -/
theorem jobs_head {P : JobPool β ι ω} {b : β} (hhead : P.waiting.head? = some b) :
    P.jobs[P.started.length]? = some (b, .waiting) := by
  obtain ⟨rest, hrest⟩ := List.head?_eq_some_iff.mp hhead
  simp [jobs_waiting_iff, hrest]

/-! ## Operations -/

/-- What happens to the jobs of a pool. -/
inductive Op (β ι ω : Type*) where
  | submitted (job : β)
  | began (holder : ι) (job : β)
  | finished (holder : ι) (job : β) (outcome : ω)

/-- The job that an operation submits. -/
def Op.submission? : Op β ι ω → Option β
  | .submitted b => some b
  | _ => none

/-- The job that an operation begins. -/
def Op.began? : Op β ι ω → Option β
  | .began _ b => some b
  | _ => none

/-- The job that an operation ends, with its outcome. -/
def Op.finished? : Op β ι ω → Option (β × ω)
  | .finished _ b o => some (b, o)
  | _ => none

/-- The jobs that a history submits, in order. -/
def submissions (ops : List (Op β ι ω)) : List β := ops.filterMap Op.submission?

/-- The jobs that a history begins, in order. -/
def begun (ops : List (Op β ι ω)) : List β := ops.filterMap Op.began?

/-- The jobs that a history ends, in order, with their outcomes. -/
def finished (ops : List (Op β ι ω)) : List (β × ω) := ops.filterMap Op.finished?

variable [DecidableEq ι]

/-- The pool after an operation. -/
def apply (P : JobPool β ι ω) : Op β ι ω → JobPool β ι ω
  | .submitted b => ⟨P.started, P.waiting ++ [b]⟩
  | .began i b => ⟨P.started ++ [(b, .held i)], P.waiting.tail⟩
  | .finished i _ o => ⟨P.started.map fun job => (job.1, job.2.finish i o), P.waiting⟩

/-- The pool that a history leaves. -/
def replay (ops : List (Op β ι ω)) : JobPool β ι ω := ops.foldl apply {}

/-- One more operation is applied to what the others leave. -/
@[simp]
theorem replay_concat (ops : List (Op β ι ω)) (op : Op β ι ω) :
    replay (ops ++ [op]) = (replay ops).apply op := by
  simp [replay]

/-- An operation is orderly: the job that begins is the head of the queue and its holder is free,
the job that ends is one that its holder holds. -/
def Enabled (P : JobPool β ι ω) : Op β ι ω → Prop
  | .submitted _ => True
  | .began i b => P.waiting.head? = some b ∧ ∀ job ∈ P.started, job.2 ≠ .held i
  | .finished i b _ => (b, .held i) ∈ P.started

/-- Each operation of the history was orderly in its turn. -/
inductive Orderly : List (Op β ι ω) → Prop
  | nil : Orderly []
  | concat {ops : List (Op β ι ω)} {op : Op β ι ω} (hops : Orderly ops)
      (hop : (replay ops).Enabled op) : Orderly (ops ++ [op])

/-- A job that is submitted waits behind the others. -/
theorem jobs_submitted (P : JobPool β ι ω) (b : β) :
    (P.apply (.submitted b)).jobs = P.jobs ++ [(b, .waiting)] := by
  simp [apply, jobs]

/-- The first job that waits is begun. -/
theorem jobs_began {P : JobPool β ι ω} {b : β} (hhead : P.waiting.head? = some b) (i : ι) :
    (P.apply (.began i b)).jobs = P.jobs.set P.started.length (b, .begun (.held i)) := by
  obtain ⟨rest, hrest⟩ := List.head?_eq_some_iff.mp hhead
  simp [apply, jobs, hrest]

/-- Each job takes note of who has finished. -/
theorem jobs_finished (P : JobPool β ι ω) (i : ι) (b : β) (o : ω) :
    (P.apply (.finished i b o)).jobs = P.jobs.map fun job => (job.1, job.2.finish i o) := by
  simp [apply, jobs, Stage.finish, Function.comp_def]

/-- The last operation of an orderly history was orderly. -/
theorem Orderly.enabled {ops : List (Op β ι ω)} {op : Op β ι ω} (h : Orderly (ops ++ [op])) :
    (replay ops).Enabled op := by
  generalize hall : ops ++ [op] = all at h
  cases h with
  | nil => simp at hall
  | concat hops hop =>
    obtain ⟨rfl, heq⟩ := List.append_inj' hall rfl
    cases heq
    exact hop

/-- What one operation does to a job: it leaves it where it is, or moves it on by one stage. -/
theorem jobs_apply {P : JobPool β ι ω} {op : Op β ι ω} (hop : P.Enabled op) {k : ℕ} {b : β}
    {s : Stage ι ω} (hk : P.jobs[k]? = some (b, s)) :
    ∃ s', (P.apply op).jobs[k]? = some (b, s') ∧ (s' = s ∨ s.Next s') := by
  have hlt := (List.getElem?_eq_some_iff.mp hk).1
  -- An operation moves at most one job: beginning the one that waits longest, finishing held ones.
  cases op with
  | submitted b' =>
    refine ⟨s, ?_, Or.inl rfl⟩
    rw [jobs_submitted, List.getElem?_append_left hlt, hk]
  | began i b' =>
    rw [jobs_began hop.1]
    by_cases hkn : k = P.started.length
    · subst hkn
      rw [jobs_head hop.1] at hk
      cases hk
      exact ⟨_, List.getElem?_set_self hlt, Or.inr (.begin i)⟩
    · exact ⟨s, by rw [List.getElem?_set_ne (Ne.symm hkn), hk], Or.inl rfl⟩
  | finished i b' o =>
    refine ⟨s.finish i o, by rw [jobs_finished, List.getElem?_map, hk, Option.map_some], ?_⟩
    by_cases hs : s = .begun (.held i)
    · rw [hs, Stage.finish, Progress.finish_held_self]
      exact Or.inr (.finish i o)
    -- A job that is not held by this worker stays as it is.
    · exact Or.inl (Stage.finish_of_ne hs)

/-- The jobs themselves only grow, by those submitted. -/
theorem payloads_apply {P : JobPool β ι ω} {op : Op β ι ω} (hop : P.Enabled op) :
    (P.apply op).payloads = P.payloads ++ op.submission?.toList := by
  cases op with
  | submitted b => simp [apply, payloads, Op.submission?]
  | began i b =>
    obtain ⟨rest, hrest⟩ := List.head?_eq_some_iff.mp hop.1
    simp [apply, payloads, Op.submission?, hrest]
  | finished i b o => simp [apply, payloads, Op.submission?]

/-- An operation that submits nothing leaves the jobs themselves. -/
theorem payloads_apply_of_none {P : JobPool β ι ω} {op : Op β ι ω} (hop : P.Enabled op)
    (hnone : op.submission? = none) : (P.apply op).payloads = P.payloads := by
  rw [payloads_apply hop, hnone, Option.toList_none, List.append_nil]

/-- An orderly history has the jobs it submitted. -/
theorem Orderly.payloads_eq {ops : List (Op β ι ω)} (h : Orderly ops) :
    (replay ops).payloads = submissions ops := by
  induction h with
  | nil => rfl
  | @concat ops op _ hop ih =>
    rw [replay_concat, payloads_apply hop, ih]
    unfold submissions
    rw [List.filterMap_append]
    cases hb : op.submission? <;> simp [hb]

/-- The begun jobs are those that the history begins. -/
theorem map_fst_started (ops : List (Op β ι ω)) :
    (replay ops).started.map Prod.fst = begun ops := by
  induction ops using List.reverseRecOn with
  | nil => rfl
  | append_singleton ops op ih =>
    rw [replay_concat, begun, List.filterMap_append, ← begun, ← ih]
    cases op <;> simp [apply, Op.began?, Function.comp_def]

/-- Jobs are begun in the order of submission, each at most once, and the others wait. -/
theorem Orderly.begun_append_waiting {ops : List (Op β ι ω)} (h : Orderly ops) :
    begun ops ++ (replay ops).waiting = submissions ops := by
  rw [← map_fst_started, ← h.payloads_eq]
  rfl

/-- A holder that ends its job holds none afterwards, and the others hold what they held. -/
theorem started_finished_held_iff {P : JobPool β ι ω} {i j : ι} {b c : β} {o : ω} {k : ℕ} :
    (P.apply (.finished i b o)).started[k]? = some (c, .held j) ↔
      j ≠ i ∧ P.started[k]? = some (c, .held j) := by
  simp only [apply, List.getElem?_map, Option.map_eq_some_iff, Prod.mk.injEq]
  constructor
  · rintro ⟨⟨b', p⟩, hk, rfl, hp⟩
    by_cases hi : p = .held i
    · rw [hi, Progress.finish_held_self] at hp
      cases hp
    · rw [Progress.finish_of_ne hi] at hp
      subst hp
      exact ⟨fun hj => hi (congrArg Progress.held hj), hk⟩
  · rintro ⟨hj, hk⟩
    exact ⟨_, hk, rfl, Progress.finish_of_ne fun hp => hj (Progress.held.inj hp)⟩

/-- A job that is held after an operation was held before, or began with it. -/
theorem started_held_apply {P : JobPool β ι ω} {op : Op β ι ω} {k : ℕ} {b : β} {i : ι}
    (hk : (P.apply op).started[k]? = some (b, .held i)) :
    P.started[k]? = some (b, .held i) ∨ (k = P.started.length ∧ op = .began i b) := by
  -- A beginning job is put behind the ones that have begun before.
  cases op with
  | submitted b' => exact Or.inl hk
  | began j b' =>
    simp only [apply, List.getElem?_append] at hk
    by_cases hlt : k < P.started.length
    · rw [if_pos hlt] at hk
      exact Or.inl hk
    · rw [if_neg hlt, List.getElem?_singleton] at hk
      by_cases hzero : k - P.started.length = 0
      · rw [if_pos hzero] at hk
        cases hk
        exact Or.inr ⟨by omega, rfl⟩
      · rw [if_neg hzero] at hk
        cases hk
  | finished j b' o => exact Or.inl (started_finished_held_iff.mp hk).2

/-- A holder holds one job at a time. -/
theorem Orderly.holder_injective {ops : List (Op β ι ω)} (h : Orderly ops) {k l : ℕ} {b c : β}
    {i : ι} (hk : (replay ops).started[k]? = some (b, .held i))
    (hl : (replay ops).started[l]? = some (c, .held i)) : k = l := by
  induction h generalizing k l b c with
  | nil => simp [replay] at hk
  | @concat ops op _ hop ih =>
    rw [replay_concat] at hk hl
    -- A holder that begins a job held none before.
    rcases started_held_apply hk with hold | ⟨rfl, rfl⟩
    · rcases started_held_apply hl with hold' | ⟨rfl, rfl⟩
      · exact ih hold hold'
      · exact absurd rfl (hop.2 _ (List.mem_of_getElem? hold))
    · rcases started_held_apply hl with hold' | ⟨rfl, -⟩
      · exact absurd rfl (hop.2 _ (List.mem_of_getElem? hold'))
      · rfl

/-- The jobs that ended, with their outcomes, are those that the history ends. -/
theorem Orderly.mem_finished_iff {ops : List (Op β ι ω)} (h : Orderly ops) {b : β} {o : ω} :
    (b, o) ∈ finished ops ↔ (b, .ended o) ∈ (replay ops).started := by
  induction h with
  | nil => simp [finished, replay]
  | @concat ops op hops hop ih =>
    rw [replay_concat, finished, List.filterMap_append, List.mem_append, ← finished, ih]
    cases op with
    | submitted b' => simp [apply, Op.finished?]
    | began i b' => simp [apply, Op.finished?]
    | finished i b' o' =>
      simp only [apply, Op.finished?, List.filterMap_cons, List.filterMap_nil, List.mem_singleton,
        Prod.mk.injEq, List.mem_map, Prod.exists]
      constructor
      · rintro (hmem | ⟨rfl, rfl⟩)
        · exact ⟨b, .ended o, hmem, rfl, rfl⟩
        · exact ⟨b, .held i, hop, rfl, Progress.finish_held_self i o⟩
      · rintro ⟨c, p, hmem, rfl, hp⟩
        by_cases hi : p = .held i
        · -- The holder holds no job but the one that ends.
          subst hi
          obtain ⟨k, hk⟩ := List.getElem?_of_mem hmem
          obtain ⟨l, hl⟩ := List.getElem?_of_mem hop
          obtain rfl := hops.holder_injective hk hl
          rw [hk] at hl
          cases hl
          rw [Progress.finish_held_self] at hp
          cases hp
          exact Or.inr ⟨rfl, rfl⟩
        · rw [Progress.finish_of_ne hi] at hp
          rw [hp] at hmem
          exact Or.inl hmem

end JobPool
