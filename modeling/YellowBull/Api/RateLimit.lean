import Mathlib.Data.List.Induction
import YellowBull.Lib.Machine
import YellowBull.Lib.OrderedMap
import YellowBull.Lib.SlidingWindow
import YellowBull.Models

/-!
# The rate limiter

`RateLimitMiddleware` of `api/middleware/rate_limit.py`, over any linearly ordered group of points
in time. The clock reading of a call is an input.

`_check_limit` prunes the timestamps of the user that asks, and only those. The invariant
(`bucket_recent`) says what a bucket is still good for: from now on, its recent timestamps are those
of the user's admitted calls. So each answer counts the admitted calls in the window, and the
general bound on limited logs gives the rest (`sliding_window_exact`).
-/

namespace YellowBull

open SlidingWindow

/-- `RateLimitMiddleware._buckets`, the timestamps of each user. -/
abbrev Buckets (τ : Type*) := OrderedMap String (List τ)

/-- What a `RateLimitMiddleware` is configured with. -/
structure RateLimitMiddleware (τ : Type*) where
  enabled : Bool := true
  max_requests : ℤ := 60
  window_seconds : τ
  exclude_paths : List String := ["/api/health", "/docs", "/openapi.json"]

/-- The parts of a request that the middleware reads. -/
structure HttpRequest where
  /-- The path in the scope, by which Starlette routes. -/
  path : String
  /-- `request.headers.get(name)`, by the name in lower case. -/
  headers : List (String × String)
  client_host : Option String
  /-- `request.url.path`. Starlette parses the URL from the `Host` header with the path behind it,
  so that it is another path when the header has a `/` in it. -/
  url_path : String := path

/-- `RateLimitMiddleware._extract_user_id`. -/
def extractUserId (request : HttpRequest) : String :=
  let own_key := (request.headers.lookup "x-api-key").getD ""
  let api_key :=
    if own_key = "" then
      ((request.headers.lookup "authorization").getD "").replace "Bearer " ""
    else own_key
  if api_key = "" then "ip:" ++ request.client_host.getD "unknown" else "key:" ++ api_key

/-- One call of `_check_limit`, with the reading of the clock. -/
structure LimitCall (τ : Type*) where
  user_id : String
  now : τ

section Limiter

variable {τ : Type*} [AddCommGroup τ] [LinearOrder τ] (mw : RateLimitMiddleware τ)

/-- The timestamps of a user in the `defaultdict`. -/
def bucket (buckets : Buckets τ) (user_id : String) : List τ := (buckets.get? user_id).getD []

/-- `RateLimitMiddleware._check_limit`: the buckets afterwards and the answer. -/
def checkLimit (buckets : Buckets τ) (call : LimitCall τ) : Buckets τ × Bool :=
  let cutoff := call.now - mw.window_seconds
  let timestamps := (bucket buckets call.user_id).filter fun t => cutoff < t
  if mw.max_requests ≤ timestamps.length then (buckets.set call.user_id timestamps, false)
  else (buckets.set call.user_id (timestamps ++ [call.now]), true)

/-- The requests that `dispatch` does not limit. -/
def RateLimitMiddleware.exempts (request : HttpRequest) : Bool :=
  !mw.enabled || mw.exclude_paths.any fun excluded => request.url_path.startsWith excluded

/-- `RateLimitMiddleware.dispatch`: the buckets afterwards, and whether the request goes on to
`call_next`. -/
def dispatch [ToString τ] (buckets : Buckets τ) (request : HttpRequest) (now : τ) :
    Buckets τ × Except HTTPException Unit :=
  if mw.exempts request then (buckets, .ok ())
  else
    match checkLimit mw buckets ⟨extractUserId request, now⟩ with
    | (buckets, true) => (buckets, .ok ())
    | (buckets, false) =>
      (buckets, .error
        { status_code := 429
          detail := "Rate limit exceeded. Try again later."
          headers := [("Retry-After", toString mw.window_seconds)] })

/-- The answers to a sequence of calls. -/
def answers (calls : List (LimitCall τ)) : List Bool := Machine.outputs (checkLimit mw) .empty calls

/-- The times of the calls of a user that were admitted, oldest first. -/
def admitted (calls : List (LimitCall τ)) (user_id : String) : List τ :=
  ((calls.zip (answers mw calls)).filter fun c => c.1.user_id = user_id ∧ c.2 = true).map
    fun c => c.1.now

/-- The answers to the calls of one user. -/
def answersOf (user_id : String) (calls : List (LimitCall τ)) (bs : List Bool) : List Bool :=
  ((calls.zip bs).filter fun c => c.1.user_id = user_id).map Prod.snd

/-! ## One call -/

variable {mw}

/-- A call is admitted when the user has fewer than `max_requests` recent timestamps. -/
theorem checkLimit_answer (buckets : Buckets τ) (call : LimitCall τ) :
    (checkLimit mw buckets call).2 = true ↔
      ((recent mw.window_seconds call.now (bucket buckets call.user_id)).length : ℤ) <
        mw.max_requests := by
  unfold checkLimit recent
  simp only
  split_ifs with h
  · simpa using h
  · simpa using h

/-- A call prunes the bucket of its user, and adds its time if it is admitted. -/
theorem bucket_checkLimit_self (buckets : Buckets τ) (call : LimitCall τ) :
    bucket (checkLimit mw buckets call).1 call.user_id =
      recent mw.window_seconds call.now (bucket buckets call.user_id) ++
        if (checkLimit mw buckets call).2 then [call.now] else [] := by
  unfold checkLimit recent
  simp only
  by_cases h : mw.max_requests ≤ ((bucket buckets call.user_id).filter fun t =>
      call.now - mw.window_seconds < t).length
  · rw [if_pos h]
    simp [bucket]
  · rw [if_neg h]
    simp [bucket]

/-- A call leaves the buckets of the other users alone. -/
theorem bucket_checkLimit_of_ne (buckets : Buckets τ) {call : LimitCall τ} {user_id : String}
    (h : user_id ≠ call.user_id) :
    bucket (checkLimit mw buckets call).1 user_id = bucket buckets user_id := by
  unfold checkLimit bucket
  simp only
  split_ifs
  · rw [OrderedMap.get?_set_of_ne _ h]
  · rw [OrderedMap.get?_set_of_ne _ h]

/-- What a call leaves under a name is read from what was there. -/
theorem get?_checkLimit_congr {buckets buckets' : Buckets τ} (call : LimitCall τ)
    {user_id : String} (h : buckets.get? user_id = buckets'.get? user_id) :
    (checkLimit mw buckets call).1.get? user_id = (checkLimit mw buckets' call).1.get? user_id := by
  by_cases huser : user_id = call.user_id
  · subst huser
    have hbucket : bucket buckets call.user_id = bucket buckets' call.user_id := by
      rw [bucket, bucket, h]
    unfold checkLimit
    rw [hbucket]
    simp only
    split_ifs
    · rw [OrderedMap.get?_set_self, OrderedMap.get?_set_self]
    · rw [OrderedMap.get?_set_self, OrderedMap.get?_set_self]
  · unfold checkLimit
    simp only
    split_ifs <;>
      rw [OrderedMap.get?_set_of_ne _ huser, OrderedMap.get?_set_of_ne _ huser, h]

/-- A call leaves what is under the names of the other users alone. -/
theorem get?_checkLimit_of_ne (buckets : Buckets τ) {call : LimitCall τ} {user_id : String}
    (h : user_id ≠ call.user_id) :
    (checkLimit mw buckets call).1.get? user_id = buckets.get? user_id := by
  unfold checkLimit
  simp only
  split_ifs
  · rw [OrderedMap.get?_set_of_ne _ h]
  · rw [OrderedMap.get?_set_of_ne _ h]

/-- After a call of a user, the user's bucket is not empty. -/
theorem bucket_checkLimit_ne_nil (hmax : 0 < mw.max_requests) (buckets : Buckets τ)
    (call : LimitCall τ) : bucket (checkLimit mw buckets call).1 call.user_id ≠ [] := by
  rw [bucket_checkLimit_self]
  split_ifs with h
  · simp
  · -- A call that is not admitted found `max_requests` timestamps.
    rw [checkLimit_answer] at h
    intro hnil
    rw [List.append_nil] at hnil
    rw [hnil, List.length_nil] at h
    exact h (by simpa using hmax)

/-- A request is let through when it is exempt or its user's call is admitted. -/
theorem dispatch_ok_iff [ToString τ] (buckets : Buckets τ) (request : HttpRequest) (now : τ) :
    (dispatch mw buckets request now).2 = .ok () ↔ mw.exempts request = true ∨
      (checkLimit mw buckets ⟨extractUserId request, now⟩).2 = true := by
  unfold dispatch
  cases mw.exempts request with
  | true => simp
  | false =>
    obtain ⟨buckets', answer⟩ := checkLimit mw buckets ⟨extractUserId request, now⟩
    cases answer <;> simp

/-- A request makes a call unless it is exempt. -/
theorem dispatch_fst [ToString τ] (buckets : Buckets τ) (request : HttpRequest) (now : τ) :
    (dispatch mw buckets request now).1 = if mw.exempts request then buckets
      else (checkLimit mw buckets ⟨extractUserId request, now⟩).1 := by
  unfold dispatch
  cases mw.exempts request with
  | true => rfl
  | false =>
    obtain ⟨buckets', answer⟩ := checkLimit mw buckets ⟨extractUserId request, now⟩
    cases answer <;> rfl

/-! ## Sequences of calls -/

/-- One more call is answered after those before it. -/
theorem answers_append_singleton (calls : List (LimitCall τ)) (call : LimitCall τ) :
    answers mw (calls ++ [call]) = answers mw calls ++
      [(checkLimit mw (Machine.state (checkLimit mw) .empty calls) call).2] :=
  Machine.outputs_append ..

/-- The admitted calls of a user, after one call more. -/
theorem admitted_append_singleton (calls : List (LimitCall τ)) (call : LimitCall τ)
    (user_id : String) :
    admitted mw (calls ++ [call]) user_id = admitted mw calls user_id ++
      if call.user_id = user_id ∧
          (checkLimit mw (Machine.state (checkLimit mw) .empty calls) call).2 = true then
        [call.now]
      else [] := by
  have hlen : calls.length = (answers mw calls).length := (Machine.length_outputs ..).symm
  unfold admitted
  rw [answers_append_singleton, List.zip_append hlen, List.filter_append, List.map_append]
  congr 1
  split_ifs with h
  · simp [h]
  · simp only [List.zip_cons_cons, List.zip_nil_right, List.filter_cons, h, decide_false]
    rfl

/-- Only calls are admitted. -/
theorem mem_admitted {calls : List (LimitCall τ)} {user_id : String} {t : τ}
    (h : t ∈ admitted mw calls user_id) : ∃ call ∈ calls, call.now = t := by
  obtain ⟨c, hc, rfl⟩ := List.mem_map.mp h
  exact ⟨c.1, (List.of_mem_zip (List.mem_of_mem_filter hc)).1, rfl⟩

/-- The answers to a user's calls are those of the calls alone, from buckets that are the same for
that user. -/
theorem answersOf_eq (user_id : String) {b b' : Buckets τ}
    (h : bucket b user_id = bucket b' user_id) (calls : List (LimitCall τ)) :
    answersOf user_id calls (Machine.outputs (checkLimit mw) b calls) =
      Machine.outputs (checkLimit mw) b' (calls.filter (·.user_id = user_id)) := by
  induction calls generalizing b b' with
  | nil => rfl
  | cons call calls ih =>
    rw [Machine.outputs]
    by_cases huser : call.user_id = user_id
    · have hanswer : (checkLimit mw b call).2 = (checkLimit mw b' call).2 := by
        rw [Bool.eq_iff_iff, checkLimit_answer, checkLimit_answer, huser, h]
      have hbucket : bucket (checkLimit mw b call).1 user_id =
          bucket (checkLimit mw b' call).1 user_id := by
        rw [← huser, bucket_checkLimit_self, bucket_checkLimit_self, hanswer, huser, h]
      rw [List.filter_cons_of_pos (by simpa using huser), Machine.outputs, ← hanswer,
        ← ih hbucket]
      simp [answersOf, huser]
    · -- Another user's call leaves the bucket alone and its answer is not counted.
      have hbucket : bucket (checkLimit mw b call).1 user_id = bucket b' user_id := by
        rw [bucket_checkLimit_of_ne _ (Ne.symm huser), h]
      rw [List.filter_cons_of_neg (by simpa using huser), ← ih hbucket]
      simp [answersOf, huser]

/-- The answer to the call at position `i` of a sequence. -/
theorem answers_getElem? (calls : List (LimitCall τ)) {i : ℕ} (h : i < calls.length) :
    (answers mw calls)[i]? = some
      (checkLimit mw (Machine.state (checkLimit mw) .empty (calls.take i)) calls[i]).2 := by
  have hlen : (answers mw (calls.take i)).length = i := by
    rw [answers, Machine.length_outputs, List.length_take]
    omega
  have hsplit : answers mw calls = answers mw (calls.take i) ++
      Machine.outputs (checkLimit mw) (Machine.state (checkLimit mw) .empty (calls.take i))
        (calls[i] :: calls.drop (i + 1)) := by
    rw [← List.drop_eq_getElem_cons h]
    conv_lhs => rw [← List.take_append_drop i calls]
    exact Machine.outputs_append ..
  rw [hsplit, List.getElem?_append_right (by omega), hlen, Nat.sub_self]
  rfl

variable [IsOrderedAddMonoid τ]

/-- What a bucket is good for: from the last call on, its recent timestamps are those of the
user's admitted calls. -/
theorem bucket_recent {calls : List (LimitCall τ)} (hclock : calls.Pairwise (·.now ≤ ·.now))
    {t : τ} (ht : ∀ call ∈ calls, call.now ≤ t) (user_id : String) :
    recent mw.window_seconds t
        (bucket (Machine.state (checkLimit mw) .empty calls) user_id) =
      recent mw.window_seconds t (admitted mw calls user_id) := by
  induction calls using List.reverseRecOn generalizing t with
  | nil => rfl
  | append_singleton calls call ih =>
    obtain ⟨hcalls, -, hlast⟩ := List.pairwise_append.mp hclock
    have hbefore : ∀ c ∈ calls, c.now ≤ call.now := fun c hc => hlast c hc call (by simp)
    have hcall : call.now ≤ t := ht call (by simp)
    rw [Machine.state_append, admitted_append_singleton, recent_append]
    change recent _ t (bucket (checkLimit mw _ call).1 user_id) = _
    by_cases huser : user_id = call.user_id
    · -- What the call prunes is old at `t` as well.
      subst huser
      rw [bucket_checkLimit_self, ih hcalls hbefore, recent_append, recent_recent hcall]
      simp
    · rw [bucket_checkLimit_of_ne _ huser, ih hcalls fun c hc => ht c (by simp [hc]),
        if_neg fun h => huser h.1.symm]
      simp [recent]

/-- A call is admitted exactly when fewer than `max_requests` earlier calls of its user were
admitted in the window at its time. -/
theorem checkLimit_answer_iff {calls : List (LimitCall τ)} {call : LimitCall τ}
    (hclock : (calls ++ [call]).Pairwise (·.now ≤ ·.now)) :
    (checkLimit mw (Machine.state (checkLimit mw) .empty calls) call).2 = true ↔
      ((recent mw.window_seconds call.now (admitted mw calls call.user_id)).length : ℤ) <
        mw.max_requests := by
  obtain ⟨hcalls, -, hlast⟩ := List.pairwise_append.mp hclock
  rw [checkLimit_answer, bucket_recent hcalls fun c hc => hlast c hc call (by simp)]

/-- The admitted calls of a user are limited. -/
theorem admitted_limited {calls : List (LimitCall τ)} (hclock : calls.Pairwise (·.now ≤ ·.now))
    (user_id : String) : Limited mw.max_requests mw.window_seconds (admitted mw calls user_id) := by
  induction calls using List.reverseRecOn with
  | nil => exact .nil
  | append_singleton calls call ih =>
    obtain ⟨hcalls, -, hlast⟩ := List.pairwise_append.mp hclock
    rw [admitted_append_singleton]
    split_ifs with h
    · -- An admitted call found fewer than `max_requests` others in its window.
      obtain ⟨rfl, hanswer⟩ := h
      refine .concat (ih hcalls) (fun t ht => ?_) ((checkLimit_answer_iff hclock).mp hanswer)
      obtain ⟨c, hc, rfl⟩ := mem_admitted ht
      exact hlast c hc call (by simp)
    · simpa using ih hcalls

/-- A refused call leaves buckets that answer all later calls as if it had not been made. -/
theorem answers_of_refused {pre post : List (LimitCall τ)} {call : LimitCall τ}
    (hclock : (pre ++ call :: post).Pairwise (·.now ≤ ·.now))
    (hrefused : (checkLimit mw (Machine.state (checkLimit mw) .empty pre) call).2 = false) :
    answers mw (pre ++ post) =
      answers mw pre ++ (answers mw (pre ++ call :: post)).drop (pre.length + 1) := by
  have hlen : (answers mw pre).length = pre.length := Machine.length_outputs ..
  have hpost : ∀ c ∈ post, call.now ≤ c.now :=
    (List.pairwise_cons.mp (List.pairwise_append.mp hclock).2.1).1
  generalize hbuckets : Machine.state (checkLimit mw) .empty pre = buckets at hrefused
  -- The two buckets agree on what is recent from the time of the refused call on.
  have hsame : Machine.outputs (checkLimit mw) buckets post =
      Machine.outputs (checkLimit mw) (checkLimit mw buckets call).1 post := by
    refine Machine.outputs_eq_of_simulation
      (R := fun b b' => ∀ user_id, recent mw.window_seconds call.now (bucket b user_id) =
        recent mw.window_seconds call.now (bucket b' user_id)) ?_ ?_
      (Machine.EveryStep.of_forall hpost buckets)
    · intro b b' c hR hc
      have hrecent : recent mw.window_seconds c.now (bucket b c.user_id) =
          recent mw.window_seconds c.now (bucket b' c.user_id) := by
        -- What is recent at a later call is recent at the refused one.
        rw [← recent_recent hc, hR, recent_recent hc]
      have hanswer : (checkLimit mw b c).2 = (checkLimit mw b' c).2 := by
        rw [Bool.eq_iff_iff, checkLimit_answer, checkLimit_answer, hrecent]
      refine ⟨hanswer, fun user_id => ?_⟩
      by_cases huser : user_id = c.user_id
      · rw [huser, bucket_checkLimit_self, bucket_checkLimit_self, hrecent, hanswer]
      · rw [bucket_checkLimit_of_ne _ huser, bucket_checkLimit_of_ne _ huser, hR]
    · -- The refused call itself has only pruned.
      intro user_id
      by_cases huser : user_id = call.user_id
      · rw [huser, bucket_checkLimit_self, hrefused, if_neg Bool.false_ne_true, List.append_nil,
          recent_recent le_rfl]
      · rw [bucket_checkLimit_of_ne _ huser]
  have hleft : answers mw (pre ++ post) =
      answers mw pre ++ Machine.outputs (checkLimit mw) buckets post := by
    rw [← hbuckets]
    exact Machine.outputs_append ..
  have hright : answers mw (pre ++ call :: post) = answers mw pre ++
      ((checkLimit mw buckets call).2 ::
        Machine.outputs (checkLimit mw) (checkLimit mw buckets call).1 post) := by
    rw [← hbuckets]
    exact Machine.outputs_append ..
  rw [hleft, hright, hsame, ← hlen, List.drop_append, List.drop_eq_nil_of_le (by omega)]
  simp

variable (mw) in
/-- What a sliding window promises of the answers to a sequence of calls. -/
structure SlidingWindowExact (calls : List (LimitCall τ)) : Prop where
  /-- A call is admitted exactly when fewer than `max_requests` earlier calls of its user were
  admitted in the window that ends at it. -/
  answer_iff : ∀ i (h : i < calls.length), (answers mw calls)[i]? = some true ↔
    (((admitted mw (calls.take i) calls[i].user_id).filter fun t =>
      calls[i].now - mw.window_seconds < t ∧ t ≤ calls[i].now).length : ℤ) < mw.max_requests
  /-- No interval `(a, a + w]` has more than `max_requests` admitted calls of a user. -/
  Ioc_le : ∀ user_id a, (((admitted mw calls user_id).filter fun t =>
    a < t ∧ t ≤ a + mw.window_seconds).length : ℤ) ≤ max mw.max_requests 0
  /-- No interval `[a, a + w)` has more than `max_requests` admitted calls of a user. -/
  Ico_le : ∀ user_id a, (((admitted mw calls user_id).filter fun t =>
    a ≤ t ∧ t < a + mw.window_seconds).length : ℤ) ≤ max mw.max_requests 0
  /-- Without a refused call, the other calls have the same answers. -/
  refused : ∀ pre call post, calls = pre ++ call :: post →
    (answers mw calls)[pre.length]? = some false →
      answers mw (pre ++ post) = answers mw pre ++ (answers mw calls).drop (pre.length + 1)
  /-- Without the calls of the others, a user's calls have the same answers. -/
  others : ∀ user_id, answersOf user_id calls (answers mw calls) =
    answers mw (calls.filter (·.user_id = user_id))

/-- On every sequence of calls at a clock that does not go back, `_check_limit` is an exact sliding
window. -/
theorem sliding_window_exact {calls : List (LimitCall τ)}
    (hclock : calls.Pairwise (·.now ≤ ·.now)) : SlidingWindowExact mw calls where
  answer_iff i h := by
    -- The clock is monotone in front of the call too, which then sees the whole window.
    have hprefix : (calls.take i ++ [calls[i]]).Pairwise (·.now ≤ ·.now) := by
      rw [← List.take_succ_eq_append_getElem h]
      exact hclock.sublist (List.take_sublist _ _)
    have hbefore : ∀ t ∈ admitted mw (calls.take i) calls[i].user_id, t ≤ calls[i].now := by
      intro t ht
      obtain ⟨c, hc, rfl⟩ := mem_admitted ht
      exact (List.pairwise_append.mp hprefix).2.2 c hc _ (by simp)
    rw [answers_getElem? calls h, Option.some_inj, ← recent_eq_window hbefore]
    exact checkLimit_answer_iff hprefix
  Ioc_le user_id a := (admitted_limited hclock user_id).length_Ioc_le a
  Ico_le user_id a := (admitted_limited hclock user_id).length_Ico_le a
  refused pre call post hcalls hanswer := by
    subst hcalls
    rw [answers_getElem? _ (by simp), Option.some_inj] at hanswer
    exact answers_of_refused hclock (by simpa using hanswer)
  others user_id := answersOf_eq user_id rfl calls

end Limiter

/-- Three calls of one user and one of another, at most two of a user in ten seconds. -/
theorem sliding_window_exact_three_calls :
    SlidingWindowExact { max_requests := 2, window_seconds := (10 : ℤ) }
      [⟨"key:a", 0⟩, ⟨"key:a", 1⟩, ⟨"ip:b", 1⟩, ⟨"key:a", 10⟩] :=
  sliding_window_exact (by simp)

end YellowBull
