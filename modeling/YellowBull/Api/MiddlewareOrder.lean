import YellowBull.Api.Middleware

/-!
# The order of the limiter and the authentication

`create_app` adds the limiter after the authentication, so that it runs before it: a request that
`APIKeyAuthMiddleware` refuses has passed `_check_limit`, which has put its time in the bucket of
its user. This is compared with the run in which the refused requests were never sent.

The buckets of the allowed keys are the same in both runs: a refused request carries no allowed key,
so that its bucket is another one. The bucket of any other user differs as soon as the user has sent
a request that is not exempt: what is in it are times of refused requests, and the other run has
only times of requests that the limiter has stopped.
-/

namespace YellowBull

section Order

variable {τ : Type*} {sec : SecuritySettings τ}

/-- The answers of `APIKeyAuthMiddleware`. -/
def refusedByAuth : Except HTTPException Unit → Bool
  | .ok () => false
  | .error e => e.status_code = 401 ∨ e.status_code = 403

variable (sec) in
/-- The request gets past the authentication, whatever the limiter says. -/
def SecuritySettings.Accepts (request : HttpRequest) : Prop :=
  sec.auth.exempts request = true ∨ apiKey request ≠ "" ∧ apiKey request ∈ sec.api_keys

instance (request : HttpRequest) : Decidable (sec.Accepts request) :=
  inferInstanceAs (Decidable (_ ∨ _))

/-! ## One request -/

/-- The authentication lets a request through just if it accepts it. -/
theorem auth_dispatch_ok_iff (request : HttpRequest) :
    sec.auth.dispatch request = .ok () ↔ sec.Accepts request := by
  unfold APIKeyAuthMiddleware.dispatch SecuritySettings.Accepts
  cases sec.auth.exempts request with
  | true => simp
  | false =>
    simp only [Bool.false_eq_true, if_false, false_or]
    by_cases hempty : apiKey request = ""
    · simp [hempty]
    · by_cases hmem : apiKey request ∈ sec.api_keys
      · simp [hempty, hmem, SecuritySettings.auth]
      · simp [hempty, hmem, SecuritySettings.auth]

/-- What the authentication raises is a 401 or a 403. -/
theorem refusedByAuth_dispatch (request : HttpRequest) :
    refusedByAuth (sec.auth.dispatch request) = true ↔ ¬ sec.Accepts request := by
  rw [← auth_dispatch_ok_iff]
  unfold APIKeyAuthMiddleware.dispatch
  split_ifs <;> simp [refusedByAuth]

/-- Which buckets the accepted requests name. -/
theorem accepts_iff (request : HttpRequest) : sec.Accepts request ↔
    sec.auth.exempts request = true ∨
      ∃ key ∈ sec.api_keys, key ≠ "" ∧ extractUserId request = "key:" ++ key := by
  unfold SecuritySettings.Accepts
  refine or_congr_right ?_
  rw [extractUserId_eq]
  constructor
  · rintro ⟨hempty, hmem⟩
    exact ⟨apiKey request, hmem, hempty, by rw [if_neg hempty]⟩
  · rintro ⟨key, hmem, hkey, huser⟩
    split_ifs at huser with hempty
    · -- An address is not a key.
      have hhead := congrArg (fun s => s.toList.head?) huser
      simp at hhead
    · obtain rfl := (String.append_right_inj "key:").mp huser
      exact ⟨hempty, hmem⟩

variable [AddCommGroup τ] [LinearOrder τ] [ToString τ]

/-- The limiter is the first that a request comes to. -/
theorem step_fst (buckets : Buckets τ) (r : TimedRequest τ) :
    (sec.step buckets r).1 = (dispatch sec.rateLimit buckets r.request r.now).1 := by
  unfold SecuritySettings.step SecuritySettings.stack
  simp only [addMiddleware, dispatchStack, Middleware.dispatch]
  obtain ⟨buckets', _ | _⟩ := dispatch sec.rateLimit buckets r.request r.now
  · rfl
  · cases sec.auth.dispatch r.request <;> rfl

/-- What a request leaves under a name, when it is not exempt. -/
theorem step_fst_of_not_exempts (buckets : Buckets τ) {r : TimedRequest τ}
    (h : sec.rateLimit.exempts r.request = false) : (sec.step buckets r).1 =
      (checkLimit sec.rateLimit buckets ⟨extractUserId r.request, r.now⟩).1 := by
  rw [step_fst, dispatch_fst, h, if_neg Bool.false_ne_true]

/-- An exempt request leaves the buckets as they are. -/
theorem step_fst_of_exempts (buckets : Buckets τ) {r : TimedRequest τ}
    (h : sec.rateLimit.exempts r.request = true) : (sec.step buckets r).1 = buckets := by
  rw [step_fst, dispatch_fst, if_pos h]

/-- The authentication refuses what the limiter lets through and it does not accept. -/
theorem refusedByAuth_step (buckets : Buckets τ) (r : TimedRequest τ) :
    refusedByAuth (sec.step buckets r).2 = true ↔
      (dispatch sec.rateLimit buckets r.request r.now).2 = .ok () ∧ ¬ sec.Accepts r.request := by
  rw [← refusedByAuth_dispatch]
  unfold SecuritySettings.step SecuritySettings.stack
  simp only [addMiddleware, dispatchStack, Middleware.dispatch]
  cases hlimit : dispatch sec.rateLimit buckets r.request r.now with
  | mk buckets' answer =>
    cases answer with
    | error e =>
      -- The limiter refuses with a status of its own.
      have he : e.status_code = 429 := by
        unfold dispatch at hlimit
        split_ifs at hlimit
        · cases hlimit
        · split at hlimit
          · cases hlimit
          · cases hlimit
            rfl
      simp [refusedByAuth, he]
    | ok =>
      cases hauth : sec.auth.dispatch r.request <;> simp [refusedByAuth]

/-- A time in a bucket was there before, or is that of a request that the limiter let through. -/
theorem mem_bucket_step {buckets : Buckets τ} {r : TimedRequest τ} {user_id : String} {t : τ}
    (h : t ∈ bucket (sec.step buckets r).1 user_id) : t ∈ bucket buckets user_id ∨
      sec.rateLimit.exempts r.request = false ∧ user_id = extractUserId r.request ∧
        (dispatch sec.rateLimit buckets r.request r.now).2 = .ok () ∧ t = r.now := by
  cases hexempt : sec.rateLimit.exempts r.request with
  | true =>
    rw [step_fst_of_exempts _ hexempt] at h
    exact .inl h
  | false =>
    rw [step_fst_of_not_exempts _ hexempt] at h
    -- Only the client's own bucket changes, and what it gets is the time of an accepted request.
    by_cases huser : user_id = extractUserId r.request
    · subst huser
      have hself := @bucket_checkLimit_self τ _ _ sec.rateLimit buckets
        ⟨extractUserId r.request, r.now⟩
      rw [hself, List.mem_append] at h
      rcases h with h | h
      · exact .inl (List.mem_of_mem_filter h)
      · split_ifs at h with hanswer
        · exact .inr ⟨rfl, rfl, (dispatch_ok_iff _ _ _).mpr (.inr hanswer),
            List.mem_singleton.mp h⟩
        · simp at h
    · rw [bucket_checkLimit_of_ne _ huser] at h
      exact .inl h

/-- A bucket with something in it, or of the user that sends the request, has something in it
afterwards. -/
theorem bucket_step_ne_nil (hmax : 0 < sec.rate_limit_requests) {buckets : Buckets τ}
    (r : TimedRequest τ) {user_id : String} (h : bucket buckets user_id ≠ [] ∨
      sec.rateLimit.exempts r.request = false ∧ user_id = extractUserId r.request) :
    bucket (sec.step buckets r).1 user_id ≠ [] := by
  cases hexempt : sec.rateLimit.exempts r.request with
  | true =>
    rw [step_fst_of_exempts _ hexempt]
    exact h.resolve_right (by simp [hexempt])
  | false =>
    rw [step_fst_of_not_exempts _ hexempt]
    by_cases huser : user_id = extractUserId r.request
    · subst huser
      exact @bucket_checkLimit_ne_nil τ _ _ sec.rateLimit hmax buckets
        ⟨extractUserId r.request, r.now⟩
    · rw [bucket_checkLimit_of_ne _ huser]
      exact h.resolve_right fun h => huser h.2

/-! ## Sequences of requests -/

variable (sec) in
/-- The buckets after a sequence of requests to a new app. -/
def bucketsAfter (rs : List (TimedRequest τ)) : Buckets τ := Machine.state sec.step .empty rs

variable (sec) in
/-- The requests that are left when those refused by the authentication are taken out. -/
def withoutRefused (rs : List (TimedRequest τ)) : List (TimedRequest τ) :=
  Machine.purge sec.step refusedByAuth .empty rs

/-- The buckets after one more request. -/
theorem bucketsAfter_concat (rs : List (TimedRequest τ)) (r : TimedRequest τ) :
    bucketsAfter sec (rs ++ [r]) = (sec.step (bucketsAfter sec rs) r).1 :=
  Machine.state_append ..

/-- One more request is left if the authentication does not refuse it. -/
theorem withoutRefused_concat (rs : List (TimedRequest τ)) (r : TimedRequest τ) :
    withoutRefused sec (rs ++ [r]) = withoutRefused sec rs ++
      if refusedByAuth (sec.step (bucketsAfter sec rs) r).2 then [] else [r] :=
  Machine.purge_append ..

/-- A bucket holds times of requests. -/
theorem exists_now_of_mem_bucket {rs : List (TimedRequest τ)} {user_id : String} {t : τ}
    (h : t ∈ bucket (bucketsAfter sec rs) user_id) : ∃ r ∈ rs, r.now = t := by
  induction rs using List.reverseRecOn with
  | nil => simp [bucketsAfter, Machine.state, bucket] at h
  | append_singleton rs r ih =>
    rw [bucketsAfter_concat] at h
    rcases mem_bucket_step h with hold | ⟨-, -, -, rfl⟩
    · obtain ⟨r', hr', hnow⟩ := ih hold
      exact ⟨r', by simp [hr'], hnow⟩
    · exact ⟨r, by simp, rfl⟩

/-- The bucket of a user that has sent a request that is not exempt is never empty again. -/
theorem bucket_ne_nil (hmax : 0 < sec.rate_limit_requests) {rs : List (TimedRequest τ)}
    {r : TimedRequest τ} (hr : r ∈ rs) (hexempt : sec.rateLimit.exempts r.request = false) :
    bucket (bucketsAfter sec rs) (extractUserId r.request) ≠ [] := by
  induction rs using List.reverseRecOn with
  | nil => simp at hr
  | append_singleton rs r' ih =>
    rw [bucketsAfter_concat]
    rcases List.mem_append.mp hr with hr | hr
    · exact bucket_step_ne_nil hmax r' (.inl (ih hr))
    · obtain rfl := List.mem_singleton.mp hr
      exact bucket_step_ne_nil hmax r (.inr ⟨hexempt, rfl⟩)

/-! ## With and without the refused requests -/

variable (sec) in
/-- The limiter is left as if the refused requests had never been sent. -/
def LimiterUntouched (rs : List (TimedRequest τ)) : Prop :=
  ∀ user_id, (bucketsAfter sec rs).get? user_id =
    (bucketsAfter sec (withoutRefused sec rs)).get? user_id

omit [AddCommGroup τ] [LinearOrder τ] [ToString τ] in
/-- With both on, the same requests are exempt from both. -/
theorem exempts_eq (hlimit : sec.rate_limit_enabled = true)
    (hauth : sec.api_key_auth_enabled = true) (request : HttpRequest) :
    sec.auth.exempts request = sec.rateLimit.exempts request := by
  unfold APIKeyAuthMiddleware.exempts RateLimitMiddleware.exempts
  rw [SecuritySettings.auth, SecuritySettings.rateLimit, hlimit, hauth]

/-- A refused request is in no bucket of an allowed key. -/
theorem get?_withoutRefused (rs : List (TimedRequest τ)) {key : String} (hmem : key ∈ sec.api_keys)
    (hkey : key ≠ "") : (bucketsAfter sec rs).get? ("key:" ++ key) =
      (bucketsAfter sec (withoutRefused sec rs)).get? ("key:" ++ key) := by
  refine Machine.state_purge
    (R := fun b b' : Buckets τ => b.get? ("key:" ++ key) = b'.get? ("key:" ++ key)) ?_ ?_ rfl rs
  · -- A request that is kept counts alike in both runs.
    intro b b' r hR _
    cases hexempt : sec.rateLimit.exempts r.request with
    | true => rwa [step_fst_of_exempts _ hexempt, step_fst_of_exempts _ hexempt]
    | false =>
      rw [step_fst_of_not_exempts _ hexempt, step_fst_of_not_exempts _ hexempt]
      exact get?_checkLimit_congr _ hR
  · -- One that is refused counts under the name of no allowed key.
    intro b b' r hR hrefused
    have hstranger := ((refusedByAuth_step _ _).mp hrefused).2
    rw [accepts_iff] at hstranger
    cases hexempt : sec.rateLimit.exempts r.request with
    | true => rwa [step_fst_of_exempts _ hexempt]
    | false =>
      rw [step_fst_of_not_exempts _ hexempt, get?_checkLimit_of_ne _ fun huser =>
        hstranger (.inr ⟨key, hmem, hkey, huser.symm⟩)]
      exact hR

/-- Nothing is refused by the authentication where it accepts all, or where the limiter lets nothing
come to it. -/
theorem withoutRefused_eq_self (hlimit : sec.rate_limit_enabled = true)
    (hauth : sec.api_key_auth_enabled = true) {rs : List (TimedRequest τ)}
    (h : sec.rate_limit_requests ≤ 0 ∨ ∀ r ∈ rs, sec.Accepts r.request) :
    withoutRefused sec rs = rs := by
  refine Machine.purge_eq_self ?_
  rcases h with hmax | haccept
  · have hall : ∀ r ∈ rs, True := fun _ _ => True.intro
    refine (Machine.EveryStep.of_forall hall _).mono fun b r _ => ?_
    by_contra hrefused
    obtain ⟨hok, hstranger⟩ := (refusedByAuth_step _ _).mp (Bool.eq_true_of_not_eq_false hrefused)
    rcases (dispatch_ok_iff _ _ _).mp hok with hexempt | hanswer
    · exact hstranger (.inl (by rw [exempts_eq hlimit hauth, hexempt]))
    · -- No call is admitted.
      have hlt := (checkLimit_answer _ _).mp hanswer
      change _ < sec.rate_limit_requests at hlt
      omega
  · refine (Machine.EveryStep.of_forall haccept _).mono fun b r hr => ?_
    by_contra hrefused
    exact ((refusedByAuth_step _ _).mp (Bool.eq_true_of_not_eq_false hrefused)).2 hr

/-- What is in the bucket of a user without an allowed key are times of refused requests. -/
theorem now_ne_of_mem_withoutRefused (hlimit : sec.rate_limit_enabled = true)
    (hauth : sec.api_key_auth_enabled = true) {rs : List (TimedRequest τ)}
    (hclock : rs.Pairwise (·.now ≠ ·.now)) {user_id : String}
    (huser : ∀ key ∈ sec.api_keys, key ≠ "" → user_id ≠ "key:" ++ key) {t : τ}
    (ht : t ∈ bucket (bucketsAfter sec rs) user_id) {r : TimedRequest τ}
    (hr : r ∈ withoutRefused sec rs) : r.now ≠ t := by
  -- Either the time or the request may be the last that came in.
  induction rs using List.reverseRecOn with
  | nil => simp [withoutRefused, Machine.purge] at hr
  | append_singleton rs r' ih =>
    obtain ⟨hrs, -, hlast⟩ := List.pairwise_append.mp hclock
    rw [bucketsAfter_concat] at ht
    rw [withoutRefused_concat] at hr
    rcases mem_bucket_step ht with hold | ⟨hexempt, rfl, hok, rfl⟩
    · rcases List.mem_append.mp hr with hr | hr
      · exact ih hrs hold hr
      · -- The request is later than all that the bucket knows of.
        split_ifs at hr
        · simp at hr
        · obtain rfl := List.mem_singleton.mp hr
          obtain ⟨r', hr', rfl⟩ := exists_now_of_mem_bucket hold
          exact (hlast r' hr' r (by simp)).symm
    · -- The limiter has let the request through to be refused.
      have hstranger : ¬ sec.Accepts r'.request := by
        rw [accepts_iff, exempts_eq hlimit hauth, hexempt]
        rintro (h | ⟨key, hmem, hkey, heq⟩)
        · simp at h
        · exact huser key hmem hkey heq
      rw [if_pos ((refusedByAuth_step _ _).mpr ⟨hok, hstranger⟩), List.append_nil] at hr
      exact hlast r ((Machine.purge_sublist _ _ _ _).subset hr) r' (by simp)

variable (sec) in
/-- What becomes of the limiter when the refused requests are taken out of a run. -/
structure RefusedRequests (rs : List (TimedRequest τ)) : Prop where
  /-- The quota of an allowed key is the same. -/
  quota : ∀ key ∈ sec.api_keys, key ≠ "" → (bucketsAfter sec rs).get? ("key:" ++ key) =
    (bucketsAfter sec (withoutRefused sec rs)).get? ("key:" ++ key)
  /-- All buckets are the same when every request gets past the authentication, and when the limiter
  lets nothing through. -/
  untouched : (sec.rate_limit_requests ≤ 0 ∨ ∀ r ∈ rs, sec.Accepts r.request) →
    LimiterUntouched sec rs
  /-- Where no two requests come at the same time, only then. -/
  only_then : rs.Pairwise (·.now ≠ ·.now) → LimiterUntouched sec rs →
    sec.rate_limit_requests ≤ 0 ∨ ∀ r ∈ rs, sec.Accepts r.request

/-- The refused requests leave no trace in the buckets of the allowed keys, and a trace in the
others as soon as there is one of them. -/
theorem refusedRequests (hlimit : sec.rate_limit_enabled = true)
    (hauth : sec.api_key_auth_enabled = true) (rs : List (TimedRequest τ)) :
    RefusedRequests sec rs where
  quota _ hmem hkey := get?_withoutRefused rs hmem hkey
  untouched h user_id := by rw [withoutRefused_eq_self hlimit hauth h]
  only_then hclock huntouched := by
    by_contra hnot
    obtain ⟨hmax, hall⟩ := not_or.mp hnot
    rw [not_le] at hmax
    obtain ⟨r, hr, hstranger⟩ : ∃ r ∈ rs, ¬ sec.Accepts r.request := by simpa using hall
    rw [accepts_iff, exempts_eq hlimit hauth, not_or, Bool.not_eq_true] at hstranger
    obtain ⟨hexempt, hkeys⟩ := hstranger
    -- The bucket of the sender has a time that the other run cannot have.
    obtain ⟨t, ht⟩ := List.exists_mem_of_ne_nil _ (bucket_ne_nil hmax hr hexempt)
    have hbucket : bucket (bucketsAfter sec rs) (extractUserId r.request) =
        bucket (bucketsAfter sec (withoutRefused sec rs)) (extractUserId r.request) := by
      rw [bucket, bucket, huntouched]
    obtain ⟨r', hr', hnow⟩ := exists_now_of_mem_bucket (hbucket ▸ ht)
    exact now_ne_of_mem_withoutRefused hlimit hauth hclock
      (fun key hmem hkey heq => hkeys ⟨key, hmem, hkey, heq⟩) ht hr' hnow

end Order

/-- A chat with this `X-API-Key`. -/
def chatWithKey (key : String) : HttpRequest where
  path := "/api/chat"
  headers := [("x-api-key", key)]
  client_host := none

/-- A request with a wrong key leaves a bucket behind. -/
theorem not_limiterUntouched_wrong_key : ¬ LimiterUntouched
    { rate_limit_enabled := true, rate_limit_window_seconds := (60 : ℤ),
      api_key_auth_enabled := true, api_keys := ["k"] }
    [⟨chatWithKey "wrong", 0⟩] := by
  intro h
  have hbucket := h "key:wrong"
  simp [bucketsAfter, withoutRefused, Machine.state, Machine.purge, SecuritySettings.step,
    SecuritySettings.stack, addMiddleware, dispatchStack, Middleware.dispatch, dispatch,
    RateLimitMiddleware.exempts, SecuritySettings.rateLimit, checkLimit, bucket, extractUserId,
    APIKeyAuthMiddleware.dispatch, APIKeyAuthMiddleware.exempts, SecuritySettings.auth, apiKey,
    refusedByAuth, chatWithKey] at hbucket

/-- Two requests with the allowed key and one with another. -/
theorem refusedRequests_three_requests : RefusedRequests
    { rate_limit_enabled := true, rate_limit_window_seconds := (60 : ℤ),
      api_key_auth_enabled := true, api_keys := ["k"] }
    [⟨chatWithKey "k", 0⟩, ⟨chatWithKey "wrong", 1⟩, ⟨chatWithKey "k", 2⟩] :=
  refusedRequests rfl rfl _

end YellowBull
