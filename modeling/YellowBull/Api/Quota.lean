import YellowBull.Agent.Bounds
import YellowBull.Api.Authentication

/-!
# The quota of the app

What the limiter is worth to the agent behind it. A request that is posted and not exempt gets to
the agent only where `_check_limit` admits it, and one call of the agent makes at most
`max_chain_depth` calls of the LLM. So in any run of connections the limited requests of one user,
by key or by address, that come within a window cost at most so many calls (`llm_calls_limited`).
WebSockets are not limited, and count for nobody; nor are requests whose `Host` header makes the
path of their URL an exempt one, and these get to the agent all the same.

A request that is refused is told to come back after the window, and by then the limiter has
forgotten all that it knew (`retry_after_kept`).
-/

namespace YellowBull

open SlidingWindow

section Quota

variable {τ : Type*}

/-- The call of `_check_limit` that a connection makes. A request that is posted makes one, unless
the path of its URL is exempt. -/
def Connection.limitCall (sec : SecuritySettings τ) : Connection τ → Option (LimitCall τ)
  | .post request now _ _ =>
    if sec.rateLimit.exempts request then none else some ⟨extractUserId request, now⟩
  | .websocket _ _ => none

variable [AddCommGroup τ] [LinearOrder τ] [ToString τ]
variable (P : Platform) (cfg : AgentConfig) (reg : ToolRegistry) (sec : SecuritySettings τ)

/-- What the agent did in a run for the requests of a user that are limited, at times that meet
`p`. -/
def servedTo (user_id : String) (p : τ → Prop) [DecidablePred p] (app : App τ)
    (conns : List (Connection τ)) : List Served :=
  ((conns.zip (Machine.outputs (App.serve P cfg reg sec) app conns)).filter
    fun c => ∃ call ∈ c.1.limitCall sec, call.user_id = user_id ∧ p call.now).map Prod.snd

/-- The calls of `_check_limit` in a run. -/
def limitCalls (conns : List (Connection τ)) : List (LimitCall τ) :=
  conns.filterMap (Connection.limitCall sec)

variable {P cfg reg sec}

/-! ## One connection -/

/-- What a connection leaves in the buckets. -/
theorem serve_buckets (app : App τ) (c : Connection τ) :
    (app.serve P cfg reg sec c).1.buckets =
      Machine.state (checkLimit sec.rateLimit) app.buckets (c.limitCall sec).toList := by
  cases c with
  | post request now body out =>
    have hbuckets : (app.serve P cfg reg sec (.post request now body out)).1.buckets =
        (sec.step app.buckets ⟨request, now⟩).1 := rfl
    rw [hbuckets, step_fst, dispatch_fst, Connection.limitCall]
    split_ifs <;> rfl
  | websocket request frames => rfl

/-- A limited request that gets to the agent was admitted. -/
theorem admitted_of_requests_ne_nil {app : App τ} {c : Connection τ} {call : LimitCall τ}
    (hcall : c.limitCall sec = some call) (h : (app.serve P cfg reg sec c).2.requests ≠ []) :
    (checkLimit sec.rateLimit app.buckets call).2 = true := by
  cases c with
  | post request now body out =>
    rw [Connection.limitCall] at hcall
    split_ifs at hcall with hexempt
    obtain rfl := Option.some.inj hcall
    have hserve : (app.serve P cfg reg sec (.post request now body out)).2 =
        app.handle P cfg reg (dispatchStack sec.stack app.buckets request now).2 request body out :=
      rfl
    rw [hserve, handle_requests_ne_nil, dispatchStack_ok_iff] at h
    exact ((dispatch_ok_iff ..).mp h.1.1).resolve_left hexempt
  | websocket request frames => cases hcall

/-- A chat makes at most `max_chain_depth` calls of the LLM. -/
theorem length_chat_llm_calls_le (O : Behaviour) (s : Session) (cache : Cache)
    (request : ChatRequest) :
    (chat P cfg reg O s cache request).llm_calls.length ≤ cfg.max_chain_depth.toNat :=
  (length_loopBatches_le _ _ _ _ _).2

/-- What one request that is posted may cost. -/
theorem served_post (app : App τ) (request : HttpRequest) (now : τ) (body : Option ChatRequest)
    (out : Outside) :
    let served := (app.serve P cfg reg sec (.post request now body out)).2
    served.requests.length ≤ 1 ∧ served.llm_calls.length ≤ cfg.max_chain_depth.toNat ∧
      (served.requests = [] → served.llm_calls = []) := by
  have hserve : (app.serve P cfg reg sec (.post request now body out)).2 =
      app.handle P cfg reg (dispatchStack sec.stack app.buckets request now).2 request body out :=
    rfl
  rw [hserve]
  unfold App.handle
  -- Only a request that passes the stack, on a route with a body, gets to the agent.
  split
  · next route body _ _ =>
    cases route with
    | chat => exact ⟨le_rfl, length_chat_llm_calls_le .., fun h => by cases h⟩
    | stream =>
      unfold handlePost
      simp only [streamChatResponse_eq]
      exact ⟨le_rfl, Nat.zero_le _, fun h => by cases h⟩
  · exact ⟨Nat.zero_le _, Nat.zero_le _, fun _ => rfl⟩

/-! ## Runs -/

/-- The buckets after a run of a new app. -/
theorem buckets_run {app : App τ} (hnew : app.buckets = .empty) (conns : List (Connection τ)) :
    (Machine.state (App.serve P cfg reg sec) app conns).buckets =
      Machine.state (checkLimit sec.rateLimit) .empty (limitCalls sec conns) := by
  induction conns using List.reverseRecOn with
  | nil => exact hnew
  | append_singleton conns c ih =>
    have hlast : (Machine.state (App.serve P cfg reg sec) app (conns ++ [c])).buckets =
        ((Machine.state (App.serve P cfg reg sec) app conns).serve P cfg reg sec c).1.buckets := by
      rw [Machine.state_append]
      rfl
    rw [hlast, serve_buckets, ih, ← Machine.state_append, limitCalls, limitCalls,
      List.filterMap_append]
    cases hcall : c.limitCall sec <;> simp [hcall]

/-- One more connection counts if it is a limited request of the user, in time. -/
theorem servedTo_concat {user_id : String} {p : τ → Prop} [DecidablePred p] (app : App τ)
    (conns : List (Connection τ)) (c : Connection τ) :
    servedTo P cfg reg sec user_id p app (conns ++ [c]) =
      servedTo P cfg reg sec user_id p app conns ++
        if ∃ call ∈ c.limitCall sec, call.user_id = user_id ∧ p call.now then
          [((Machine.state (App.serve P cfg reg sec) app conns).serve P cfg reg sec c).2]
        else [] := by
  have hlen : conns.length = (Machine.outputs (App.serve P cfg reg sec) app conns).length :=
    (Machine.length_outputs ..).symm
  unfold servedTo
  rw [Machine.outputs_append, List.zip_append hlen, List.filter_append, List.map_append]
  -- The outputs of the longer run are those of the shorter one and that of the last connection.
  congr 1
  simp only [Machine.outputs, List.zip_cons_cons, List.zip_nil_right]
  split_ifs with h
  · rw [List.filter_cons_of_pos (by simpa using h)]
    rfl
  · rw [List.filter_cons_of_neg (by simpa using h)]
    rfl

variable (P cfg reg) in
/-- What costs at most `K`, and nothing where no request gets to the agent, costs at most `K` for
each call of the user that is admitted. -/
theorem sum_servedTo_le {app : App τ} (hnew : app.buckets = .empty) (cost : Served → ℕ) (K : ℕ)
    (hcost : ∀ app c call, Connection.limitCall sec c = some call →
      cost (App.serve P cfg reg sec app c).2 ≤ K ∧
        ((App.serve P cfg reg sec app c).2.requests = [] →
          cost (App.serve P cfg reg sec app c).2 = 0))
    (user_id : String) (p : τ → Prop) [DecidablePred p] (conns : List (Connection τ)) :
    ((servedTo P cfg reg sec user_id p app conns).map cost).sum ≤
      ((admitted sec.rateLimit (limitCalls sec conns) user_id).filter p).length * K := by
  induction conns using List.reverseRecOn with
  | nil => exact Nat.zero_le _
  | append_singleton conns c ih =>
    rw [servedTo_concat, List.map_append, List.sum_append]
    generalize hserved : (Machine.state (App.serve P cfg reg sec) app conns).serve P cfg reg sec c =
      served
    have hbuckets := @buckets_run τ _ _ _ P cfg reg sec app hnew conns
    -- The admitted calls only grow.
    have hgrow : ((admitted sec.rateLimit (limitCalls sec conns) user_id).filter p).length * K ≤
        ((admitted sec.rateLimit (limitCalls sec (conns ++ [c])) user_id).filter p).length * K := by
      refine Nat.mul_le_mul_right _ ?_
      rw [limitCalls, limitCalls, List.filterMap_append]
      cases hcall : c.limitCall sec with
      | none => simp [hcall]
      | some call =>
        simp only [List.filterMap_cons, hcall, List.filterMap_nil, admitted_append_singleton,
          List.filter_append, List.length_append]
        omega
    split_ifs with hmine
    · obtain ⟨call, hcall, huser, hp⟩ := hmine
      obtain ⟨hle, hzero⟩ := hcost (Machine.state (App.serve P cfg reg sec) app conns) c call hcall
      rw [hserved] at hle hzero
      rw [List.map_singleton, List.sum_singleton]
      by_cases hrequests : served.2.requests = []
      · rw [hzero hrequests, Nat.add_zero]
        exact ih.trans hgrow
      · -- This request is one of the admitted calls.
        rw [← hserved] at hrequests
        have hanswer := admitted_of_requests_ne_nil hcall hrequests
        rw [hbuckets] at hanswer
        have hcalls : limitCalls sec (conns ++ [c]) = limitCalls sec conns ++ [call] := by
          rw [limitCalls, limitCalls, List.filterMap_append, List.filterMap_cons,
            Option.mem_def.mp hcall]
          rfl
        rw [hcalls, admitted_append_singleton, if_pos ⟨huser, hanswer⟩, List.filter_append,
          List.filter_cons_of_pos (by simpa using hp), List.filter_nil, List.length_append,
          List.length_singleton, Nat.add_mul, Nat.one_mul]
        exact Nat.add_le_add ih hle
    · rw [List.map_nil, List.sum_nil, Nat.add_zero]
      exact ih.trans hgrow

variable [IsOrderedAddMonoid τ]

/-- In any run of connections to a new app, the requests of a user that are limited and come in a
half-open interval as long as the window get at most `rate_limit_requests` times to the agent, and
cost at most `max_chain_depth` calls of the LLM each: together at most the product. -/
theorem llm_calls_limited {app : App τ} (hnew : app.buckets = .empty)
    {conns : List (Connection τ)} (hclock : (limitCalls sec conns).Pairwise (·.now ≤ ·.now))
    (user_id : String) (a : τ) :
    let served := servedTo P cfg reg sec user_id
      (fun t => a < t ∧ t ≤ a + sec.rate_limit_window_seconds) app conns
    (served.map (·.requests.length)).sum ≤ sec.rate_limit_requests.toNat ∧
      (served.map (·.llm_calls.length)).sum ≤
        sec.rate_limit_requests.toNat * cfg.max_chain_depth.toNat := by
  have hlimited : Limited sec.rateLimit.max_requests sec.rateLimit.window_seconds
      (admitted sec.rateLimit (limitCalls sec conns) user_id) :=
    admitted_limited hclock user_id
  -- The admitted requests of the client in the window are at most the limit, by the limiter's run.
  have hcount : (((admitted sec.rateLimit (limitCalls sec conns) user_id).filter fun t =>
      a < t ∧ t ≤ a + sec.rate_limit_window_seconds).length : ℤ) ≤
        max sec.rate_limit_requests 0 := hlimited.length_Ioc_le a
  have hmax : ((admitted sec.rateLimit (limitCalls sec conns) user_id).filter fun t =>
      a < t ∧ t ≤ a + sec.rate_limit_window_seconds).length ≤ sec.rate_limit_requests.toNat := by
    omega
  -- Each of them makes at most one chat, and a chat at most the depth's number of calls.
  have hpost (app : App τ) (c : Connection τ) (call : LimitCall τ)
      (hcall : c.limitCall sec = some call) :
      (App.serve P cfg reg sec app c).2.requests.length ≤ 1 ∧
        (App.serve P cfg reg sec app c).2.llm_calls.length ≤ cfg.max_chain_depth.toNat ∧
        ((App.serve P cfg reg sec app c).2.requests = [] →
          (App.serve P cfg reg sec app c).2.llm_calls = []) := by
    cases c with
    | post request now body out => exact served_post app request now body out
    | websocket request frames => cases hcall
  constructor
  · have hsum := sum_servedTo_le P cfg reg hnew (fun served => served.requests.length) 1
      (fun app c call hcall => ⟨(hpost app c call hcall).1, fun h => by rw [h]; rfl⟩) user_id
      (fun t => a < t ∧ t ≤ a + sec.rate_limit_window_seconds) conns
    rw [Nat.mul_one] at hsum
    exact hsum.trans hmax
  · have hsum := sum_servedTo_le P cfg reg hnew (fun served => served.llm_calls.length)
      cfg.max_chain_depth.toNat (fun app c call hcall => ⟨(hpost app c call hcall).2.1,
        fun h => by rw [(hpost app c call hcall).2.2 h]; rfl⟩) user_id
      (fun t => a < t ∧ t ≤ a + sec.rate_limit_window_seconds) conns
    exact hsum.trans (Nat.mul_le_mul_right _ hmax)

end Quota

/-! ## Coming back -/

section Retry

variable {τ : Type*} [AddCommGroup τ] [LinearOrder τ] {mw : RateLimitMiddleware τ}

/-- The admitted calls of a user grow. -/
theorem admitted_of_part (pre post : List (LimitCall τ)) (user_id : String) :
    admitted mw pre user_id <+: admitted mw (pre ++ post) user_id := by
  induction post using List.reverseRecOn with
  | nil => rw [List.append_nil]
  | append_singleton post call ih =>
    rw [← List.append_assoc, admitted_append_singleton]
    exact ih.trans (List.prefix_append ..)

variable [IsOrderedAddMonoid τ] [ToString τ]

/-- A request that the limiter refuses is told to come back after `window_seconds`. From then on its
user is let in, whoever else has come, unless `max_requests` of the user's own calls have been
admitted since. The calls that were refused, this one and any others, do not count. -/
theorem retry_after_kept {pre mid : List (LimitCall τ)} {request request' : HttpRequest}
    {now now' : τ} {e : HTTPException}
    (hrefused : (dispatch mw (Machine.state (checkLimit mw) .empty pre) request now).2 = .error e)
    (huser : extractUserId request' = extractUserId request)
    (hclock : (pre ++ ⟨extractUserId request, now⟩ :: mid ++
      [⟨extractUserId request', now'⟩] : List (LimitCall τ)).Pairwise (·.now ≤ ·.now))
    (hwait : now + mw.window_seconds ≤ now')
    (hfew : ((admitted mw (pre ++ ⟨extractUserId request, now⟩ :: mid)
      (extractUserId request)).length : ℤ) <
        (admitted mw pre (extractUserId request)).length + mw.max_requests) :
    e.status_code = 429 ∧ e.headers = [("Retry-After", toString mw.window_seconds)] ∧
      (dispatch mw (Machine.state (checkLimit mw) .empty
        (pre ++ ⟨extractUserId request, now⟩ :: mid)) request' now').2 = .ok () := by
  have hanswer : e.status_code = 429 ∧
      e.headers = [("Retry-After", toString mw.window_seconds)] := by
    unfold dispatch at hrefused
    split_ifs at hrefused
    split at hrefused
    · cases hrefused
    · obtain rfl := Except.error.inj hrefused
      exact ⟨rfl, rfl⟩
  refine ⟨hanswer.1, hanswer.2, (dispatch_ok_iff ..).mpr (.inr ?_)⟩
  rw [checkLimit_answer_iff hclock, huser]
  obtain ⟨since, hsince⟩ := @admitted_of_part τ _ _ mw pre
    (⟨extractUserId request, now⟩ :: mid) (extractUserId request)
  -- What was admitted before the refused call is over.
  have hold : recent mw.window_seconds now' (admitted mw pre (extractUserId request)) = [] := by
    refine List.filter_eq_nil_iff.mpr fun t ht => ?_
    obtain ⟨call, hcall, rfl⟩ := mem_admitted ht
    have hbefore : call.now ≤ now := by
      rw [List.append_assoc] at hclock
      exact (List.pairwise_append.mp hclock).2.2 call hcall _ List.mem_cons_self
    have hle : call.now ≤ now' - mw.window_seconds := by
      calc call.now ≤ now := hbefore
        _ ≤ now' - mw.window_seconds := le_sub_iff_add_le.mpr hwait
    simpa using hle
  have hcount : (recent mw.window_seconds now' since).length ≤ since.length :=
    List.length_filter_le ..
  rw [← hsince, List.length_append] at hfew
  rw [← hsince, recent_append, hold, List.nil_append]
  change ((recent mw.window_seconds now' since).length : ℤ) < mw.max_requests
  push_cast at hfew
  omega

end Retry

/-- A request of one user. -/
def postAt (now : ℤ) : Connection ℤ :=
  .post (chatWithKey "k") now (some { user_id := "u", message := "hi" })
    ⟨"s", 0, .scripted [{ content := some "ok" }] (.error ⟨.other, ""⟩), .deltas []⟩

/-- A WebSocket that sends nothing. -/
def silentWebsocket : Connection ℤ :=
  .websocket { path := "/ws/chat", headers := [], client_host := none } []

/-- Three requests to a new app, of which the limiter lets two through in a minute, and a WebSocket
beside them. -/
theorem llm_calls_limited_three_posts :
    let sec : SecuritySettings ℤ :=
      { rate_limit_enabled := true, rate_limit_requests := 2, rate_limit_window_seconds := 60 }
    let conns := [postAt 1, postAt 2, silentWebsocket, postAt 3]
    let served := servedTo .bare { system_prompt := "p" } .empty sec "key:k"
      (fun t => 0 < t ∧ t ≤ 0 + 60) { agent := .start .empty, buckets := .empty } conns
    limitCalls sec conns = [⟨"key:k", 1⟩, ⟨"key:k", 2⟩, ⟨"key:k", 3⟩] ∧
      (served.map (·.requests.length)).sum ≤ (2 : ℤ).toNat ∧
      (served.map (·.llm_calls.length)).sum ≤ (2 : ℤ).toNat * (100 : ℤ).toNat := by
  intro sec conns
  have hexempt : sec.rateLimit.exempts (chatWithKey "k") = false := by
    simp [sec, SecuritySettings.rateLimit, RateLimitMiddleware.exempts, chatWithKey]
  have hpost (now : ℤ) : (postAt now).limitCall sec = some ⟨"key:k", now⟩ := by
    rw [postAt, Connection.limitCall, hexempt]
    rfl
  -- The connection of the WebSocket is not seen by the limiter.
  have hcalls : limitCalls sec conns = [⟨"key:k", 1⟩, ⟨"key:k", 2⟩, ⟨"key:k", 3⟩] := by
    simp only [limitCalls, conns, List.filterMap_cons, hpost]
    rfl
  have hclock : (limitCalls sec conns).Pairwise (·.now ≤ ·.now) := by
    rw [hcalls]
    decide
  exact ⟨hcalls, llm_calls_limited rfl hclock "key:k" 0⟩

/-- After the window, the user that was refused is let in. -/
theorem retry_after_kept_one_user :
    let mw : RateLimitMiddleware ℤ := { max_requests := 1, window_seconds := 60 }
    let request := chatWithKey "k"
    ∃ e, (dispatch mw (Machine.state (checkLimit mw) .empty [⟨"key:k", 0⟩]) request 5).2 =
        .error e ∧ e.status_code = 429 ∧ e.headers = [("Retry-After", "60")] ∧
      (dispatch mw (Machine.state (checkLimit mw) .empty [⟨"key:k", 0⟩, ⟨"key:k", 5⟩])
        request 65).2 = .ok () := by
  intro mw request
  have hclock : ([⟨"key:k", 0⟩, ⟨"key:k", 5⟩, ⟨"key:k", 65⟩] : List (LimitCall ℤ)).Pairwise
      (·.now ≤ ·.now) := by
    decide
  -- Between the refusal and the retry the client has been admitted no further.
  have hfew : ((admitted mw [⟨"key:k", 0⟩, ⟨"key:k", 5⟩] "key:k").length : ℤ) <
      (admitted mw [⟨"key:k", 0⟩] "key:k").length + mw.max_requests := by
    decide
  have hexempt : mw.exempts request = false := by
    simp [mw, request, RateLimitMiddleware.exempts, chatWithKey]
  obtain ⟨e, he⟩ : ∃ e, (dispatch mw (Machine.state (checkLimit mw) .empty [⟨"key:k", 0⟩]) request
      5).2 = .error e := by
    unfold dispatch
    rw [hexempt]
    exact ⟨_, rfl⟩
  exact ⟨e, he, @retry_after_kept ℤ _ _ mw _ _ [⟨"key:k", 0⟩] [] request request 5 65 e he rfl
    hclock (by decide) hfew⟩

end YellowBull
