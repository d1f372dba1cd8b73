import YellowBull.Api.MiddlewareOrder
import YellowBull.Api.Server

/-!
# The ways in

Which connections get a message to the agent, against the keys that they present. An HTTP request
gets past `APIKeyAuthMiddleware` with an allowed key in `X-API-Key`, or with an `Authorization` from
which an allowed key is left when every `Bearer ` is taken out, whether it had one or not. It also
does without a key when its `Host` header makes the path of its URL one that is exempt, while it is
routed by the path that it asked for. A WebSocket gets to the agent with its first frame, whatever
its headers.
-/

namespace YellowBull

section Ways

variable {τ : Type*}

/-- A key that the app was given. An empty one counts as missing. -/
def AllowedKey (sec : SecuritySettings τ) (key : String) : Prop := key ≠ "" ∧ key ∈ sec.api_keys

instance (sec : SecuritySettings τ) (key : String) : Decidable (AllowedKey sec key) :=
  inferInstanceAs (Decidable (_ ∧ _))

/-- The request has an allowed key as its bearer token. -/
def PresentsToken (sec : SecuritySettings τ) (request : HttpRequest) : Prop :=
  ∃ key, AllowedKey sec key ∧ request.headers.lookup "authorization" = some ("Bearer " ++ key)

/-- The request has an allowed key in `X-API-Key` or as its bearer token. -/
def Presents (sec : SecuritySettings τ) (request : HttpRequest) : Prop :=
  (∃ key, AllowedKey sec key ∧ request.headers.lookup "x-api-key" = some key) ∨
    PresentsToken sec request

/-- The request that opens a connection. -/
def Connection.request : Connection τ → HttpRequest
  | .post request _ _ _ => request
  | .websocket request _ => request

/-- The frame gives the agent a message. -/
def Frame.IsData : Frame → Prop
  | .data _ _ => True
  | .raises => False

/-- The connections on which a key is asked for where a message gets to the agent. -/
def Guarded [AddCommGroup τ] [LinearOrder τ] [ToString τ] (sec : SecuritySettings τ) (app : App τ) :
    Connection τ → Prop
  | .post request now body _ =>
    -- It is turned away whatever its key.
    ((dispatch sec.rateLimit app.buckets request now).2 ≠ .ok () ∨
      chatRoute request.path = none ∨ body = none) ∨
    if sec.auth.exempts request then Presents sec request
    else
      -- Its key is not read from `Authorization`, or what is there is a bearer token, or it is
      -- refused.
      (request.headers.lookup "x-api-key").getD "" ≠ "" ∨ PresentsToken sec request ∨
        ¬ AllowedKey sec (apiKey request)
  | .websocket request frames =>
    Presents sec request ∨ request.path ≠ "/ws/chat" ∨ ∀ frame ∈ frames.head?, ¬ frame.1.IsData

/-! ## HTTP requests -/

variable {sec : SecuritySettings τ}

/-- With an `X-API-Key`, the key that is read is that one. -/
theorem apiKey_of_own {request : HttpRequest}
    (hown : (request.headers.lookup "x-api-key").getD "" ≠ "") :
    request.headers.lookup "x-api-key" = some (apiKey request) := by
  unfold apiKey
  rw [if_neg hown]
  cases hlookup : request.headers.lookup "x-api-key" with
  | none => simp [hlookup] at hown
  | some key => rfl

/-- Where the key that is read is allowed, the request presents one, unless the key was left of an
`Authorization` that is no bearer token. -/
theorem presents_iff_of_allowed {request : HttpRequest} (hkey : AllowedKey sec (apiKey request)) :
    Presents sec request ↔
      (request.headers.lookup "x-api-key").getD "" ≠ "" ∨ PresentsToken sec request := by
  constructor
  · rintro (⟨key, hallowed, hlookup⟩ | htoken)
    · exact .inl (by rw [hlookup]; exact hallowed.1)
    · exact .inr htoken
  · rintro (hown | htoken)
    · exact .inl ⟨apiKey request, hkey, apiKey_of_own hown⟩
    · exact .inr htoken

/-- What it takes for a request that the authentication accepts to present a key. -/
theorem presents_of_accepts_iff (request : HttpRequest) :
    (sec.Accepts request → Presents sec request) ↔
      if sec.auth.exempts request then Presents sec request
      else (request.headers.lookup "x-api-key").getD "" ≠ "" ∨ PresentsToken sec request ∨
        ¬ AllowedKey sec (apiKey request) := by
  split_ifs with hexempt
  · -- No key is asked for.
    exact ⟨fun h => h (.inl hexempt), fun h _ => h⟩
  · have haccepts : sec.Accepts request ↔ AllowedKey sec (apiKey request) := or_iff_right hexempt
    rw [haccepts]
    constructor
    · intro h
      by_cases hkey : AllowedKey sec (apiKey request)
      · rcases (presents_iff_of_allowed hkey).mp (h hkey) with hown | htoken
        · exact .inl hown
        · exact .inr (.inl htoken)
      · exact .inr (.inr hkey)
    · intro hguarded hkey
      rw [presents_iff_of_allowed hkey]
      rcases hguarded with hown | htoken | hrefused
      · exact .inl hown
      · exact .inr htoken
      · exact absurd hkey hrefused

variable (P : Platform) (cfg : AgentConfig) (reg : ToolRegistry)

/-- A request that is posted gets to the agent when it is let through to an endpoint with a valid
body. -/
theorem handle_requests_ne_nil (app : App τ) (answer : Except HTTPException Unit)
    (request : HttpRequest) (body : Option ChatRequest) (out : Outside) :
    (app.handle P cfg reg answer request body out).requests ≠ [] ↔
      answer = .ok () ∧ (∃ route, chatRoute request.path = some route) ∧ ∃ b, body = some b := by
  unfold App.handle
  cases answer with
  | error e => simp
  | ok =>
    cases chatRoute request.path with
    | none => simp
    | some route =>
      cases body with
      | none => simp
      | some b => cases route <;> simp [handlePost]

/-- A WebSocket gets to the agent with its first frame. -/
theorem websocketChat_requests_ne_nil (c : Conversation) (frames : List (Frame × Outside))
    (h : AgentState MemoryStore) : (websocketChat P cfg reg c frames h).requests ≠ [] ↔
      ∃ frame ∈ frames.head?, frame.1.IsData := by
  cases frames with
  | nil => simp [websocketChat]
  | cons frame frames =>
    obtain ⟨frame, out⟩ := frame
    cases frame with
    | raises => simp [websocketChat, Frame.IsData]
    | data message user_id =>
      rw [websocketChat]
      simp only [List.head?_cons, Option.mem_some_iff, exists_eq_left', Frame.IsData, iff_true]
      split <;> simp

variable [AddCommGroup τ] [LinearOrder τ] [ToString τ]

/-- The stack lets a request through when the limiter and the authentication do. -/
theorem dispatchStack_ok_iff (buckets : Buckets τ) (request : HttpRequest) (now : τ) :
    (dispatchStack sec.stack buckets request now).2 = .ok () ↔
      (dispatch sec.rateLimit buckets request now).2 = .ok () ∧ sec.Accepts request := by
  rw [← auth_dispatch_ok_iff]
  unfold SecuritySettings.stack
  simp only [addMiddleware, dispatchStack, Middleware.dispatch]
  obtain ⟨buckets', _ | _⟩ := dispatch sec.rateLimit buckets request now
  · simp
  · cases sec.auth.dispatch request <;> simp

/-- A message gets to the agent only with an allowed key, on just the connections that are
guarded. -/
theorem authenticated_iff (app : App τ) (c : Connection τ) :
    ((app.serve P cfg reg sec c).2.requests ≠ [] → Presents sec c.request) ↔
      Guarded sec app c := by
  cases c with
  | post request now body out =>
    have hserve : (app.serve P cfg reg sec (.post request now body out)).2 =
        app.handle P cfg reg (dispatchStack sec.stack app.buckets request now).2 request body out :=
      rfl
    rw [hserve, handle_requests_ne_nil, dispatchStack_ok_iff]
    change _ → Presents sec request ↔ _
    rw [Option.ne_none_iff_exists'.symm, Option.ne_none_iff_exists'.symm]
    change _ ↔ ((dispatch sec.rateLimit app.buckets request now).2 ≠ .ok () ∨
      chatRoute request.path = none ∨ body = none) ∨ _
    rw [← presents_of_accepts_iff]
    constructor
    · intro h
      by_cases haway : (dispatch sec.rateLimit app.buckets request now).2 ≠ .ok () ∨
        chatRoute request.path = none ∨ body = none
      · exact .inl haway
      · rw [not_or, not_not, not_or] at haway
        obtain ⟨hlimit, hroute, hbody⟩ := haway
        exact .inr fun haccepts => h ⟨⟨hlimit, haccepts⟩, hroute, hbody⟩
    · rintro (haway | h) ⟨⟨hlimit, haccepts⟩, hroute, hbody⟩
      · rcases haway with hlimit' | hroute' | hbody'
        · exact absurd hlimit hlimit'
        · exact absurd hroute' hroute
        · exact absurd hbody' hbody
      · exact h haccepts
  | websocket request frames =>
    have hserve : (app.serve P cfg reg sec (.websocket request frames)).2.requests ≠ [] ↔
        request.path = "/ws/chat" ∧ ∃ frame ∈ frames.head?, frame.1.IsData := by
      rw [← websocketChat_requests_ne_nil P cfg reg {} frames app.agent]
      unfold App.serve
      by_cases hpath : request.path = "/ws/chat" <;> simp [hpath]
    rw [hserve]
    change _ → Presents sec request ↔ Presents sec request ∨ _
    -- No key is asked for.
    by_cases hpresents : Presents sec request
    · simp [hpresents]
    · by_cases hpath : request.path = "/ws/chat" <;> simp [hpresents, hpath]

end Ways

/-- A WebSocket without headers sends a frame. -/
theorem not_authenticated_websocket :
    let sec : SecuritySettings ℤ :=
      { rate_limit_window_seconds := 60, api_key_auth_enabled := true, api_keys := ["k"] }
    let app : App ℤ := { agent := .start .empty, buckets := .empty }
    let request : HttpRequest := { path := "/ws/chat", headers := [], client_host := none }
    let c : Connection ℤ := .websocket request [(.data (some "hi") (some "u"),
      ⟨"s", 0, .scripted [{ content := some "ok" }] (.error ⟨.other, ""⟩), .deltas []⟩)]
    ¬ ((app.serve .bare { system_prompt := "p" } .empty sec c).2.requests ≠ [] →
      Presents sec c.request) := by
  intro sec app request c h
  rcases h (by decide) with ⟨key, -, hlookup⟩ | ⟨key, -, hlookup⟩
  · cases hlookup
  · cases hlookup

/-- A request with the allowed key. -/
theorem authenticated_iff_allowed_key :
    let sec : SecuritySettings ℤ :=
      { rate_limit_window_seconds := 60, api_key_auth_enabled := true, api_keys := ["k"] }
    let app : App ℤ := { agent := .start .empty, buckets := .empty }
    let c : Connection ℤ := .post (chatWithKey "k") 0
      (some { user_id := "u", message := "hi" })
      ⟨"s", 0, .scripted [{ content := some "ok" }] (.error ⟨.other, ""⟩), .deltas []⟩
    ((app.serve .bare { system_prompt := "p" } .empty sec c).2.requests ≠ [] →
      Presents sec c.request) ↔ Guarded sec app c :=
  authenticated_iff _ _ _ _ _

end YellowBull
