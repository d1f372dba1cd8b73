import YellowBull.Api.RateLimit

/-!
# The middleware of the app

`APIKeyAuthMiddleware` of `api/middleware/api_key_auth.py`, and the stack that `create_app` of
`api/server.py` builds around its routes. Starlette makes each class around the app that it has so
far, so that the middleware added last runs first, and calls `dispatch` for HTTP requests only.
-/

namespace YellowBull

/-- What an `APIKeyAuthMiddleware` is configured with. -/
structure APIKeyAuthMiddleware where
  enabled : Bool := true
  /-- A set. -/
  api_keys : List String := []
  exclude_paths : List String := ["/api/health", "/docs", "/openapi.json"]

/-- The header `X-API-Key`, or what is left of `Authorization` without `Bearer `. -/
def apiKey (request : HttpRequest) : String :=
  let own_key := (request.headers.lookup "x-api-key").getD ""
  if own_key = "" then ((request.headers.lookup "authorization").getD "").replace "Bearer " ""
  else own_key

/-- The limiter reads the same key. -/
theorem extractUserId_eq (request : HttpRequest) : extractUserId request =
    if apiKey request = "" then "ip:" ++ request.client_host.getD "unknown"
    else "key:" ++ apiKey request := rfl

/-- The requests that `dispatch` lets through without a look at their key. -/
def APIKeyAuthMiddleware.exempts (mw : APIKeyAuthMiddleware) (request : HttpRequest) : Bool :=
  !mw.enabled || mw.exclude_paths.any fun excluded => request.url_path.startsWith excluded

/-- `APIKeyAuthMiddleware.dispatch`: whether the request goes on to `call_next`. -/
def APIKeyAuthMiddleware.dispatch (mw : APIKeyAuthMiddleware) (request : HttpRequest) :
    Except HTTPException Unit :=
  if mw.exempts request then .ok ()
  else if apiKey request = "" then
    .error { status_code := 401, detail := "API key required. Provide X-API-Key header." }
  else if apiKey request ∈ mw.api_keys then .ok ()
  else .error { status_code := 403, detail := "Invalid API key." }

/-! ## The stack -/

/-- `SecuritySettings` of `config/settings.py`. -/
structure SecuritySettings (τ : Type*) where
  rate_limit_enabled : Bool := false
  rate_limit_requests : ℤ := 60
  rate_limit_window_seconds : τ
  max_message_length : ℤ := 4096
  prompt_injection_detection : Bool := true
  api_key_auth_enabled : Bool := false
  api_keys : List String := []

/-- The middleware that `create_app` adds. -/
inductive Middleware (τ : Type*) where
  /-- `CORSMiddleware`, which passes on every request but a preflight. -/
  | cors
  | auth (mw : APIKeyAuthMiddleware)
  | rateLimit (mw : RateLimitMiddleware τ)

section Stack

variable {τ : Type*} [AddCommGroup τ] [LinearOrder τ] [ToString τ]

/-- The `dispatch` of a middleware, at the time `now`: the buckets of the limiter afterwards, and
whether the request goes on to `call_next`. -/
def Middleware.dispatch (m : Middleware τ) (buckets : Buckets τ) (request : HttpRequest) (now : τ) :
    Buckets τ × Except HTTPException Unit :=
  match m with
  | .cors => (buckets, .ok ())
  | .auth mw => (buckets, mw.dispatch request)
  | .rateLimit mw => YellowBull.dispatch mw buckets request now

/-- `app.add_middleware`, on the stack with its outermost middleware first. -/
def addMiddleware (m : Middleware τ) (stack : List (Middleware τ)) : List (Middleware τ) :=
  m :: stack

/-- A request that goes through the stack. -/
def dispatchStack : List (Middleware τ) → Buckets τ → HttpRequest → τ →
    Buckets τ × Except HTTPException Unit
  | [], buckets, _, _ => (buckets, .ok ())
  | m :: stack, buckets, request, now =>
    match m.dispatch buckets request now with
    | (buckets, .error e) => (buckets, .error e)
    | (buckets, .ok ()) => dispatchStack stack buckets request now

variable (sec : SecuritySettings τ)

/-- The `APIKeyAuthMiddleware` of `create_app`. -/
def SecuritySettings.auth : APIKeyAuthMiddleware where
  enabled := sec.api_key_auth_enabled
  api_keys := sec.api_keys

/-- The `RateLimitMiddleware` of `create_app`. -/
def SecuritySettings.rateLimit : RateLimitMiddleware τ where
  enabled := sec.rate_limit_enabled
  max_requests := sec.rate_limit_requests
  window_seconds := sec.rate_limit_window_seconds

/-- The stack that `create_app` builds, by its calls of `add_middleware` in their order. -/
def SecuritySettings.stack : List (Middleware τ) :=
  let stack := addMiddleware .cors []
  let stack := addMiddleware (.auth sec.auth) stack
  -- Added last, the limiter comes first.
  addMiddleware (.rateLimit sec.rateLimit) stack

/-- An HTTP request and the time at which it comes in. -/
structure TimedRequest (τ : Type*) where
  request : HttpRequest
  now : τ

/-- A request through the app: the buckets of the limiter afterwards, and what the stack raises. -/
def SecuritySettings.step (buckets : Buckets τ) (r : TimedRequest τ) :
    Buckets τ × Except HTTPException Unit :=
  dispatchStack sec.stack buckets r.request r.now

end Stack

end YellowBull
