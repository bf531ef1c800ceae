import MiniControl.Rest.Hosts

/-!
# The routes of the server and their hosts

Every route is registered behind a guard on the host, but for the health check and
the proxy's WebSocket, which looks at the host itself once it knows the role. A
route of one side is closed to the requests for the other side's host only as far
as `X-Forwarded-Host` does not say otherwise.
-/

namespace MiniControl.Rest

open Text

/-- The methods of the registered patterns. -/
inductive Method
  | get
  | post
  | put
  deriving DecidableEq

/-- The request methods that a pattern's method matches: `GET` matches `HEAD` too. -/
def Method.accepts : Method → List String
  | .get => ["GET", "HEAD"]
  | .post => ["POST"]
  | .put => ["PUT"]

/-- A segment of a pattern. -/
inductive Segment
  | literal (text : String)
  | wildcard
  deriving DecidableEq

/-- A wildcard matches every segment but the empty one after a trailing slash. -/
def Segment.matches : Segment → String → Bool
  | .literal text, segment => text = segment
  | .wildcard, segment => segment ≠ ""

/-- The handlers behind the guards. -/
inductive Endpoint
  | handleInstallScript
  | handleHealth
  | handleMe
  | handleListMyWorkstations
  | handleGetMyWorkstation
  | handleClaimMyWorkstation
  | handleReleaseMyWorkstation
  | handleListWorkers
  | handleCreateProxySession
  | handleBrowserTerminalWebSocket
  | handlePendingProxySessions
  | handleProxyWebSocket
  | handleReleaseUpload
  | handleReleaseUploadBinary
  | handleReleaseLatest
  | handleReleaseDownload
  | handleAssignHostname
  | handleWorkerRegister
  | handleWorkerHeartbeat
  | handleVMState
  deriving DecidableEq

/-- The guards on the credentials of a request. -/
inductive Auth
  | unguarded
  | access
  | admin
  | worker
  | enrollment
  deriving DecidableEq

/-- A pattern with the guards and the handler it is registered with. -/
structure Route where
  method : Method
  pattern : List Segment
  host : Option Side
  auth : Auth
  endpoint : Endpoint
  deriving DecidableEq

/-- The segments under `/api/v1`. -/
def api (segments : List String) : List Segment :=
  .literal "api" :: .literal "v1" :: segments.map .literal

/-- `RegisterRoutes`. -/
def registerRoutes : List Route :=
  [⟨.get, [.literal "install.sh"], some .worker, .unguarded, .handleInstallScript⟩,
   ⟨.get, api ["health"], none, .unguarded, .handleHealth⟩,
   ⟨.get, api ["me"], some .browser, .access, .handleMe⟩,
   ⟨.get, api ["my-workstations"], some .browser, .access, .handleListMyWorkstations⟩,
   ⟨.get, api ["my-workstation"], some .browser, .access, .handleGetMyWorkstation⟩,
   ⟨.post, api ["my-workstation", "claim"], some .browser, .access, .handleClaimMyWorkstation⟩,
   ⟨.post, api ["my-workstation", "release"], some .browser, .access,
    .handleReleaseMyWorkstation⟩,
   ⟨.get, api ["browser", "workers"], some .browser, .access, .handleListWorkers⟩,
   ⟨.post, api ["browser", "proxy-sessions"], some .browser, .access, .handleCreateProxySession⟩,
   ⟨.get, api ["browser", "terminal", "ws"], some .browser, .access,
    .handleBrowserTerminalWebSocket⟩,
   ⟨.get, api ["workers"], some .browser, .admin, .handleListWorkers⟩,
   ⟨.post, api ["proxy", "sessions"], some .browser, .admin, .handleCreateProxySession⟩,
   ⟨.get, api ["proxy", "sessions", "pending"], some .worker, .worker,
    .handlePendingProxySessions⟩,
   ⟨.get, api ["proxy", "ws"], none, .unguarded, .handleProxyWebSocket⟩,
   ⟨.post, api ["releases", "upload"], some .worker, .admin, .handleReleaseUpload⟩,
   ⟨.put, api ["releases", "upload"] ++ [.wildcard], some .worker, .admin,
    .handleReleaseUploadBinary⟩,
   ⟨.get, api ["releases", "latest"], some .worker, .unguarded, .handleReleaseLatest⟩,
   ⟨.get, api ["releases", "download"] ++ [.wildcard], some .worker, .unguarded,
    .handleReleaseDownload⟩,
   ⟨.post, api ["hostname", "assign"], some .worker, .enrollment, .handleAssignHostname⟩,
   ⟨.post, api ["workers", "register"], some .worker, .unguarded, .handleWorkerRegister⟩,
   ⟨.post, api ["workers"] ++ [.wildcard, .literal "heartbeat"], some .worker, .worker,
    .handleWorkerHeartbeat⟩,
   ⟨.put, api ["vms"] ++ [.wildcard, .literal "state"], some .worker, .worker, .handleVMState⟩]

/-- The route's pattern matches the request. -/
def Route.matches (route : Route) (r : Request) : Bool :=
  r.method ∈ route.method.accepts ∧ List.Forall₂ (Segment.matches · ·) route.pattern r.path

/-- The multiplexer's choice. No two patterns match one request, so that their
order does not matter. -/
def dispatch (r : Request) : Option Route :=
  registerRoutes.find? (·.matches r)

/-- The handler with what its guards depend on: the verifier and the workers table
decide on a request's credentials. -/
structure Handler where
  library : Library
  config : HandlerConfig
  /-- The error of `requireAccessAuth`, unless it goes on. -/
  accessError : Request → Option Proxy.ApiError
  /-- `AuthenticateWorkerToken` finds a worker for the token. -/
  authenticatesWorker : String → Bool

/-- What became of a request. -/
inductive Served
  /-- No route matches: the multiplexer or the static files answer. -/
  | unrouted
  /-- `http.NotFound` of a guard on the host. -/
  | notFound
  /-- A guard on the credentials refused. -/
  | refused (error : Proxy.ApiError)
  /-- The handler runs. -/
  | runs (endpoint : Endpoint)
  deriving DecidableEq

/-- `bearerToken`. -/
def bearerToken (header : String) : String :=
  if "Bearer ".toList <+: header.toList then trimSpace (String.ofList (header.toList.drop 7))
  else ""

/-- A guard that compares the bearer token with a configured one. -/
def requireToken (expected : String) (next : Request → Served) (r : Request) : Served :=
  if Proxy.tokensMatch expected (bearerToken (r.header "Authorization")) then next r
  else .refused ⟨401, "unauthorized"⟩

namespace Handler

variable (h : Handler)

/-- The request names the public host of a side, or none is configured. -/
def matchesHost (side : Side) (r : Request) : Bool :=
  h.library.hostMatches (h.config.publicHost side) (h.library.requestHost r)

/-- `matchesBrowserHost`. -/
def matchesBrowserHost : Request → Bool := h.matchesHost .browser

/-- `matchesWorkerHost`. -/
def matchesWorkerHost : Request → Bool := h.matchesHost .worker

/-- A guard that hides a route from requests for another host. -/
def requireHost (side : Side) (next : Request → Served) (r : Request) : Served :=
  if h.matchesHost side r then next r else .notFound

/-- `requireBrowserHost`. -/
def requireBrowserHost : (Request → Served) → Request → Served := h.requireHost .browser

/-- `requireWorkerHost`. -/
def requireWorkerHost : (Request → Served) → Request → Served := h.requireHost .worker

/-- `requireAdminAuth`. -/
def requireAdminAuth : (Request → Served) → Request → Served :=
  requireToken h.config.adminToken

/-- `requireEnrollmentAuth`. -/
def requireEnrollmentAuth : (Request → Served) → Request → Served :=
  requireToken h.config.enrollmentToken

/-- `requireWorkerAuth`. -/
def requireWorkerAuth (next : Request → Served) (r : Request) : Served :=
  if h.authenticatesWorker (bearerToken (r.header "Authorization")) then next r
  else .refused ⟨401, "unauthorized"⟩

/-- `requireAccessAuth`. -/
def requireAccessAuth (next : Request → Served) (r : Request) : Served :=
  match h.accessError r with
  | some error => .refused error
  | none => next r

/-- A route's handler behind its guard on the credentials. -/
def authenticated (route : Route) : Request → Served :=
  let next := fun _ => Served.runs route.endpoint
  match route.auth with
  | .unguarded => next
  | .access => h.requireAccessAuth next
  | .admin => h.requireAdminAuth next
  | .worker => h.requireWorkerAuth next
  | .enrollment => h.requireEnrollmentAuth next

/-- A route's handler behind all its guards. -/
def guarded (route : Route) : Request → Served :=
  match route.host with
  | some .browser => h.requireBrowserHost (h.authenticated route)
  | some .worker => h.requireWorkerHost (h.authenticated route)
  | none => h.authenticated route

/-- A request goes through the multiplexer and the guards. -/
def serveHTTP (r : Request) : Served :=
  match dispatch r with
  | some route => h.guarded route r
  | none => .unrouted

/-- What `handleProxyWebSocket` reads of a request. -/
def proxyRequest (r : Request) : Proxy.Request where
  session := r.query "session"
  role := r.query "role"
  token := r.query "token"
  matchesBrowserHost := h.matchesBrowserHost r
  matchesWorkerHost := h.matchesWorkerHost r

/-- The requests for the other side's host that a side is closed to: the host they
name, by `X-Forwarded-Host` if it is not blank and else by the other side's public
host, is not this side's after it went through `normalizeHost` twice. -/
def NamesOther (side : Side) (r : Request) : Prop :=
  h.library.normalizeHost (h.config.publicHost side) ≠ "" ∧
    h.library.normalizeHost (h.config.publicHost side) ≠
      h.library.normalizeHost (h.library.normalizeHost
        (namedHost (r.header "X-Forwarded-Host") (h.config.publicHost side.other)))

end Handler

/-- Two patterns that match a common request agree in their method, and segment by
segment as far as both are literal. -/
def Segment.compatible : Segment → Segment → Bool
  | .literal text, .literal text' => text = text'
  | _, _ => true

/-- The patterns of two routes may match a common request. -/
def Route.overlaps (route route' : Route) : Bool :=
  route.method = route'.method ∧
    List.Forall₂ (Segment.compatible · ·) route.pattern route'.pattern

/-- Two segments that match one text are compatible. -/
theorem Segment.compatible_of_matches {a b : Segment} {text : String}
    (ha : a.matches text = true) (hb : b.matches text = true) : a.compatible b = true := by
  cases a <;> cases b <;> simp_all [Segment.matches, Segment.compatible]

/-- A request has one method, so that two routes that accept it have the same. -/
theorem Method.eq_of_accepts {a b : Method} {name : String} (ha : name ∈ a.accepts)
    (hb : name ∈ b.accepts) : a = b := by
  cases a <;> cases b <;> simp_all [Method.accepts]

/-- Two routes that match one request overlap. -/
theorem Route.overlaps_of_matches {route route' : Route} {r : Request}
    (h : route.matches r = true) (h' : route'.matches r = true) :
    route.overlaps route' = true := by
  obtain ⟨hmethod, hpath⟩ := of_decide_eq_true h
  obtain ⟨hmethod', hpath'⟩ := of_decide_eq_true h'
  refine decide_eq_true ⟨Method.eq_of_accepts hmethod hmethod', ?_⟩
  generalize r.path = path at hpath hpath'
  generalize route.pattern = pattern at hpath
  generalize route'.pattern = pattern' at hpath'
  induction hpath generalizing pattern' with
  | nil =>
    cases hpath'
    exact .nil
  | cons hsegment _ ih =>
    cases hpath' with
    | cons hsegment' hrest' =>
      exact .cons (Segment.compatible_of_matches hsegment hsegment') (ih _ hrest')

/-- No two routes overlap, so that the order of the routes does not matter. -/
theorem registerRoutes_disjoint : ∀ route ∈ registerRoutes, ∀ route' ∈ registerRoutes,
    route.overlaps route' = true → route = route' := by
  decide +kernel

/-- A request is served by the one route whose pattern matches it. -/
theorem dispatch_eq_some {route : Route} {r : Request} (hroute : route ∈ registerRoutes)
    (hmatches : route.matches r = true) : dispatch r = some route := by
  cases hfound : dispatch r with
  | none => exact absurd hmatches (List.find?_eq_none.mp hfound route hroute)
  | some found =>
    have hmem : found ∈ registerRoutes := List.mem_of_find?_eq_some hfound
    have hfits : found.matches r = true := by
      rw [dispatch] at hfound
      simpa using List.find?_some hfound
    rw [registerRoutes_disjoint found hmem route hroute (Route.overlaps_of_matches hfits hmatches)]

namespace Handler

variable {h : Handler} {side : Side} {r : Request}

/-- The guards on the credentials never answer as the guards on the host do. -/
theorem authenticated_ne_notFound (route : Route) : h.authenticated route r ≠ .notFound := by
  have htoken : ∀ expected,
      requireToken expected (fun _ => .runs route.endpoint) r ≠ .notFound := by
    intro expected
    rw [requireToken]
    split <;> simp
  rw [authenticated]
  cases route.auth with
  | unguarded => simp
  | access =>
    simp only [requireAccessAuth]
    split <;> simp
  | admin => exact htoken _
  | worker =>
    simp only [requireWorkerAuth]
    split <;> simp
  | enrollment => exact htoken _

/-- A route of a side is behind the guard on the host of this side. -/
theorem guarded_eq_requireHost {route : Route} (hside : route.host = some side) :
    h.guarded route = h.requireHost side (h.authenticated route) := by
  rw [guarded, hside]
  cases side <;> rfl

/-- A route of a side is hidden exactly from the requests for another host. -/
theorem guarded_eq_notFound {route : Route} (hside : route.host = some side) :
    h.guarded route r = .notFound ↔ h.matchesHost side r = false := by
  rw [guarded_eq_requireHost hside]
  by_cases hmatches : h.matchesHost side r = true
  · simp [requireHost, hmatches, authenticated_ne_notFound]
  · simp [requireHost, hmatches]

/-- Only `X-Forwarded-Host` decides whether a request for the other side's host is
taken for one of this side. -/
theorem matchesHost_eq_false (hhost : h.library.normalizeHost r.host =
      h.library.normalizeHost (h.config.publicHost side.other)) :
    h.matchesHost side r = false ↔ h.NamesOther side r := by
  have hnamed : h.library.requestHost r = h.library.normalizeHost
      (namedHost (r.header "X-Forwarded-Host") (h.config.publicHost side.other)) := by
    unfold Library.requestHost namedHost
    split
    · exact hhost
    · rfl
  rw [matchesHost, hostMatches_eq_false, hnamed, NamesOther]

/-- A WebSocket that joins in the role of a side is turned away by its host only
after its parameters were found complete. -/
theorem check_eq_notFound (hrole : r.query "role" = side.role) :
    (h.proxyRequest r).check = .error ⟨404, "404 page not found"⟩ ↔
      (r.query "session" ≠ "" ∧ r.query "token" ≠ "") ∧ h.matchesHost side r = false := by
  have hpresent : side.role ≠ "" := by cases side <;> decide
  by_cases hmissing : r.query "session" = "" ∨ r.query "token" = ""
  · have herror : (h.proxyRequest r).check = .error ⟨400, "missing parameters"⟩ := by
      unfold Proxy.Request.check
      rw [if_pos]
      obtain hsession | htoken := hmissing
      · exact .inl hsession
      · exact .inr (.inr htoken)
    rw [herror]
    constructor
    · intro heq
      cases heq
    · rintro ⟨⟨hsession, htoken⟩, _⟩
      exact absurd hmissing (not_or.mpr ⟨hsession, htoken⟩)
  · obtain ⟨hsession, htoken⟩ := not_or.mp hmissing
    cases side <;> cases hmatches : h.matchesHost _ r <;>
      simp_all [Proxy.Request.check, proxyRequest, matchesBrowserHost, matchesWorkerHost, Side.role]

/-- Without `X-Forwarded-Host` a request for the other side's host is not taken for
one of this side, when the other side's normalised host is a plain name. -/
theorem namesOther_of_unforwarded (hforwarded : trimSpace (r.header "X-Forwarded-Host") = "")
    (hconfigured : h.library.normalizeHost (h.config.publicHost side) ≠ "")
    (hdistinct : h.library.normalizeHost (h.config.publicHost side) ≠
      h.library.normalizeHost (h.config.publicHost side.other))
    (hplain : h.library.normalizeHost
        (h.library.normalizeHost (h.config.publicHost side.other)) =
      h.library.normalizeHost (h.config.publicHost side.other)) : h.NamesOther side r := by
  refine ⟨hconfigured, ?_⟩
  rw [namedHost, if_pos hforwarded, hplain]
  exact hdistinct

/-- A route of one side answers a request for the other side's host with 404, and
runs nothing behind its guard on the host, exactly if the host that the request names
is not this side's; a WebSocket in the role of the side must also have given its
session and its token. -/
theorem confined_iff (h : Handler) (side : Side) (r : Request)
    (hhost : h.library.normalizeHost r.host =
      h.library.normalizeHost (h.config.publicHost side.other)) :
    (∀ route ∈ registerRoutes, route.host = some side → route.matches r = true →
      (h.serveHTTP r = .notFound ↔ h.NamesOther side r)) ∧
    (r.query "role" = side.role →
      ((h.proxyRequest r).check = .error ⟨404, "404 page not found"⟩ ↔
        (r.query "session" ≠ "" ∧ r.query "token" ≠ "") ∧ h.NamesOther side r)) := by
  refine ⟨fun route hroute hside hmatches => ?_, fun hrole => ?_⟩
  · rw [serveHTTP, dispatch_eq_some hroute hmatches]
    exact (guarded_eq_notFound hside).trans (matchesHost_eq_false hhost)
  · rw [check_eq_notFound hrole, matchesHost_eq_false hhost]

end Handler

/-- A server on `b.example` and `w.example`, on which every credential is good. -/
def twoHosts : Handler where
  library := ⟨fun text => String.ofList (text.toList.map Char.toLower), fun _ => none⟩
  config := ⟨"admin", "enroll", "w.example", "b.example"⟩
  accessError := fun _ => none
  authenticatesWorker := fun _ => true

/-- `GET /api/v1/me` on the worker host, with the given `X-Forwarded-Host`. -/
def meRequest (forwarded : String) : Request where
  method := "GET"
  path := ["api", "v1", "me"]
  host := "W.example:443"
  header := fun name => if name = "X-Forwarded-Host" then forwarded else ""
  query := fun _ => ""

/-- The route of `GET /api/v1/me`. -/
def meRoute : Route :=
  ⟨.get, api ["me"], some .browser, .access, .handleMe⟩

/-- On the worker host alone there is no `/api/v1/me`. -/
theorem confined_iff_unforwarded : twoHosts.serveHTTP (meRequest "") = .notFound := by
  have hroute : meRoute ∈ registerRoutes := by decide
  have hconfined := (twoHosts.confined_iff .browser (meRequest "") (by decide)).1 meRoute hroute
    rfl (by decide)
  exact hconfined.mpr (Handler.namesOther_of_unforwarded (by decide) (by decide) (by decide)
    (by decide))

/-- A request for the worker host that is said to be forwarded from the browser host
reaches a browser route. -/
theorem forwarded_reaches_browser : ¬∀ (h : Handler) (r : Request),
    h.library.normalizeHost h.config.browserPublicHost ≠ "" →
    h.library.normalizeHost h.config.workerPublicHost ≠ "" →
    h.library.normalizeHost h.config.browserPublicHost ≠
      h.library.normalizeHost h.config.workerPublicHost →
    h.library.normalizeHost r.host = h.library.normalizeHost h.config.workerPublicHost →
    ∀ route ∈ registerRoutes, route.host = some .browser → route.matches r = true →
      h.serveHTTP r = .notFound := by
  intro hclaim
  have hserved := hclaim twoHosts (meRequest "b.example") (by decide) (by decide) (by decide)
    (by decide) meRoute (by decide) rfl (by decide)
  have hruns : twoHosts.serveHTTP (meRequest "b.example") = .runs .handleMe := by decide
  rw [hruns] at hserved
  cases hserved

end MiniControl.Rest
