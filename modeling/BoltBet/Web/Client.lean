import BoltBet.Identity.Machine
import Mathlib.Data.List.Infix

/-!
# `client.ts`

The browser: the cookie `refresh_token` in its jar, the access token in the Redux store, and any
number of `apiClient` requests (`request`) in flight. `fetch` sends a request and waits for its
response; any delay passes between the two, and a response sets the cookie when it arrives.

* The cookie goes with the endpoints under `/v1/auth` only.
* `setCredentials` decodes the access token first (`decodeToken`), and may throw there.
* Left out: the caller's own headers and body beside what an endpoint carries, and the `user` that
  is shown.
-/

namespace BoltBet

open Async

/-- What a request asks for. -/
inductive Endpoint where
  | register (dto : RegisterDto)
  | login (dto : LoginDto)
  | refresh
  | logout
  /-- Another route, which may be public. -/
  | other (isPublic : Bool)
  deriving DecidableEq

/-- The cookie has the path `/v1/auth`. -/
def Endpoint.takesCookie : Endpoint → Bool
  | .other _ => false
  | _ => true

/-- The fields of a JSON body that are read. -/
structure Body where
  message : Option String := none
  accessToken : Option String := none
  balanceCents : Option Int := none
  balanceDisplay : Option String := none
  deriving DecidableEq

/-- What a response does to the cookie. -/
inductive SetCookie where
  | keep
  | set (cookie : String)
  | clear
  deriving DecidableEq

/-- A response; `body` is `none` when it is no JSON. -/
structure Response where
  status : Nat
  contentLength : Option String := none
  contentType : Option String := none
  body : Option Body := none
  setCookie : SetCookie := .keep
  deriving DecidableEq

/-- `response.ok`. -/
def Response.ok (r : Response) : Bool := 200 ≤ r.status ∧ r.status < 300

/-- What `request` throws. -/
inductive WebErr where
  | ApiError (status : Nat) (message : String)
  /-- `fetch` failed, or a property of `undefined` was read. -/
  | TypeError
  /-- A body or a token does not parse. -/
  | SyntaxError
  deriving DecidableEq

instance : Inhabited WebErr := ⟨.TypeError⟩

/-- A request as it was sent. -/
structure WebRequest where
  url : Endpoint
  req : Request
  deriving DecidableEq

/-- The call that serves a request. -/
def WebRequest.call (q : WebRequest) : AuthCall :=
  match q.url with
  | .register dto => .register dto
  | .login dto => .login dto q.req
  | .refresh => .refresh q.req
  | .logout => .logout q.req
  | .other isPublic => .route isPublic q.req

/-- The state of the browser. -/
structure Browser where
  /-- The cookie `refresh_token`. -/
  refreshToken : Option String := none
  /-- `store.getState().auth.accessToken`. -/
  accessToken : Option String := none
  sent : List (Nat × WebRequest) := []
  arrived : List (Nat × Response) := []

/-- The operations of `request`. -/
inductive WebOp where
  /-- `store.getState().auth.accessToken`. -/
  | getAccessToken
  /-- `fetch` sends a request; the answer numbers it. -/
  | send (url : Endpoint) (authorization : Option String)
  /-- The response to a request. -/
  | receive (n : Nat)
  /-- `store.dispatch(setCredentials({ accessToken, user: decodeToken(accessToken) }))`. -/
  | setCredentials (accessToken : String)
  /-- `store.dispatch(clearCredentials())`. -/
  | clearCredentials
  deriving DecidableEq

/-- What an operation answers. -/
abbrev WebOp.Res : WebOp → Type
  | .getAccessToken => Option String
  | .send .. => Nat
  | .receive _ => Response
  | _ => Unit

/-- The signature of the browser. -/
abbrev WebSig : Sig WebErr := ⟨WebOp, WebOp.Res⟩

/-- What the surroundings choose while they run an operation. -/
structure WebChoice where
  id : Nat := 0
  ip : Option String := none
  userAgent : Option String := none

namespace Browser

/-- The jar after a response. -/
def store (cookie : Option String) : SetCookie → Option String
  | .keep => cookie
  | .set cookie => some cookie
  | .clear => none

/-- A request as it leaves. -/
def outgoing (s : Browser) (ch : WebChoice) (url : Endpoint) (authorization : Option String) :
    WebRequest where
  url := url
  req := {
    refreshToken := if url.takesCookie then s.refreshToken else none
    authorization := authorization
    ip := ch.ip
    userAgent := ch.userAgent }

/-- **One operation**; a request gets a new number, and a response is waited for. -/
def exec (ch : WebChoice) (o : WebOp) (s : Browser) : Option (Except WebErr o.Res × Browser) :=
  match o with
  | .getAccessToken => some (.ok s.accessToken, s)
  | .send url authorization =>
    if ch.id ∈ s.sent.map Prod.fst then none
    else some (.ok ch.id, { s with sent := (ch.id, s.outgoing ch url authorization) :: s.sent })
  | .receive n => (s.arrived.find? (·.1 = n)).map fun x => (.ok x.2, s)
  | .setCredentials accessToken => some (.ok (), { s with accessToken := some accessToken })
  | .clearCredentials => some (.ok (), { s with accessToken := none })

/-- A response arrives: its cookie goes to the jar. -/
def arrive (n : Nat) (r : Response) (s : Browser) : Option Browser :=
  if n ∈ s.sent.map Prod.fst ∧ n ∉ s.arrived.map Prod.fst then
    some { s with
      refreshToken := store s.refreshToken r.setCookie
      arrived := (n, r) :: s.arrived }
  else none

end Browser

namespace ApiClient

/-- Await one operation. -/
def op (o : WebOp) : Prog WebSig o.Res := .perform (S := WebSig) o

/-- `fetch`. -/
def fetch (url : Endpoint) (authorization : Option String) : Prog WebSig Response := do
  let n ← op (.send url authorization)
  op (.receive n)

/-- The header `Authorization`. -/
def authorization (skipAuth : Bool) (token : Option String) : Option String :=
  match token with
  | none => none
  | some "" => none
  | some token => if skipAuth then none else some ("Bearer " ++ token)

/-- `makeRequest`. -/
def makeRequest (url : Endpoint) (skipAuth : Bool) (token : Option String) :
    Prog WebSig Response :=
  fetch url (authorization skipAuth token)

/-- The silent refresh of `request`, and the retry. -/
def refreshAndRetry (url : Endpoint) : Prog WebSig Response := do
  let refreshResponse ← fetch .refresh none
  if refreshResponse.ok then
    match refreshResponse.body with
    | none => .throw .SyntaxError
    | some { accessToken := none, .. } => .throw .TypeError
    | some { accessToken := some accessToken, .. } =>
      op (.setCredentials accessToken)
      makeRequest url false (some accessToken)
  else
    op .clearCredentials
    .throw (.ApiError 401 "Session expired. Please log in again.")

/-- `contentType.includes('application/json')`. -/
def isJson (contentType : String) : Bool :=
  "application/json".toList <:+: contentType.toList

/-- What `request` makes of its last response. -/
def result (response : Response) : Prog WebSig Body :=
  if !response.ok then
    .throw (.ApiError response.status
      ((response.body.bind Body.message).getD ("Request failed: " ++ toString response.status)))
  else if response.status = 204 ∨ response.contentLength = some "0" ∨
      !isJson (response.contentType.getD "") then .ret {}
  else
    match response.body with
    | none => .throw .SyntaxError
    | some body => .ret body

/-- `request`. -/
def request (url : Endpoint) (skipAuth : Bool) : Prog WebSig Body := do
  let currentToken ← op .getAccessToken
  let response ← makeRequest url skipAuth currentToken
  if response.status = 401 ∧ !skipAuth then
    let response ← refreshAndRetry url
    result response
  else result response

end ApiClient

/-- A call of `apiClient`. -/
structure WebCall where
  url : Endpoint
  skipAuth : Bool := false
  deriving DecidableEq

/-- A response arrives. -/
inductive WebEnv where
  | arrive (n : Nat) (r : Response)
  deriving DecidableEq

/-- **The browser.** -/
abbrev web : Machine WebSig where
  Call := WebCall
  Out := Body
  State := Browser
  Choice := WebChoice
  Env := WebEnv
  body call := ApiClient.request call.url call.skipAuth
  start _ s := some s
  exec _ := Browser.exec
  env | .arrive n r => Browser.arrive n r

end BoltBet
