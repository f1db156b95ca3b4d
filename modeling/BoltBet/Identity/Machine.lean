import BoltBet.Realtime.Gateway

/-!
# Authentication under load

`auth P` runs any number of auth requests, guarded requests, socket connections and notification
deliveries over one `AuthStore`, one operation at a time. Any operation may fail or lose its
answer, and any call may crash where it is suspended. Time passes and sockets close by steps of
the surroundings.
-/

namespace BoltBet

open Async

/-- A request of a client, a new socket, or the delivery of a notification. -/
inductive AuthCall where
  | register (dto : RegisterDto)
  | login (dto : LoginDto) (req : Request)
  | refresh (req : Request)
  /-- The route `logout` behind the guard. -/
  | logout (req : Request)
  /-- Another route. -/
  | route (isPublic : Bool) (req : Request)
  | connection (socket : Nat) (token : Option String)
  | notification (tag : Nat) (payload : NotificationPayload)
  deriving DecidableEq

/-- What a call answers. -/
inductive AuthReply where
  | registered
  /-- The access token and the cookie that `login` and `refresh` answer. -/
  | tokens (dto : AccessTokenResponseDto) (cookie : String)
  /-- The logged-out payload; the cookie is cleared. -/
  | loggedOut (user : JwtPayload)
  /-- The guard let the request pass, with this payload attached. -/
  | allowed (user : Option JwtPayload)
  | handled
  deriving DecidableEq

/-- The steps of the surroundings. -/
inductive AuthEnv (T : Type) where
  /-- Time passes. -/
  | tick (now : T)
  /-- A client closes its socket. -/
  | closed (socket : Nat)

variable {T : Type} [Ring T] [LinearOrder T] [FloorRing T] (P : Platform)

namespace IdentityController

/-- The route `logout`: the guard, then `IdentityService.logout`. -/
def logout (req : Request) : Prog (AuthSig T) JwtPayload := do
  match ← JwtAuthGuard.canActivate false req with
  | none => .throw .TypeError
  | some user =>
    IdentityService.logout user req
    return user

end IdentityController

/-- The program of a call. -/
def AuthCall.body : AuthCall → Prog (AuthSig T) AuthReply
  | .register dto => (fun _ => .registered) <$> IdentityService.register P dto
  | .login dto req => (fun x => .tokens x.1 x.2) <$> IdentityService.login P dto req
  | .refresh req => (fun x => .tokens x.1 x.2) <$> IdentityService.refresh P req
  | .logout req => .loggedOut <$> IdentityController.logout req
  | .route isPublic req => .allowed <$> JwtAuthGuard.canActivate isPublic req
  | .connection socket token =>
    (fun _ => .handled) <$> RealtimeGateway.handleConnection socket token
  | .notification tag payload =>
    (fun _ => .handled) <$> NotificationWorker.handleMessage tag payload

/-- A connection opens its socket; a delivery leaves an unacknowledged message. -/
def AuthCall.start : AuthCall → AuthStore T → Option (AuthStore T)
  | .connection socket _, s => some { s with connected := socket :: s.connected }
  | .notification tag payload, s => some { s with unacked := (tag, payload) :: s.unacked }
  | _, s => some s

/-- One step of the surroundings; time does not go back. -/
def AuthEnv.step : AuthEnv T → AuthStore T → Option (AuthStore T)
  | .tick now, s => if s.now ≤ now then some { s with now } else none
  | .closed socket, s => some (s.close socket)

/-- **Authentication.** -/
abbrev auth (T : Type) [Ring T] [LinearOrder T] [FloorRing T] (P : Platform) :
    Machine (AuthSig T) where
  Call := AuthCall
  Out := AuthReply
  State := AuthStore T
  Choice := AuthChoice
  Env := AuthEnv T
  body := AuthCall.body P
  start := AuthCall.start
  exec := AuthStore.exec P
  env := AuthEnv.step

/-! ## Small runs -/

/-- Libraries for examples: decimal ids, and a hash that is the data. -/
def sample : Platform where
  uuidText := toString
  uuidOf text := (List.range 100).find? (toString · = text)
  bcryptHash _ _ data := data
  bcryptCompare data hash := data = hash
  sha256 data := data
  jwt p := toString p.jti
  accessTtl := 900
  refreshTtl := 604800
  passwordPepper := ""
  dummyHash := "dummy-for-timing-only"

/-- Thread `i` runs operations that answer these choices. -/
def answer (i : Nat) (l : List AuthChoice) : List (Event (auth ℤ sample)) :=
  l.map fun ch => .run i (.ok ch)

/-- User 7 registers and logs in: the family 30 gets the token 40 with the secret "s". -/
def signedIn : List (Event (auth ℤ sample)) :=
  .spawn 0 (.register ⟨"a@b.c", "password12", by decide, by decide⟩) ::
  answer 0 [{}, {}, { fresh := 7 }] ++
  .spawn 1 (.login ⟨"a@b.c", "password12"⟩ {}) ::
  answer 1 [{}, {}, { fresh := 20 }, {}, { secret := "s" }, {}, { fresh := 30 }, {},
    { fresh := 40 }]

/-- A request with the cookie of the token 40. -/
def cookie40 : Request := { refreshToken := some "40:s" }

/-- A refresh with the token 40, up to the comparison of its secret. -/
def rotation (i : Nat) : List (Event (auth ℤ sample)) :=
  .spawn i (.refresh cookie40) :: answer i [{}, {}, {}]

/-- The rest of the refresh: it saves the token and issues the token `id`. -/
def rotated (i id : Nat) : List (Event (auth ℤ sample)) :=
  answer i [{}, { fresh := id + 10 }, {}, { secret := "t" }, {}, {}, { fresh := id }]

end BoltBet
