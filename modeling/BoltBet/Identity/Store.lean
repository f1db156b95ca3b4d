import BoltBet.Async.Pool
import BoltBet.Identity.Types
import BoltBet.Market.Types

/-!
# The stores behind authentication

The tables `users` and `refreshTokens`, the JWT service, the blacklist in persistent Redis, the
socket.io server, and every operation `IdentityService`, `JwtAuthGuard`, `RealtimeGateway` and
`NotificationWorker` run on them (`AuthOp`, answered by `AuthStore.exec`).

* Each operation is one statement at one moment `now`. Reading the clock and drawing random values
  are operations, too.
* `save` of an entity read before writes every column back (`tokenSave`).
* `randomUUID` never draws a value twice.
* Signatures cannot be forged: `verifyAsync` accepts the tokens that `signAsync` made, until
  `Math.floor(now)` reaches their `exp`.
* `SET key EX ttl` keeps the key until `now + ttl`, and persistent Redis drops nothing earlier.
* A socket receives what is emitted to a room it joined.
-/

namespace BoltBet

open Async

/-- What the surroundings choose while they run an operation. -/
structure AuthChoice where
  fresh : Uuid := 0
  secret : String := ""
  salt : Nat := 0

/-- What the gateway emits. -/
inductive GatewayEvent where
  /-- `bet:settled`. -/
  | betSettled (betId : Uuid) (marketName : String) (result : MarketResult) (payoutCents : Int)
  /-- `market:created`. -/
  | marketCreated (marketId : Uuid) (name : String) (oddsInt : Int)
  /-- `market:updated`. -/
  | marketUpdated (marketId : Uuid) (name : String) (status : MarketStatus) (oddsInt : Int)
  deriving DecidableEq, Repr

/-- The state behind authentication. -/
structure AuthStore (T : Type) where
  users : List User
  refreshTokens : List (RefreshToken T)
  /-- `blacklist:jti:{jti}`, with the moment it goes. -/
  blacklist : Uuid → Option T
  /-- Every access token made, with its payload. -/
  signed : List (String × JwtPayload)
  /-- Every value `crypto.randomUUID` drew, with the thread that drew it. -/
  drawn : List (Nat × Uuid)
  now : T
  /-- The connected sockets. -/
  connected : List Nat
  /-- The sockets that joined the room `user:{userId}`. -/
  rooms : List (Nat × Uuid)
  /-- What each socket received, the last event first. -/
  received : List (Nat × GatewayEvent)
  /-- Notifications delivered and neither acked nor nacked. -/
  unacked : List (Nat × NotificationPayload)
  /-- The queue `notifications_dead_letter`. -/
  deadLetter : List NotificationPayload

/-- The operations of the auth and realtime services. -/
inductive AuthOp (T : Type) where
  /-- `Date.now()`, `new Date()`. -/
  | clock
  /-- `crypto.randomUUID()`. -/
  | randomUUID
  /-- `crypto.randomBytes(64).toString('hex')`. -/
  | randomBytes
  | bcryptHash (data : String) (rounds : Nat)
  | bcryptCompare (data hash : String)
  /-- `userRepo.findOne({ where: { email } })`. -/
  | userFindOne (email : String)
  /-- `userRepo.save(userRepo.create(…))`. -/
  | userSave (user : UserDraft)
  /-- `refreshTokenRepo.findOne({ where: { id }, relations: ['user'] })`. -/
  | tokenFindOne (id : String)
  /-- `refreshTokenRepo.save(refreshTokenRepo.create(…))`. -/
  | tokenInsert (token : RefreshTokenDraft T)
  /-- `refreshTokenRepo.save(token)` of a token read before. -/
  | tokenSave (token : RefreshToken T)
  /-- `refreshTokenRepo.update({ id }, { revoked: true })`. -/
  | tokenRevoke (id : String)
  /-- `refreshTokenRepo.update({ familyId }, { revoked: true })`. -/
  | familyRevoke (familyId : Uuid)
  /-- `jwtService.signAsync(payload, { expiresIn, … })`. -/
  | signAsync (payload : JwtClaims)
  /-- `jwtService.verifyAsync(token, { algorithms: ['RS256'], publicKey })`. -/
  | verifyAsync (token : String)
  /-- `redisService.persistent.set(key, '1', 'EX', ttl)`, with the key `Platform.blacklistKey`. -/
  | blacklistSet (jti : Uuid) (ttl : Int)
  /-- `redisService.persistent.get(key)`, with the same key. -/
  | blacklistGet (jti : Uuid)
  /-- `socket.join('user:{userId}')`. -/
  | join (socket : Nat) (userId : Uuid)
  /-- `socket.disconnect(true)`. -/
  | disconnect (socket : Nat)
  /-- `server.to('user:{userId}').emit(…)`. -/
  | emitTo (userId : Uuid) (event : GatewayEvent)
  /-- `server.emit(…)`. -/
  | emit (event : GatewayEvent)
  | ack (tag : Nat)
  | nack (tag : Nat)
  deriving DecidableEq

/-- What an operation answers. -/
abbrev AuthOp.Res {T : Type} : AuthOp T → Type
  | .clock => T
  | .randomUUID => Uuid
  | .randomBytes => String
  | .bcryptHash .. => String
  | .bcryptCompare .. => Bool
  | .userFindOne _ => Option User
  | .userSave _ => User
  | .tokenFindOne _ => Option (RefreshToken T × Option User)
  | .tokenInsert _ => RefreshToken T
  | .tokenSave _ => RefreshToken T
  | .signAsync _ => String
  | .verifyAsync _ => JwtPayload
  | .blacklistGet _ => Option String
  | _ => Unit

/-- The signature of the auth and realtime services. -/
abbrev AuthSig (T : Type) : Sig AuthErr := ⟨AuthOp T, AuthOp.Res⟩

namespace AuthStore

variable {T : Type}

/-- Before anything happened. -/
def empty (now : T) : AuthStore T where
  users := []
  refreshTokens := []
  blacklist _ := none
  signed := []
  drawn := []
  now := now
  connected := []
  rooms := []
  received := []
  unacked := []
  deadLetter := []

/-- The token with an id. -/
def token (s : AuthStore T) (id : Uuid) : Option (RefreshToken T) :=
  s.refreshTokens.find? (·.id = id)

/-- Change every token that `p` picks. -/
def mapTokens (s : AuthStore T) (p : RefreshToken T → Bool)
    (f : RefreshToken T → RefreshToken T) : AuthStore T :=
  { s with refreshTokens := s.refreshTokens.map fun t => if p t then f t else t }

/-- Set `revoked` on every token that `p` picks. -/
def revoke (s : AuthStore T) (p : RefreshToken T → Bool) : AuthStore T :=
  s.mapTokens p fun t => { t with revoked := true }

/-- Append a token. -/
def addToken (s : AuthStore T) (t : RefreshToken T) : AuthStore T :=
  { s with refreshTokens := s.refreshTokens ++ [t] }

/-- The payload of a token that was signed. -/
def payloadOf (s : AuthStore T) (token : String) : Option JwtPayload :=
  (s.signed.find? (·.1 = token)).map Prod.snd

/-- The connected sockets that `p` picks receive an event. -/
def receive (s : AuthStore T) (p : Nat → Bool) (event : GatewayEvent) : AuthStore T :=
  { s with received := (s.connected.filter p).map (·, event) ++ s.received }

/-- A socket is gone, and has left every room. -/
def close (s : AuthStore T) (socket : Nat) : AuthStore T :=
  { s with
    connected := s.connected.filter (· ≠ socket)
    rooms := s.rooms.filter (·.1 ≠ socket) }

variable [Ring T] [LinearOrder T] [FloorRing T] (P : Platform)

/-- The blacklist holds a token now. -/
def blacklisted (s : AuthStore T) (jti : Uuid) : Bool :=
  (s.blacklist jti).any (s.now < ·)

/-- `verifyAsync`. -/
def verify (s : AuthStore T) (token : String) : Except AuthErr JwtPayload :=
  match s.payloadOf token with
  | none => .error (.JsonWebTokenError "invalid signature")
  | some p => if p.exp ≤ ⌊s.now⌋ then .error (.JsonWebTokenError "jwt expired") else .ok p

/-- The payload `signAsync` signs. -/
def payload (s : AuthStore T) (claims : JwtClaims) : JwtPayload where
  toJwtClaims := claims
  iat := ⌊s.now⌋
  exp := ⌊s.now⌋ + P.accessTtl

/-- **One operation** of thread `i`; `randomUUID` draws a value nobody drew before. -/
def exec (i : Nat) (ch : AuthChoice) (o : AuthOp T) (s : AuthStore T) :
    Option (Except AuthErr o.Res × AuthStore T) :=
  match o with
  | .clock => some (.ok s.now, s)
  | .randomUUID =>
    if ch.fresh ∈ s.drawn.map Prod.snd then none
    else some (.ok ch.fresh, { s with drawn := (i, ch.fresh) :: s.drawn })
  | .randomBytes => some (.ok ch.secret, s)
  | .bcryptHash data rounds => some (.ok (P.bcryptHash rounds ch.salt data), s)
  | .bcryptCompare data hash => some (.ok (P.bcryptCompare data hash), s)
  | .userFindOne email => some (.ok (s.users.find? (·.email = email)), s)
  | .userSave d =>
    if s.users.any fun u => u.id = ch.fresh ∨ u.email = d.email then
      some (.error (.QueryFailedError "duplicate key value"), s)
    else
      let user : User := ⟨ch.fresh, d.email, d.passwordHash, d.role⟩
      some (.ok user, { s with users := s.users ++ [user] })
  | .tokenFindOne text =>
    match P.uuidOf text with
    | none => some (.error (.QueryFailedError "invalid input syntax for type uuid"), s)
    | some id =>
      some (.ok ((s.token id).map fun t => (t, s.users.find? (·.id = t.userId))), s)
  | .tokenInsert d =>
    if (s.token ch.fresh).isSome then
      some (.error (.QueryFailedError "duplicate key value: refreshTokens.id"), s)
    else some (.ok (d.row ch.fresh s.now), s.addToken (d.row ch.fresh s.now))
  | .tokenSave t => some (.ok t, s.mapTokens (·.id = t.id) fun _ => t)
  | .tokenRevoke text =>
    match P.uuidOf text with
    | none => some (.error (.QueryFailedError "invalid input syntax for type uuid"), s)
    | some id => some (.ok (), s.revoke (·.id = id))
  | .familyRevoke familyId => some (.ok (), s.revoke (·.familyId = familyId))
  | .signAsync claims =>
    let payload := s.payload P claims
    some (.ok (P.jwt payload), { s with signed := (P.jwt payload, payload) :: s.signed })
  | .verifyAsync token => some (s.verify token, s)
  | .blacklistSet jti ttl =>
    some (.ok (), { s with blacklist := Function.update s.blacklist jti (some (s.now + ttl)) })
  | .blacklistGet jti => some (.ok (if s.blacklisted jti then some "1" else none), s)
  | .join socket userId => some (.ok (), { s with rooms := (socket, userId) :: s.rooms })
  | .disconnect socket => some (.ok (), s.close socket)
  | .emitTo userId event => some (.ok (), s.receive (fun k => (k, userId) ∈ s.rooms) event)
  | .emit event => some (.ok (), s.receive (fun _ => true) event)
  | .ack tag => some (.ok (), { s with unacked := s.unacked.filter (·.1 ≠ tag) })
  | .nack tag =>
    some (.ok (), { s with
      unacked := s.unacked.filter (·.1 ≠ tag)
      deadLetter := (s.unacked.filter (·.1 = tag)).map Prod.snd ++ s.deadLetter })

end AuthStore

end BoltBet
