import BoltBet.Identity.Store

/-!
# `IdentityService.ts` and `JwtAuthGuard.ts`

`register`, `login`, `refresh` and `logout` as programs, with the cookie each sets, and
`canActivate`, which answers the payload it attaches to the request.
-/

namespace BoltBet

open Async

namespace Auth

variable {T : Type}

/-- Await one operation. -/
def op (o : AuthOp T) : Prog (AuthSig T) o.Res := .perform (S := AuthSig T) o

end Auth

namespace IdentityService

open Auth

variable {T : Type} [Ring T] [LinearOrder T] (P : Platform)

def BCRYPT_ROUNDS_PASSWORD : Nat := 12

def BCRYPT_ROUNDS_TOKEN : Nat := 10

/-- `register`. -/
def register (dto : RegisterDto) : Prog (AuthSig T) Unit := do
  match ← op (.userFindOne dto.email) with
  | some _ => .throw (.ConflictException "Email is already registered")
  | none =>
    let passwordHash ← op (.bcryptHash (P.passwordPepper ++ dto.password) BCRYPT_ROUNDS_PASSWORD)
    let _ ← op (.userSave ⟨dto.email, passwordHash, .USER⟩)
    return

/-- `issueAccessToken`. -/
def issueAccessToken (user : User) : Prog (AuthSig T) String := do
  let jti ← op .randomUUID
  op (.signAsync ⟨user.id, user.role, ROLE_TIER user.role, jti⟩)

/-- `deviceFingerprint`. -/
def deviceFingerprint (req : Request) : String := P.sha256 (req.userAgent.getD "")

/-- The family of a new token: the one it continues, or a new one. -/
def familyOf : Option Uuid → Prog (AuthSig T) Uuid
  | some familyId => .ret familyId
  | none => op .randomUUID

/-- `issueRefreshToken`: it answers the cookie it sets. -/
def issueRefreshToken (user : User) (req : Request) (existingFamilyId : Option Uuid) :
    Prog (AuthSig T) String := do
  let rawSecret ← op .randomBytes
  let tokenHash ← op (.bcryptHash rawSecret BCRYPT_ROUNDS_TOKEN)
  let familyId ← familyOf existingFamilyId
  let now ← op .clock
  let saved ← op (.tokenInsert {
    familyId := familyId
    tokenHash := tokenHash
    userId := user.id
    deviceFingerprint := some (deviceFingerprint P req)
    ipAddress := req.ip
    userAgent := req.userAgent
    expiresAt := now + P.refreshTtl })
  return refreshCookie (P.uuidText saved.id) rawSecret

/-- `login`, with the cookie it sets. -/
def login (dto : LoginDto) (req : Request) :
    Prog (AuthSig T) (AccessTokenResponseDto × String) := do
  let found ← op (.userFindOne dto.email)
  let valid ← op (.bcryptCompare (P.passwordPepper ++ dto.password)
    ((found.map User.passwordHash).getD P.dummyHash))
  match found, valid with
  | some user, true =>
    let accessToken ← issueAccessToken user
    let cookie ← issueRefreshToken P user req none
    return (⟨accessToken⟩, cookie)
  | _, _ => .throw (.UnauthorizedException "Invalid credentials")

/-- The end of `refresh`: the token `stored` may be exchanged. -/
def rotate (req : Request) (stored : RefreshToken T) (user : Option User) :
    Prog (AuthSig T) (AccessTokenResponseDto × String) := do
  let _ ← op (.tokenSave { stored with used := true })
  match user with
  | none => .throw .TypeError
  | some user =>
    let accessToken ← issueAccessToken user
    let cookie ← issueRefreshToken P user req (some stored.familyId)
    return (⟨accessToken⟩, cookie)

/-- `refresh` of the token that a lookup found. -/
def exchange (req : Request) (rawSecret : String) (stored : RefreshToken T)
    (user : Option User) : Prog (AuthSig T) (AccessTokenResponseDto × String) := do
  if stored.revoked then .throw (.UnauthorizedException "Refresh token has been revoked")
  else if stored.used then
    op (.familyRevoke stored.familyId)
    .throw (.UnauthorizedException
      "Refresh token reuse detected — all sessions have been revoked")
  else
    let now ← op .clock
    if stored.expiresAt < now then .throw (.UnauthorizedException "Refresh token has expired")
    else
      let secretMatches ← op (.bcryptCompare rawSecret stored.tokenHash)
      if secretMatches then rotate P req stored user
      else .throw (.UnauthorizedException "Invalid refresh token")

/-- `refresh`, with the cookie it sets. -/
def refresh (req : Request) : Prog (AuthSig T) (AccessTokenResponseDto × String) := do
  match req.refreshToken with
  | none => .throw (.UnauthorizedException "No refresh token")
  | some "" => .throw (.UnauthorizedException "No refresh token")
  | some rawCookie =>
    match cookieParts rawCookie with
    | none => .throw (.UnauthorizedException "Malformed refresh token")
    | some (tokenId, rawSecret) =>
      match ← op (.tokenFindOne tokenId) with
      | none => .throw (.UnauthorizedException "Refresh token not found")
      | some (stored, user) => exchange P req rawSecret stored user

/-- The first step of `logout`: revoke the token of the cookie. -/
def revokeCookie (req : Request) : Prog (AuthSig T) Unit :=
  match req.refreshToken with
  | none => .ret ()
  | some rawCookie =>
    if cookieId rawCookie = "" then .ret () else op (.tokenRevoke (cookieId rawCookie))

variable [FloorRing T]

/-- The second step of `logout`: blacklist the access token until it expires. -/
def blacklist (payload : JwtPayload) : Prog (AuthSig T) Unit := do
  let now ← op .clock
  let nowSeconds := ⌊now⌋
  let ttl := payload.exp - nowSeconds
  if 0 < ttl then op (.blacklistSet payload.jti ttl) else return

/-- `logout`; it clears the cookie when it returns. -/
def logout (payload : JwtPayload) (req : Request) : Prog (AuthSig T) Unit := do
  revokeCookie req
  blacklist payload

end IdentityService

namespace JwtAuthGuard

open Auth

variable {T : Type}

/-- `extractToken`: the second part of the header, cut at its blanks. -/
def extractToken (authorization : Option String) : Option String :=
  match authorization.map fun header => header.toList.span (· ≠ ' ') with
  | some (type, _ :: rest) =>
    if String.ofList type = "Bearer" then some (String.ofList (rest.takeWhile (· ≠ ' ')))
    else none
  | _ => none

/-- The blacklist check of the guard. -/
def notRevoked (payload : JwtPayload) : Prog (AuthSig T) JwtPayload := do
  match ← op (.blacklistGet payload.jti) with
  | some _ => .throw (.UnauthorizedException "Token has been revoked")
  | none => return payload

/-- `canActivate`, with the payload it attaches to the request. -/
def canActivate (isPublic : Bool) (req : Request) : Prog (AuthSig T) (Option JwtPayload) := do
  if isPublic then return none
  else
    match extractToken req.authorization with
    | none => .throw (.UnauthorizedException "No token provided")
    | some "" => .throw (.UnauthorizedException "No token provided")
    | some token =>
      let payload ← (op (.verifyAsync token)).tryCatch fun _ =>
        .throw (.UnauthorizedException "Invalid or expired token")
      some <$> notRevoked payload

end JwtAuthGuard

end BoltBet
