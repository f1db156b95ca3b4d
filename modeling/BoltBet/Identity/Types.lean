import BoltBet.Betting.Types
import Mathlib.Algebra.Order.Floor.Defs

/-!
# Users, refresh tokens and access tokens

`UserEntity.ts`, `RefreshTokenEntity.ts`, `IdentityTypes.ts`, the DTOs of the auth endpoints, and
what of a request and of a response `IdentityService` uses.

* Times are seconds in an ordered ring `T` with a floor; `exp`, `iat` and the two configured
  lifetimes are whole seconds.
* Left out: the user columns no code here reads (`mfaEnabled`, `totpSecretEncrypted`, and the
  timestamps). The address check of `@IsEmail` is not modelled: any text may be an email.
* `Platform` is what other libraries compute and what is configured: parameters of the model.
-/

namespace BoltBet

/-- What an auth call or a statement throws. -/
inductive AuthErr where
  | UnauthorizedException (message : String)
  | ConflictException (message : String)
  /-- A property of `null` was read. -/
  | TypeError
  /-- `verifyAsync` rejected the token. -/
  | JsonWebTokenError (message : String)
  /-- Postgres rejected the statement. -/
  | QueryFailedError (message : String)
  /-- The statement never reached Postgres or Redis, or its answer got lost. -/
  | ConnectionError
  deriving DecidableEq, Repr

instance : Inhabited AuthErr := ⟨.ConnectionError⟩

/-- `ROLE_TIER`. -/
def ROLE_TIER : Role → String
  | .USER => "free"
  | .VIP_USER => "vip"
  | .ADMIN => "admin"

/-- A row of `users`. -/
structure User where
  id : Uuid
  email : String
  passwordHash : String
  role : Role
  deriving DecidableEq, Repr

/-- `userRepo.create(…)`. -/
structure UserDraft where
  email : String
  passwordHash : String
  role : Role
  deriving DecidableEq, Repr

/-- A row of `refreshTokens`. -/
structure RefreshToken (T : Type) where
  id : Uuid
  familyId : Uuid
  tokenHash : String
  userId : Uuid
  deviceFingerprint : Option String
  ipAddress : Option String
  userAgent : Option String
  used : Bool
  revoked : Bool
  expiresAt : T
  createdAt : T
  deriving DecidableEq

/-- `refreshTokenRepo.create(…)`: a token without its generated columns. -/
structure RefreshTokenDraft (T : Type) where
  familyId : Uuid
  tokenHash : String
  userId : Uuid
  deviceFingerprint : Option String
  ipAddress : Option String
  userAgent : Option String
  expiresAt : T
  deriving DecidableEq

/-- The inserted row of a draft. -/
def RefreshTokenDraft.row {T : Type} (d : RefreshTokenDraft T) (id : Uuid) (now : T) :
    RefreshToken T where
  id := id
  familyId := d.familyId
  tokenHash := d.tokenHash
  userId := d.userId
  deviceFingerprint := d.deviceFingerprint
  ipAddress := d.ipAddress
  userAgent := d.userAgent
  used := false
  revoked := false
  expiresAt := d.expiresAt
  createdAt := now

/-- `Omit<JwtPayload, 'iat' | 'exp'>`. -/
structure JwtClaims where
  sub : Uuid
  role : Role
  tier : String
  jti : Uuid
  deriving DecidableEq, Repr

/-- `JwtPayload`. -/
structure JwtPayload extends JwtClaims where
  iat : Int
  exp : Int
  deriving DecidableEq, Repr

/-- What libraries compute, and the configuration. -/
structure Platform where
  /-- The text of a UUID. -/
  uuidText : Uuid → String
  /-- Postgres reads a text as a `uuid`. -/
  uuidOf : String → Option Uuid
  /-- `bcrypt.hash(data, rounds)`, with the salt it draws. -/
  bcryptHash : (rounds salt : Nat) → String → String
  /-- `bcrypt.compare(data, hash)`. -/
  bcryptCompare : String → String → Bool
  /-- `crypto.createHash('sha256').update(data).digest('hex')`. -/
  sha256 : String → String
  /-- A payload, signed with the private key. -/
  jwt : JwtPayload → String
  /-- `jwtCfg.accessTtl` and `jwtCfg.refreshTtl`. -/
  accessTtl : Int
  refreshTtl : Int
  /-- `securityCfg.passwordPepper`. -/
  passwordPepper : String
  /-- The hash `onModuleInit` computes once. -/
  dummyHash : String

/-- The Redis key of a revoked access token, in `logout`, the guard and the socket gateway:
`blacklist:jti:{payload.jti}`. -/
def Platform.blacklistKey (P : Platform) (jti : Uuid) : String := "blacklist:jti:" ++ P.uuidText jti

/-- `RegisterDto`. -/
structure RegisterDto where
  email : String
  password : String
  minLength : 10 ≤ password.length
  maxLength : password.length ≤ 128
  deriving DecidableEq

/-- `LoginDto`. -/
structure LoginDto where
  email : String
  password : String
  deriving DecidableEq

/-- `AccessTokenResponseDto`. -/
structure AccessTokenResponseDto where
  accessToken : String
  deriving DecidableEq, Repr

/-- Of a request: the cookie `refresh_token`, the `Authorization` header, and where it is from. -/
structure Request where
  refreshToken : Option String := none
  authorization : Option String := none
  ip : Option String := none
  userAgent : Option String := none
  deriving DecidableEq

/-! ## The cookie `refresh_token` -/

/-- The cookie `{uuid}:{rawSecret}`. -/
def refreshCookie (tokenId rawSecret : String) : String := tokenId ++ ":" ++ rawSecret

/-- A cookie, cut at its first colon. -/
def cookieParts (rawCookie : String) : Option (String × String) :=
  match rawCookie.toList.span (· ≠ ':') with
  | (_, []) => none
  | (tokenId, _ :: rawSecret) => some (String.ofList tokenId, String.ofList rawSecret)

/-- `text.slice(0, -1)`, as it is sent to Postgres: the last UTF-16 unit is dropped, and the half of
a surrogate pair that is left goes out as U+FFFD. -/
def dropLastUnit (text : String) : String :=
  let rest := text.toList.dropLast
  String.ofList (if text.toList.getLast?.any (0x10000 ≤ ·.toNat) then rest ++ ['\uFFFD'] else rest)

/-- `rawCookie.slice(0, rawCookie.indexOf(':'))`: without a colon the index is -1. -/
def cookieId (rawCookie : String) : String :=
  match cookieParts rawCookie with
  | some (tokenId, _) => tokenId
  | none => dropLastUnit rawCookie

/-- The id and the secret of a cookie come back. -/
theorem cookieParts_refreshCookie {tokenId rawSecret : String} (h : ':' ∉ tokenId.toList) :
    cookieParts (refreshCookie tokenId rawSecret) = some (tokenId, rawSecret) := by
  have hspan : ∀ l : List Char, ':' ∉ l →
      (l ++ ':' :: rawSecret.toList).span (· ≠ ':') = (l, ':' :: rawSecret.toList) := by
    intro l hl
    rw [List.span_eq_takeWhile_dropWhile, List.takeWhile_append_of_pos,
      List.dropWhile_append_of_pos]
    · simp
    all_goals
      intro a ha
      simpa using fun h : a = ':' => hl (h ▸ ha)
  unfold cookieParts refreshCookie
  have hlist : (tokenId ++ ":" ++ rawSecret).toList =
      tokenId.toList ++ ':' :: rawSecret.toList := by
    simp
  rw [hlist, hspan _ h]
  simp

end BoltBet
