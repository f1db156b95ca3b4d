import BoltBet.Async.Pool
import BoltBet.Edge.Lua

/-!
# `auth.lua`

`M.check` of the gateway, as a program over persistent Redis and the subrequest to
`/internal/token/verify`, and `edge N`, which runs any number of requests through it.

* `Openresty` is what libraries and the identity service compute: parameters of the model. The
  subrequest carries the header `Authorization` of the request.
* A command of the Redis client raises nothing: it answers `nil` and a reason when it fails. A
  subrequest that fails answers a status other than 200.
* The keys `auth:cache:…` are written by this script only. Any other key may be set or dropped
  at any time, and Redis may lose a cached value early.
* Left out: logging, and `set_keepalive`, whose result nothing reads.
-/

namespace BoltBet

open Async

/-- The headers of a request that the gateway lets through. -/
structure UserHeaders where
  id : LuaValue
  tier : LuaValue
  role : LuaValue

/-- The answer to a subrequest: its status and the headers `X-User-*`. -/
structure VerifyResponse where
  status : Nat
  userId : Option LuaString := none
  userTier : Option LuaString := none
  userRole : Option LuaString := none
  deriving DecidableEq, Repr

/-- The headers of a verified user. -/
def VerifyResponse.user (res : VerifyResponse) : UserHeaders where
  id := .string (res.userId.getD [])
  tier := .string (res.userTier.getD [])
  role := .string (res.userRole.getD [])

/-- What libraries and the identity service compute. -/
structure Openresty (T : Type) where
  /-- `ngx.decode_base64`. -/
  decodeBase64 : LuaString → Option LuaString
  /-- `cjson.decode` of `cjson.safe`: the value, or the reason why there is none. -/
  cjsonDecode : LuaString → Except LuaString LuaValue
  /-- `cjson.encode` of a table with the texts `sub`, `tier` and `role`. -/
  cjsonEncode : (sub tier role : LuaString) → LuaString
  /-- What `/internal/token/verify` answers to a header `Authorization`. -/
  verify : T → LuaString → VerifyResponse

/-- `cjson.decode` reads back a user that `cjson.encode` wrote. -/
def Openresty.ReadsUsers {T : Type} (N : Openresty T) : Prop :=
  ∀ sub tier role, ∃ get, N.cjsonDecode (N.cjsonEncode sub tier role) = .ok (.table get) ∧
    get (lua "sub") = .string sub ∧ get (lua "tier") = .string tier ∧
    get (lua "role") = .string role

/-- What `M.check` does with a request. -/
inductive CheckReply where
  | exit (status : Nat) (body : LuaString)
  | pass (user : UserHeaders)

/-- The operations of `M.check`. -/
inductive EdgeOp where
  /-- `red:connect("redis", 6379)`. -/
  | connect
  | get (key : LuaString)
  | setex (key : LuaString) (seconds : Nat) (value : LuaString)
  /-- `ngx.location.capture("/internal/token/verify", …)`. -/
  | capture (authorization : LuaString)
  deriving DecidableEq

/-- What an operation answers; `get` answers `none` for `ngx.null`. -/
abbrev EdgeOp.Res : EdgeOp → Type
  | .connect => Unit
  | .get _ => Option LuaString
  | .setex .. => Unit
  | .capture _ => VerifyResponse

/-- The signature of `M.check`. -/
abbrev EdgeSig : Sig LuaErr := ⟨EdgeOp, EdgeOp.Res⟩

namespace EdgeAuth

/-! ## The commands -/

/-- `local ok = red:connect("redis", 6379)`. -/
def connect : Prog EdgeSig Bool := .await .connect fun
  | .ok _ => .ret true
  | .error _ => .ret false

/-- `red:get(key)`, where the script takes `nil` and `ngx.null` for the same. -/
def get (key : LuaString) : Prog EdgeSig (Option LuaString) := .await (.get key) fun
  | .ok value => .ret value
  | .error _ => .ret none

/-- `red:setex(key, seconds, value)`. -/
def setex (key : LuaString) (seconds : Nat) (value : LuaString) : Prog EdgeSig Unit :=
  .await (.setex key seconds value) fun _ => .ret ()

/-- `ngx.location.capture("/internal/token/verify", …)`. -/
def capture (authorization : LuaString) : Prog EdgeSig VerifyResponse :=
  .await (.capture authorization) fun
    | .ok res => .ret res
    | .error _ => .ret { status := 502 }

/-! ## Reading the token -/

/-- The capture of `^[Bb]earer%s+(.+)$`. Where only blanks follow, the pattern gives the last one
back. -/
def bearerToken : LuaString → Option LuaString
  | [] => none
  | b :: rest =>
    if (b = 66 ∨ b = 98) ∧ rest.take 5 = lua "earer" then
      let blanks := (rest.drop 5).takeWhile isSpace
      match (rest.drop 5).dropWhile isSpace with
      | [] => if blanks.length < 2 then none else blanks.getLast?.map ([·])
      | token => if blanks = [] then none else some token
    else none

variable {T : Type} (N : Openresty T)

/-- `base64url_decode`. -/
def base64urlDecode (s : LuaString) : Option LuaString :=
  let s := s.map fun b => if b = 45 then 43 else b
  let s := s.map fun b => if b = 95 then 47 else b
  let pad := s.length % 4
  if pad = 2 then N.decodeBase64 (s ++ lua "==")
  else if pad = 3 then N.decodeBase64 (s ++ lua "=")
  else N.decodeBase64 s

/-- `extract_jti`: the claim, or why there is none. Reading a claim of `null` or of a number
raises. -/
def extractJti (token : LuaString) : Except LuaErr (Except LuaString LuaValue) :=
  match gmatchParts token with
  | [_, part, _] =>
    match base64urlDecode N part with
    | none => .ok (.error (lua "base64url decode failed"))
    | some payloadJson =>
      match N.cjsonDecode payloadJson with
      | .error decodeErr => .ok (.error (lua "JSON decode failed: " ++ decodeErr))
      | .ok payload =>
        if payload.truthy then
          (payload.index (lua "jti")).map fun jti =>
            if jti.truthy then .ok jti else .error (lua "jti claim missing from token")
        else .ok (.error (lua "JSON decode failed: unknown"))
  | parts =>
    .ok (.error (lua ("malformed JWT: expected 3 parts, got " ++ toString parts.length)))

/-! ## `M.check` -/

/-- The response of the script that ends a request. -/
def refuse (error message : String) : CheckReply :=
  .exit 401 (lua ("\x7b\"error\":\"" ++ error ++ "\",\"message\":\"" ++ message ++ "\"\x7d"))

/-- The key of a blacklisted token. -/
def blacklistKey (jti : LuaValue) : Except LuaErr LuaString := jti.concat (lua "blacklist:jti:")

/-- The key of a cached result. -/
def cacheKey (jti : LuaValue) : Except LuaErr LuaString := jti.concat (lua "auth:cache:")

/-- `v.key or ""`. -/
def field (v : LuaValue) (key : String) : Except LuaErr LuaValue :=
  (v.index (lua key)).map (·.orElse (.string []))

/-- The headers of a cached user. -/
def userHeaders (user : LuaValue) : Except LuaErr UserHeaders := do
  let id ← field user "sub"
  let tier ← field user "tier"
  let role ← field user "role"
  return ⟨id, tier, role⟩

/-- Steps 5 and 6, on a connection: the blacklist and the cache. -/
def lookup (jti : LuaValue) : Prog EdgeSig (Option CheckReply) := do
  let blacklisted ← get (← .ofExcept (blacklistKey jti))
  if blacklisted.isSome then
    return some (refuse "token_revoked" "This session has been terminated.")
  else
    match ← get (← .ofExcept (cacheKey jti)) with
    | none => return none
    | some cached =>
      match N.cjsonDecode cached with
      | .error _ => return none
      | .ok user =>
        if user.truthy then return some (.pass (← .ofExcept (userHeaders user))) else return none

/-- Step 7: the subrequest, and the result cached for 30 seconds. -/
def verify (authorization : LuaString) (jti : LuaValue) : Prog EdgeSig CheckReply := do
  let res ← capture authorization
  if res.status ≠ 200 then return refuse "unauthorized" "Token verification failed."
  else
    if ← connect then
      setex (← .ofExcept (cacheKey jti)) 30
        (N.cjsonEncode (res.userId.getD []) (res.userTier.getD []) (res.userRole.getD []))
      return .pass res.user
    else return .pass res.user

/-- **`M.check`**, on the values of the header `Authorization`. A repeated header is a table,
which has no method `match`. -/
def check : List LuaString → Prog EdgeSig CheckReply
  | [] => .ret (refuse "unauthorized" "Authorization header is required.")
  | [authHeader] =>
    match bearerToken authHeader with
    | none => .ret (refuse "unauthorized" "Authorization header must be Bearer <token>.")
    | some token => do
      match ← .ofExcept (extractJti N token) with
      | .error _ => return refuse "unauthorized" "Malformed token."
      | .ok jti =>
        if ← connect then
          match ← lookup N jti with
          | some reply => return reply
          | none => verify N authHeader jti
        else verify N authHeader jti
  | _ => .throw (.attempt "call method 'match'" "nil")

end EdgeAuth

/-! ## The gateway under load -/

/-- The clock and persistent Redis: a value of a key, and the moment it goes. -/
structure EdgeStore (T : Type) where
  now : T
  redis : LuaString → Option (LuaString × T)

/-- Before anything happened. -/
def EdgeStore.empty {T : Type} (now : T) : EdgeStore T := ⟨now, fun _ => none⟩

/-- The steps of the surroundings. -/
inductive EdgeEnv (T : Type) where
  /-- Time passes. -/
  | tick (now : T)
  /-- Another service sets a key that is not a cached result. -/
  | write (key value : LuaString) (gone : T)
  /-- Redis loses a key. -/
  | drop (key : LuaString)

section Machine

variable {T : Type} [LinearOrder T]

/-- The value of a key that has not gone. -/
def EdgeStore.live (s : EdgeStore T) (key : LuaString) : Option LuaString :=
  ((s.redis key).filter fun entry => s.now < entry.2).map Prod.fst

/-- One step of the surroundings; time does not go back. -/
def EdgeEnv.step : EdgeEnv T → EdgeStore T → Option (EdgeStore T)
  | .tick now, s => if s.now ≤ now then some { s with now } else none
  | .write key value gone, s =>
    if lua "auth:cache:" <+: key then none
    else some { s with redis := Function.update s.redis key (some (value, gone)) }
  | .drop key, s => some { s with redis := Function.update s.redis key none }

variable [Ring T] (N : Openresty T)

/-- One operation. -/
def EdgeOp.exec (o : EdgeOp) (s : EdgeStore T) : Option (Except LuaErr o.Res × EdgeStore T) :=
  match o with
  | .connect => some (.ok (), s)
  | .get key => some (.ok (s.live key), s)
  | .setex key seconds value =>
    some (.ok (), { s with
      redis := Function.update s.redis key (some (value, s.now + seconds)) })
  | .capture authorization => some (.ok (N.verify s.now authorization), s)

/-- **The gateway.** A call is the list of the values of its header `Authorization`. -/
abbrev edge : Machine EdgeSig where
  Call := List LuaString
  Out := CheckReply
  State := EdgeStore T
  Choice := Unit
  Env := EdgeEnv T
  body := EdgeAuth.check N
  start := fun _ s => some s
  exec := fun _ _ o s => o.exec N s
  env := EdgeEnv.step

end Machine

/-! ## Small runs -/

/-- A text as a JSON literal. -/
def jsonQuote (s : LuaString) : LuaString :=
  34 :: (s.flatMap fun b => if b = 34 ∨ b = 92 then [92, b] else [b]) ++ [34]

/-- A text up to its closing quote, and what follows; `escaped` after a backslash. -/
def jsonUnquote : (escaped : Bool) → LuaString → Option (LuaString × LuaString)
  | _, [] => none
  | true, b :: rest => (jsonUnquote false rest).map fun x => (b :: x.1, x.2)
  | false, b :: rest =>
    if b = 34 then some ([], rest)
    else if b = 92 then jsonUnquote true rest
    else (jsonUnquote false rest).map fun x => (b :: x.1, x.2)

/-- The members of an object of texts, after its opening brace. -/
def jsonMembers : Nat → LuaString → Option (List (LuaString × LuaString))
  | fuel + 1, 34 :: s => do
    let (key, s) ← jsonUnquote false s
    match s with
    | 58 :: 34 :: s =>
      let (value, s) ← jsonUnquote false s
      match s with
      | [125] => some [(key, value)]
      | 44 :: s => (jsonMembers fuel s).map ((key, value) :: ·)
      | _ => none
    | _ => none
  | _, _ => none

/-- Objects of at most eight texts. -/
def jsonDecode : LuaString → Except LuaString LuaValue
  | 123 :: s =>
    match jsonMembers 8 s with
    | some members => .ok (.table fun key => ((members.lookup key).map .string).getD .nil)
    | none => .error (lua "Expected value")
  | _ => .error (lua "Expected value")

/-- An object of three texts. -/
def jsonEncode (sub tier role : LuaString) : LuaString :=
  123 :: jsonQuote (lua "sub") ++ 58 :: jsonQuote sub ++ 44 :: jsonQuote (lua "tier") ++
    58 :: jsonQuote tier ++ 44 :: jsonQuote (lua "role") ++ 58 :: jsonQuote role ++ [125]

/-- The claims of user 7, and their base64. -/
def claims7 : String := "\x7b\"sub\":\"7\",\"role\":\"USER\",\"tier\":\"free\",\"jti\":\"1\"\x7d"

def part7 : String := "eyJzdWIiOiI3Iiwicm9sZSI6IlVTRVIiLCJ0aWVyIjoiZnJlZSIsImp0aSI6IjEifQ"

/-- A header with these claims and a signature. -/
def header7 (signature : String) : LuaString := lua ("Bearer e30." ++ part7 ++ "." ++ signature)

theorem jsonUnquote_quote (s rest : LuaString) :
    jsonUnquote false
      ((s.flatMap fun b => if b = 34 ∨ b = 92 then [92, b] else [b]) ++ 34 :: rest) =
      some (s, rest) := by
  induction s with
  | nil => simp [jsonUnquote]
  | cons b s ih =>
    rw [List.flatMap_cons, List.append_assoc]
    by_cases hb : b = 34 ∨ b = 92
    · rw [if_pos hb]
      simp [jsonUnquote, ih]
    · rw [if_neg hb]
      push Not at hb
      simp [jsonUnquote, hb.1, hb.2, ih]

/-- Libraries for examples: one token is signed. -/
def sampleEdge : Openresty ℤ where
  decodeBase64 s := if s = lua (part7 ++ "==") then some (lua claims7) else none
  cjsonDecode := jsonDecode
  cjsonEncode := jsonEncode
  verify _ authorization :=
    if authorization = header7 "c2ln" then
      { status := 200, userId := some (lua "7"), userTier := some (lua "free"),
        userRole := some (lua "USER") }
    else { status := 401 }

/-- The members of an object of texts come back. -/
theorem jsonMembers_cons (fuel : Nat) (key value rest : LuaString) :
    jsonMembers (fuel + 1) (jsonQuote key ++ 58 :: (jsonQuote value ++ 44 :: rest)) =
      (jsonMembers fuel rest).map ((key, value) :: ·) := by
  simp [jsonMembers, jsonQuote, jsonUnquote_quote]

theorem jsonMembers_last (fuel : Nat) (key value : LuaString) :
    jsonMembers (fuel + 1) (jsonQuote key ++ 58 :: (jsonQuote value ++ [125])) =
      some [(key, value)] := by
  simp [jsonMembers, jsonQuote, jsonUnquote_quote]

theorem sampleEdge_readsUsers : sampleEdge.ReadsUsers := by
  intro sub tier role
  have hmembers : jsonMembers 8 (jsonEncode sub tier role).tail =
      some [(lua "sub", sub), (lua "tier", tier), (lua "role", role)] := by
    unfold jsonEncode
    simp only [List.cons_append, List.append_assoc, List.tail_cons]
    rw [jsonMembers_cons, jsonMembers_cons, jsonMembers_last]
    rfl
  refine ⟨fun key => (([(lua "sub", sub), (lua "tier", tier), (lua "role", role)].lookup key).map
    .string).getD .nil, ?_, rfl, rfl, rfl⟩
  have hcons : jsonEncode sub tier role = 123 :: (jsonEncode sub tier role).tail := rfl
  change jsonDecode (jsonEncode sub tier role) = _
  rw [hcons]
  unfold jsonDecode
  simp only [hmembers]

end BoltBet
