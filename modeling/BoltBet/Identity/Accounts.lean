import BoltBet.Identity.Logout
import BoltBet.Identity.Passwords

/-!
# Whom an access token speaks for

Users are only added, by `register` and as `USER`s; roles never change. An access token carries the
id and the role of a user of the table, and is signed by a call that proved to act for this user:
a `login` that knows the password, or a `refresh` that knows the secret of a token of the user.

* `Earned`, `Earns`: the proof, as the call saw it, and as the tables hold it.
* `along_call`: what a call has seen when it signs, inserts, and lets a request pass.
* **`accounts`**: the invariant, from any table of users.
-/

namespace BoltBet

open Async Auth

variable {T : Type}

/-- Before any request; these users are in the table. -/
def AuthStore.seeded (now : T) (users : List User) : AuthStore T :=
  { AuthStore.empty now with users }

/-- The claims that speak for a user. -/
def JwtClaims.For (claims : JwtClaims) (u : User) : Prop :=
  claims.sub = u.id ∧ claims.role = u.role ∧ claims.tier = ROLE_TIER u.role

/-- **A call proves to act for a user**, by a password or by the secret of a refresh token. -/
inductive Earns (P : Platform) (s : AuthStore T) : AuthCall → User → Prop
  | login (dto : LoginDto) (req : Request) (u : User) (hemail : u.email = dto.email)
    (hpass : P.bcryptCompare (P.passwordPepper ++ dto.password) u.passwordHash = true) :
    Earns P s (.login dto req) u
  | refresh (req : Request) (rawCookie text secret : String) (t : RefreshToken T) (u : User)
    (hcookie : req.refreshToken = some rawCookie)
    (hparts : cookieParts rawCookie = some (text, secret))
    (ht : t ∈ s.refreshTokens) (hid : P.uuidOf text = some t.id) (huser : t.userId = u.id)
    (hsecret : P.bcryptCompare secret t.tokenHash = true) : Earns P s (.refresh req) u

/-- The operation signed the token. -/
def Signs [Ring T] [LinearOrder T] [FloorRing T] {P : Platform} (x : Entry (auth T P))
    (e : String × JwtPayload) : Prop :=
  x.took = true ∧ ∃ claims, x.op = .signAsync claims ∧
    e = (P.jwt (x.before.payload P claims), x.before.payload P claims)

namespace Accounts

variable {l l' : List (Seen (AuthSig T))} {call : AuthCall} {α : Type}

/-- The same proof, as the call saw it. -/
inductive Earned (P : Platform) (l : List (Seen (AuthSig T))) : AuthCall → User → Prop
  | login (dto : LoginDto) (req : Request) (u : User)
    (hfind : Saw l (.userFindOne dto.email) (some u))
    (hpass : Saw l (.bcryptCompare (P.passwordPepper ++ dto.password) u.passwordHash) true) :
    Earned P l (.login dto req) u
  | refresh (req : Request) (rawCookie text secret : String) (t : RefreshToken T) (u : User)
    (hcookie : req.refreshToken = some rawCookie)
    (hparts : cookieParts rawCookie = some (text, secret))
    (hfind : Saw l (.tokenFindOne text) (some (t, some u)))
    (hsecret : Saw l (.bcryptCompare secret t.tokenHash) true) : Earned P l (.refresh req) u

theorem Earned.later {P : Platform} {u : User} (h : Earned P l call u) (hl : l <:+ l') :
    Earned P l' call u := by
  cases h with
  | login dto req u hfind hpass => exact .login dto req u (hfind.later hl) (hpass.later hl)
  | refresh req rawCookie text secret t u hcookie hparts hfind hsecret =>
    exact .refresh req rawCookie text secret t u hcookie hparts (hfind.later hl)
      (hsecret.later hl)

variable (P : Platform)

/-- **What a call has seen** when it comes to an operation. -/
def Grounds (call : AuthCall) (l : List (Seen (AuthSig T))) : AuthOp T → Prop
  | .userSave d => d.role = .USER
  | .signAsync claims => ∃ u, Earned P l call u ∧ claims.For u
  | .tokenInsert d => ∃ u, Earned P l call u ∧ d.userId = u.id
  | .tokenSave e => ∃ text t u, Saw l (.tokenFindOne text) (some (t, u)) ∧
      e = { t with used := true }
  | _ => True

/-- What a route that let its request pass has seen. -/
def Lets (call : AuthCall) (l : List (Seen (AuthSig T))) (r : Except AuthErr AuthReply) : Prop :=
  ∀ isPublic req user, call = .route isPublic req → r = .ok (.allowed user) →
    isPublic = true ∧ user = none ∨ ∃ token p, user = some p ∧
      JwtAuthGuard.extractToken req.authorization = some token ∧ Saw l (.verifyAsync token) p

variable {P}

/-! ## The programs -/

theorem along_issueAccessToken {user : User} (h : Earned P l call user) :
    (IdentityService.issueAccessToken user : Prog (AuthSig T) String).Along (Grounds P call)
      (fun l' _ => l <:+ l') l := by
  refine Prog.along_perform_bind trivial (fun jti => ?_) fun e => List.suffix_cons _ _
  exact Prog.along_perform (S := AuthSig T)
    ⟨user, h.later (List.suffix_cons _ _), rfl, rfl, rfl⟩ fun r =>
      (List.suffix_cons _ _).trans (List.suffix_cons _ _)

section Issue

variable [Ring T]

theorem along_issueRefreshToken {user : User} (h : Earned P l call user) (req : Request)
    (f : Option Uuid) :
    (IdentityService.issueRefreshToken P user req f : Prog (AuthSig T) String).Along
      (Grounds P call) (fun _ _ => True) l := by
  unfold IdentityService.issueRefreshToken
  refine Prog.along_perform_bind trivial (fun secret => ?_) fun _ => trivial
  refine Prog.along_perform_bind trivial (fun hash => ?_) fun _ => trivial
  refine Prog.Along.bind (Q := fun l' _ => l <:+ l') ?_ (fun f' l₁ h₁ => ?_) fun _ _ _ => trivial
  · cases f with
    | some f => exact (List.suffix_cons _ _).trans (List.suffix_cons _ _)
    | none =>
      exact Prog.along_perform (S := AuthSig T) trivial fun r =>
        ((List.suffix_cons _ _).trans (List.suffix_cons _ _)).trans (List.suffix_cons _ _)
  · refine Prog.along_perform_bind trivial (fun now => ?_) fun _ => trivial
    have hearned := (h.later h₁).later (List.suffix_cons ⟨.clock, .ok now⟩ l₁)
    exact Prog.along_perform_bind ⟨user, hearned, rfl⟩ (fun _ => trivial) fun _ => trivial

/-- The two tokens of a user. -/
theorem along_issue {user : User} (h : Earned P l call user) (req : Request) (f : Option Uuid) :
    (do
      let accessToken ← IdentityService.issueAccessToken user
      let cookie ← IdentityService.issueRefreshToken P user req f
      return (⟨accessToken⟩, cookie) : Prog (AuthSig T) (AccessTokenResponseDto × String)).Along
      (Grounds P call) (fun _ _ => True) l := by
  refine Prog.Along.bind (along_issueAccessToken h) (fun token l₁ h₁ => ?_) fun _ _ _ => trivial
  exact Prog.Along.bind (along_issueRefreshToken (h.later h₁) req f) (fun _ _ _ => trivial)
    fun _ _ _ => trivial

theorem along_login (dto : LoginDto) (req : Request) :
    (IdentityService.login P dto req : Prog (AuthSig T) _).Along (Grounds P (.login dto req))
      (fun _ _ => True) [] := by
  refine Prog.along_perform_bind trivial (fun found => ?_) fun _ => trivial
  refine Prog.along_perform_bind trivial (fun valid => ?_) fun _ => trivial
  split
  · rename_i user
    exact along_issue (.login dto req user saw_head.cons saw_head) req none
  · trivial

end Issue

section Refresh

variable [Ring T] [LinearOrder T] {req : Request} {rawCookie text secret : String}

/-- A token was found, and maybe its user. -/
theorem along_exchange (hcookie : req.refreshToken = some rawCookie)
    (hparts : cookieParts rawCookie = some (text, secret)) {stored : RefreshToken T}
    {user : Option User} (hfind : Saw l (.tokenFindOne text) (some (stored, user))) :
    (IdentityService.exchange P req secret stored user).Along (Grounds P (.refresh req))
      (fun _ _ => True) l := by
  unfold IdentityService.exchange
  split
  · trivial
  · split
    · exact Prog.along_perform_bind trivial (fun _ => trivial) fun _ => trivial
    · refine Prog.along_perform_bind trivial (fun now => ?_) fun _ => trivial
      split
      · trivial
      · refine Prog.along_perform_bind trivial (fun valid => ?_) fun _ => trivial
        split
        · rename_i hvalid
          subst hvalid
          refine Prog.along_perform_bind ⟨text, stored, user, hfind.cons.cons, rfl⟩
            (fun saved => ?_) fun _ => trivial
          cases user with
          | none => trivial
          | some user =>
            exact along_issue (.refresh req rawCookie text secret stored user hcookie hparts
              hfind.cons.cons.cons saw_head.cons) req (some stored.familyId)
        · trivial

theorem along_refresh (req : Request) :
    (IdentityService.refresh P req : Prog (AuthSig T) _).Along (Grounds P (.refresh req))
      (fun _ _ => True) [] := by
  unfold IdentityService.refresh
  split
  · trivial
  · trivial
  · rename_i rawCookie _ hcookie
    split
    · trivial
    · rename_i text secret hparts
      refine Prog.along_perform_bind trivial (fun found => ?_) fun _ => trivial
      cases found with
      | none => trivial
      | some found => exact along_exchange hcookie hparts saw_head

end Refresh

theorem along_register [Ring T] (dto : RegisterDto) :
    (IdentityService.register P dto : Prog (AuthSig T) _).Along (Grounds P (.register dto))
      (fun _ _ => True) [] := by
  refine Prog.along_perform_bind trivial (fun found => ?_) fun _ => trivial
  cases found with
  | some u => trivial
  | none =>
    refine Prog.along_perform_bind trivial (fun hash => ?_) fun _ => trivial
    exact Prog.along_perform_bind rfl (fun _ => trivial) fun _ => trivial

/-- The guard of a route lets a request pass with the payload of its token. -/
theorem along_route (isPublic : Bool) (req : Request) :
    (AuthReply.allowed <$> JwtAuthGuard.canActivate isPublic req : Prog (AuthSig T) _).Along
      (Grounds P (.route isPublic req)) (Lets (.route isPublic req)) [] := by
  have hthrow : ∀ l e, Lets (T := T) (.route isPublic req) l (.error e) :=
    fun l e _ _ _ _ hr => absurd hr (by simp)
  refine Prog.Along.map (Q := fun l r => ∀ user, r = .ok user →
    isPublic = true ∧ user = none ∨ ∃ token p, user = some p ∧
      JwtAuthGuard.extractToken req.authorization = some token ∧ Saw l (AuthOp.verifyAsync token) p)
    ?_ (fun user l' h => ?_) fun e l' _ => hthrow l' e
  · unfold JwtAuthGuard.canActivate
    split
    · rename_i hpublic
      exact fun user hr => .inl ⟨hpublic, (Except.ok.inj hr).symm⟩
    · split
      · simp [Prog.Along]
      · simp [Prog.Along]
      · rename_i token _ htoken
        refine Prog.Along.bind (Q := fun l r => ∀ p, r = .ok p → Saw l (AuthOp.verifyAsync token) p)
          (.tryCatch (Q := fun l r => ∀ p, r = .ok p → Saw l (AuthOp.verifyAsync token) p)
            (Prog.along_perform (S := AuthSig T) trivial ?_) (fun p l' h => h)
            fun e l' _ => by simp [Prog.Along])
          (fun payload l₁ h₁ => ?_) (by simp)
        · rintro r p rfl
          exact saw_head
        · have hsaw := h₁ payload rfl
          refine Prog.Along.map (Q := fun l r => ∀ p, r = .ok p →
              p = payload ∧ Saw l (AuthOp.verifyAsync token) p) ?_
            (fun p l' h user hr => ?_) (by simp)
          · refine Prog.along_perform_bind trivial (fun found => ?_) (by simp)
            cases found with
            | some _ => simp [Prog.Along]
            | none =>
              rintro p ⟨⟩
              exact ⟨rfl, hsaw.cons⟩
          · exact .inr ⟨token, p, (Except.ok.inj hr).symm, htoken, (h p rfl).2⟩
  · intro isPublic' req' user' hcall hr
    obtain ⟨rfl, rfl⟩ := AuthCall.route.inj hcall
    obtain rfl := AuthReply.allowed.inj (Except.ok.inj hr)
    exact h user rfl

variable [Ring T] [LinearOrder T] [FloorRing T]

/-- **What every call has seen.** -/
theorem along_call (call : AuthCall) :
    (call.body P : Prog (AuthSig T) _).Along (Grounds P call) (Lets call) [] := by
  have hlets : ∀ l r, (∀ isPublic req, call ≠ .route isPublic req) → Lets (T := T) call l r :=
    fun l r hne isPublic req _ hcall => absurd hcall (hne isPublic req)
  have hquiet : ∀ {β : Type} {p : Prog (AuthSig T) β} {f : β → AuthReply},
      (∀ isPublic req, call ≠ .route isPublic req) →
      p.Along (Grounds P call) (fun _ _ => True) [] →
      (f <$> p).Along (Grounds P call) (Lets call) [] := fun hne hp =>
    hp.map (fun _ l' _ => hlets l' _ hne) fun _ l' _ => hlets l' _ hne
  have hreads : ∀ l (o : AuthOp T), o.Reads → Grounds P call l o := fun l o ho => by
    cases o <;> trivial
  cases call with
  | register dto => exact hquiet (by simp) (along_register dto)
  | login dto req => exact hquiet (by simp) (along_login dto req)
  | refresh req => exact hquiet (by simp) (along_refresh req)
  | route isPublic req => exact along_route isPublic req
  | notification tag payload =>
    refine (Prog.Along.of_all (fun l o ho => ?_) (auth_footprint P _)).mono fun l r _ =>
      hlets l r (by simp)
    cases ho with
    | reads _ _ h => exact hreads l _ h
    | emits => cases payload <;> trivial
    | ack | nack => trivial
  | logout req | connection socket token =>
    refine (Prog.Along.of_all (fun l o ho => ?_) (auth_footprint P _)).mono fun l r _ =>
      hlets l r (by simp)
    cases ho with
    | reads _ _ h => exact hreads l _ h
    | _ => trivial

/-! ## What a step does to the accounts -/

/-- What no statement changes of a refresh token. -/
def core (t : RefreshToken T) : Uuid × Uuid × String × Uuid :=
  (t.id, t.familyId, t.tokenHash, t.userId)

/-- What an operation writes back, it read. -/
def WritesBack (s : AuthStore T) (o : AuthOp T) : Prop :=
  ∀ e, o = .tokenSave e → ∀ t ∈ s.refreshTokens, t.id = e.id → core t = core e

/-- Users and refresh tokens stay. -/
structure Keeps (s s' : AuthStore T) : Prop where
  users : s.users ⊆ s'.users
  tokens : s.refreshTokens.map core ⊆ s'.refreshTokens.map core

variable {s s' s'' : AuthStore T} {i : Nat} {o : AuthOp T} {u : User}

omit [Ring T] [LinearOrder T] [FloorRing T] in
theorem Keeps.refl (s : AuthStore T) : Keeps s s :=
  ⟨List.Subset.refl _, List.Subset.refl _⟩

omit [Ring T] [LinearOrder T] [FloorRing T] in
theorem Keeps.trans (h : Keeps s s') (h' : Keeps s' s'') : Keeps s s'' :=
  ⟨List.Subset.trans h.users h'.users, List.Subset.trans h.tokens h'.tokens⟩

/-- An operation keeps users and tokens, if it writes back only what it read. -/
theorem effect_keeps {ch : AuthChoice} (h : AuthStore.Effect P i ch s o s')
    (hsave : WritesBack s o) : Keeps s s' := by
  constructor
  · cases h with
    | userSave d => exact List.subset_append_left _ _
    | _ => exact List.Subset.refl _
  · rcases h.tokens_cases with ⟨hsame, -⟩ | ⟨d, -, -, hrows⟩ | ⟨e, rfl, hrows⟩ | ⟨p, -, hrows⟩
    · exact hsame ▸ List.Subset.refl _
    · rw [hrows, List.map_append]
      exact List.subset_append_left _ _
    · have hcores : s'.refreshTokens.map core = s.refreshTokens.map core := by
        rw [hrows, List.map_map]
        refine List.map_congr_left fun t ht => ?_
        by_cases hid : t.id = e.id
        · simp [hid, hsave e rfl t ht hid]
        · simp [hid]
      exact hcores ▸ List.Subset.refl _
    · have hcores : s'.refreshTokens.map core = s.refreshTokens.map core := by
        rw [hrows, List.map_map]
        refine List.map_congr_left fun t _ => ?_
        by_cases hp : p t = true
        · simp [hp, core]
        · simp [hp]
      exact hcores ▸ List.Subset.refl _

/-- The users after an operation: as before, or one more, with an id nobody had. -/
theorem users_exec {w w' : World (auth T P)} {r : Except AuthErr o.Res}
    (hx : (auth T P).Exec i call o w r w') : w'.state.users = w.state.users ∨
      ∃ id d, o = .userSave d ∧ id ∉ w.state.users.map User.id ∧
        w'.state.users = w.state.users ++ [⟨id, d.email, d.passwordHash, d.role⟩] := by
  obtain ⟨-, -, ⟨-, ch, a, hs⟩ | ⟨-, hs⟩⟩ := auth_exec_cases hx
  · by_cases ho : ∃ d, o = .userSave d
    · obtain ⟨d, rfl⟩ := ho
      simp only [AuthStore.exec] at hs
      split at hs
      · exact absurd (Prod.mk.inj (Option.some.inj hs)).1 (by simp)
      · rename_i hnew
        obtain ⟨-, hs⟩ := Prod.mk.inj (Option.some.inj hs)
        refine .inr ⟨ch.fresh, d, rfl, fun hid => hnew ?_, by rw [← hs]⟩
        obtain ⟨u, hu, hid⟩ := List.mem_map.mp hid
        exact List.any_eq_true.mpr ⟨u, hu, by simp [hid]⟩
    · have he := AuthStore.exec_effect hs
      generalize w'.state = s' at he ⊢
      cases he with
      | userSave d => exact absurd ⟨d, rfl⟩ ho
      | _ => exact .inl rfl
  · exact .inl (by rw [hs])

/-! ## The invariant -/

/-- A login knew the password of the user. -/
def LoggedIn (w : World (auth T P)) (u : User) : Prop :=
  ∃ x ∈ w.trace, ∃ dto req, x.call = .login dto req ∧ u.email = dto.email ∧
    P.bcryptCompare (P.passwordPepper ++ dto.password) u.passwordHash = true

/-- **The accounts**, over the users that were there at first. -/
structure Inv (seed : List User) (w : World (auth T P)) : Prop where
  seeded : seed ⊆ w.state.users
  origin : ∀ u ∈ w.state.users, u ∈ seed ∨ u.role = .USER
  ids : (w.state.users.map User.id).Nodup
  tokenIds : w.state.TokenIds
  past : ∀ x ∈ w.trace, Keeps x.before w.state
  tokens : ∀ t ∈ w.state.refreshTokens, ∃ u ∈ w.state.users, t.userId = u.id ∧ LoggedIn w u
  signed : ∀ e ∈ w.state.signed, ∃ u ∈ w.state.users, e.2.toJwtClaims.For u ∧ LoggedIn w u ∧
    ∃ x ∈ w.trace, Signs x e ∧ Earns P x.before x.call u

variable {seed : List User} {now : T} {c : Config (auth T P)}

/-- The run is one from these users. -/
abbrev From (seed : List User) (now : T) (c : Config (auth T P)) : Prop :=
  (auth T P).Reachable ((auth T P).init (.seeded now seed)) c

/-- What thread `i` has seen in such a run. -/
abbrev Sees (seed : List User) (now : T) (i : Nat) (call : AuthCall) (l : List (Seen (AuthSig T)))
    (c : Config (auth T P)) : Prop :=
  (auth T P).Recalls ((auth T P).init (.seeded now seed)) i call l c

section Saw

variable (hl : Sees (P := P) seed now i call l c) (hinv : Inv seed c.toWorld)
include hl hinv

/-- A user that a call found is in the table. -/
theorem mem_of_userFindOne {email : String} (h : Saw l (.userFindOne email) (some u)) :
    u ∈ c.state.users ∧ u.email = email := by
  obtain ⟨x, hx, -, -, -, -, ch, s, hs⟩ := (hl.ran _ h).entry
  have hfind := Except.ok.inj (Prod.mk.inj (Option.some.inj hs)).1
  have hemail : u.email = email := by simpa using List.find?_some hfind
  exact ⟨(hinv.past x hx).users (List.mem_of_find?_eq_some hfind), hemail⟩

/-- A token that a call found is in the table, and the user found with it is its own. -/
theorem mem_of_tokenFindOne {text : String} {t : RefreshToken T} {found : Option User}
    (h : Saw l (.tokenFindOne text) (some (t, found))) :
    P.uuidOf text = some t.id ∧ (∃ t' ∈ c.state.refreshTokens, core t' = core t) ∧
      ∀ u ∈ found, u ∈ c.state.users ∧ u.id = t.userId := by
  obtain ⟨x, hx, -, -, -, -, ch, s, hs⟩ := (hl.ran _ h).entry
  simp only [AuthStore.exec] at hs
  split at hs
  · exact absurd (Prod.mk.inj (Option.some.inj hs)).1 (by simp)
  · rename_i id hid
    obtain ⟨t₀, ht₀, heq⟩ :=
      Option.map_eq_some_iff.mp (Except.ok.inj (Prod.mk.inj (Option.some.inj hs)).1)
    obtain ⟨rfl, rfl⟩ := Prod.mk.inj heq
    have hkeeps := hinv.past x hx
    refine ⟨(AuthStore.token_id ht₀).symm ▸ hid, ?_, fun u hu => ?_⟩
    · exact List.mem_map.mp (hkeeps.tokens (List.mem_map_of_mem (AuthStore.token_mem ht₀)))
    · exact ⟨hkeeps.users (List.mem_of_find?_eq_some hu), by simpa using List.find?_some hu⟩

omit hinv in
/-- A comparison that a call saw succeed. -/
theorem compare_of_saw {data hash : String} (h : Saw l (.bcryptCompare data hash) true) :
    P.bcryptCompare data hash = true ∧ ∃ x ∈ c.trace, x.call = call := by
  obtain ⟨x, hx, -, hcall, -, -, ch, s, hs⟩ := (hl.ran _ h).entry
  exact ⟨Except.ok.inj (Prod.mk.inj (Option.some.inj hs)).1, x, hx, hcall⟩

/-- **What a call saw as a proof is one**, and behind it is a login. -/
theorem earns_of_earned (h : Earned P l call u) : u ∈ c.state.users ∧ LoggedIn c.toWorld u ∧
    Earns P c.state call u := by
  cases h with
  | login dto req u hfind hpass =>
    obtain ⟨hu, hemail⟩ := mem_of_userFindOne hl hinv hfind
    obtain ⟨hcompare, x, hx, hcall⟩ := compare_of_saw hl hpass
    exact ⟨hu, ⟨x, hx, dto, req, hcall, hemail, hcompare⟩, .login dto req u hemail hcompare⟩
  | refresh req rawCookie text secret t u hcookie hparts hfind hsecret =>
    obtain ⟨hid, ⟨t', ht', hcore⟩, huser⟩ := mem_of_tokenFindOne hl hinv hfind
    obtain ⟨hu, hown⟩ := huser u rfl
    obtain ⟨hcompare, -⟩ := compare_of_saw hl hsecret
    obtain ⟨hid', -, hhash, huser'⟩ : t'.id = t.id ∧ t'.familyId = t.familyId ∧
        t'.tokenHash = t.tokenHash ∧ t'.userId = t.userId := by simpa [core] using hcore
    obtain ⟨u', hu', hown', hlogin⟩ := hinv.tokens t' ht'
    obtain rfl : u' = u := List.inj_on_of_nodup_map hinv.ids hu' hu
      (hown'.symm.trans (huser'.trans hown.symm))
    exact ⟨hu, hlogin, .refresh req rawCookie text secret t' u' hcookie hparts ht'
      (hid'.symm ▸ hid) hown' (hhash.symm ▸ hcompare)⟩

end Saw

theorem LoggedIn.later {w w' : World (auth T P)} (h : LoggedIn w u) (hle : w.trace <:+ w'.trace) :
    LoggedIn w' u := by
  obtain ⟨x, hx, h⟩ := h
  exact ⟨x, hle.subset hx, h⟩

omit [Ring T] [LinearOrder T] [FloorRing T] in
theorem userId_of_core {t t' : RefreshToken T} (h : core t = core t') : t.userId = t'.userId :=
  congrArg (fun k => k.2.2.2) h

/-- Every token was there with its user, or has just been inserted. -/
theorem token_before {ch : AuthChoice} (h : AuthStore.Effect P i ch s o s')
    (hsave : WritesBack s o) {t : RefreshToken T} (ht : t ∈ s'.refreshTokens) :
    (∃ t₀ ∈ s.refreshTokens, t.userId = t₀.userId) ∨
      ∃ d, o = .tokenInsert d ∧ t.userId = d.userId := by
  rcases h.tokens_cases with ⟨hsame, -⟩ | ⟨d, rfl, -, hrows⟩ | ⟨e, rfl, hrows⟩ | ⟨p, -, hrows⟩
  · exact .inl ⟨t, hsame ▸ ht, rfl⟩
  · rcases List.mem_append.mp (hrows ▸ ht) with ht | ht
    · exact .inl ⟨t, ht, rfl⟩
    · obtain rfl := List.mem_singleton.mp ht
      exact .inr ⟨d, rfl, rfl⟩
  · obtain ⟨t₀, ht₀, rfl⟩ := List.mem_map.mp (hrows ▸ ht)
    refine .inl ⟨t₀, ht₀, ?_⟩
    by_cases hid : t₀.id = e.id
    · rw [if_pos hid]
      exact (userId_of_core (hsave e rfl t₀ ht₀ hid)).symm
    · rw [if_neg hid]
  · obtain ⟨t₀, ht₀, rfl⟩ := List.mem_map.mp (hrows ▸ ht)
    refine .inl ⟨t₀, ht₀, ?_⟩
    split <;> rfl

section Exec

variable {w' : World (auth T P)} {r : Except AuthErr o.Res} (hc : From seed now c)
  (hw : c.Waits i call o) (hx : (auth T P).Exec i call o c.toWorld r w')
  (hinv : Inv seed c.toWorld)
include hc hw hinv

theorem writesBack : WritesBack c.state o := by
  rintro e rfl t ht hid
  obtain ⟨l, hl, text, t₀, found, hsaw, rfl⟩ := Machine.along_waits along_call hc hw
  obtain ⟨-, ⟨t', ht', hcore⟩, -⟩ := mem_of_tokenFindOne hl hinv hsaw
  have hid' : t.id = t'.id := hid.trans (congrArg Prod.fst hcore).symm
  rw [hinv.tokenIds.eq ht ht' hid', hcore]
  rfl

include hx

theorem keeps_exec : Keeps c.state w'.state := by
  rcases auth_exec_effect hx with hsame | ⟨ch, he⟩
  · rw [hsame]
    exact .refl _
  · exact effect_keeps he (writesBack hc hw hinv)

/-- **One operation keeps the accounts.** -/
theorem inv_exec : Inv seed w' := by
  have hkeeps := keeps_exec hc hw hx hinv
  obtain ⟨took, htr, hends⟩ := auth_exec_cases hx
  have hle : c.trace <:+ w'.trace := htr ▸ List.suffix_cons _ _
  obtain ⟨l, hl, hG⟩ := Machine.along_waits along_call hc hw
  refine ⟨List.Subset.trans hinv.seeded hkeeps.users, fun u hu => ?_, ?_, ?_, fun x hxt => ?_,
    fun t ht => ?_, fun e he => ?_⟩
  · rcases users_exec hx with hsame | ⟨id, d, rfl, -, husers⟩
    · exact hinv.origin u (hsame ▸ hu)
    · rcases List.mem_append.mp (husers ▸ hu) with hu | hu
      · exact hinv.origin u hu
      · obtain rfl := List.mem_singleton.mp hu
        exact .inr hG
  · rcases users_exec hx with hsame | ⟨id, d, rfl, hnew, husers⟩
    · exact hsame ▸ hinv.ids
    · rw [husers, List.map_append]
      refine List.nodup_append.mpr ⟨hinv.ids, List.nodup_singleton _, ?_⟩
      rintro a ha b hb rfl
      have hid : a = id := List.mem_singleton.mp hb
      exact hnew (hid ▸ ha)
  · rcases auth_exec_effect hx with hsame | ⟨ch, he⟩
    · exact hsame ▸ hinv.tokenIds
    · exact he.tokenIds hinv.tokenIds
  · rcases List.mem_cons.mp (htr ▸ hxt) with rfl | hxt
    · exact hkeeps
    · exact (hinv.past x hxt).trans hkeeps
  · have hold : (∃ t₀ ∈ c.state.refreshTokens, t.userId = t₀.userId) →
        ∃ u ∈ w'.state.users, t.userId = u.id ∧ LoggedIn w' u := by
      rintro ⟨t₀, ht₀, huser⟩
      obtain ⟨u, hu, hown, hlogin⟩ := hinv.tokens t₀ ht₀
      exact ⟨u, hkeeps.users hu, huser.trans hown, hlogin.later hle⟩
    rcases auth_exec_effect hx with hsame | ⟨ch, he⟩
    · exact hold ⟨t, hsame ▸ ht, rfl⟩
    · rcases token_before he (writesBack hc hw hinv) ht with hbefore | ⟨d, rfl, huser⟩
      · exact hold hbefore
      · obtain ⟨u, hearned, hown⟩ := hG
        obtain ⟨hu, hlogin, -⟩ := earns_of_earned hl hinv hearned
        exact ⟨u, hkeeps.users hu, huser.trans hown, hlogin.later hle⟩
  · have hold : e ∈ c.state.signed → ∃ u ∈ w'.state.users, e.2.toJwtClaims.For u ∧
        LoggedIn w' u ∧ ∃ x ∈ w'.trace, Signs x e ∧ Earns P x.before x.call u := by
      intro he
      obtain ⟨u, hu, hfor, hlogin, x, hx, hsigns, hearns⟩ := hinv.signed e he
      exact ⟨u, hkeeps.users hu, hfor, hlogin.later hle, x, hle.subset hx, hsigns, hearns⟩
    rcases hends with ⟨rfl, ch, a, hs⟩ | ⟨-, hsame⟩
    · rcases (AuthStore.exec_effect hs).signed_cases with hsame | ⟨claims, rfl, hsigned⟩
      · exact hold (hsame ▸ he)
      · rcases List.mem_cons.mp (hsigned ▸ he) with rfl | he
        · obtain ⟨u, hearned, hfor⟩ := hG
          obtain ⟨hu, hlogin, hearns⟩ := earns_of_earned hl hinv hearned
          exact ⟨u, hkeeps.users hu, hfor, hlogin.later hle, _, htr ▸ List.mem_cons_self,
            ⟨rfl, claims, rfl, rfl⟩, hearns⟩
        · exact hold he
    · exact hold (hsame ▸ he)

end Exec

/-- Tokens stay signed. -/
theorem signed_reach {c c' : Config (auth T P)} (h : (auth T P).Reachable c c') :
    c.state.signed ⊆ c'.state.signed := by
  refine h.follow (J := fun w : World (auth T P) => c.state.signed ⊆ w.state.signed)
    (List.Subset.refl _) (fun call s s' l hst hsub => ?_) (fun v s s' l hv hsub => ?_)
    fun _ _ _ _ hx hsub => ?_
  · exact (auth_start_tables hst).2.2.1 ▸ hsub
  · exact (auth_env_tables hv).2.2.1 ▸ hsub
  · rcases auth_exec_effect hx with hsame | ⟨ch, he⟩
    · exact hsame ▸ hsub
    · exact List.Subset.trans hsub he.signed_subset

/-- Starting a call, and the surroundings, leave the accounts alone. -/
theorem Inv.same {trace : List (Entry (auth T P))} (h : Inv (P := P) seed ⟨s, trace⟩)
    (husers : s'.users = s.users) (htokens : s'.refreshTokens = s.refreshTokens)
    (hsigned : s'.signed = s.signed) : Inv (P := P) seed ⟨s', trace⟩ := by
  have hkeeps : Keeps s s' := ⟨husers ▸ List.Subset.refl _, htokens ▸ List.Subset.refl _⟩
  refine ⟨husers ▸ h.seeded, husers ▸ h.origin, husers ▸ h.ids, ?_,
    fun x hx => (h.past x hx).trans hkeeps, htokens ▸ husers ▸ h.tokens, fun e he => ?_⟩
  · unfold AuthStore.TokenIds
    rw [htokens]
    exact h.tokenIds
  · obtain ⟨u, hu, hfor, hlogin, hsigner⟩ := h.signed e (hsigned ▸ he)
    exact ⟨u, hkeeps.users hu, hfor, hlogin, hsigner⟩

/-- **Every run keeps the accounts.** -/
theorem accounts (hids : (seed.map User.id).Nodup) (hc : From (P := P) seed now c) :
    Inv seed c.toWorld := by
  refine hc.follow (J := Inv seed) ⟨List.Subset.refl _, fun u hu => .inl hu, hids, List.nodup_nil,
      by simp [Machine.init], by simp [Machine.init, AuthStore.seeded, AuthStore.empty],
      by simp [Machine.init, AuthStore.seeded, AuthStore.empty]⟩
    (fun call s s' l hst h => ?_) (fun v s s' l hv h => ?_)
    fun hc _ hw _ hx h => inv_exec hc hw hx h
  · obtain ⟨htokens, -, hsigned, -⟩ := auth_start_tables hst
    exact h.same (Passwords.start_users hst) htokens hsigned
  · obtain ⟨htokens, -, hsigned, -⟩ := auth_env_tables hv
    exact h.same (Passwords.env_users hv) htokens hsigned

/-- A request that the guard let pass shows a token of a user. -/
theorem user_of_allowed (hids : (seed.map User.id).Nodup) (hc : From (P := P) seed now c)
    {req : Request} {p : JwtPayload} {isPublic : Bool}
    (h : c.Returned i (.route isPublic req) (.allowed (some p))) : ∃ token,
      JwtAuthGuard.extractToken req.authorization = some token ∧ (token, p) ∈ c.state.signed ∧
      ∃ u ∈ c.state.users, p.toJwtClaims.For u ∧ (u ∈ seed ∨ u.role = .USER) := by
  have hinv := accounts hids hc
  obtain ⟨l, hl, hlets⟩ := Machine.along_returned along_call hc h
  rcases hlets _ _ _ rfl rfl with ⟨-, hnone⟩ | ⟨token, p', hp, htoken, hsaw⟩
  · exact absurd hnone (by simp)
  · obtain rfl := Option.some.inj hp
    obtain ⟨c₁, c₂, m, h₁, -, -, hx, h₂⟩ := hl.ran _ hsaw
    obtain ⟨ch, hs, -⟩ := auth_exec_ok hx
    obtain ⟨hverify, hstate⟩ := Prod.mk.inj (Option.some.inj hs)
    have hmem := AuthStore.mem_signed (AuthStore.verify_ok hverify).1
    have hsigned : (token, p) ∈ c.state.signed := signed_reach h₂ (hstate ▸ hmem)
    obtain ⟨u, hu, hfor, -⟩ := hinv.signed _ hsigned
    exact ⟨token, htoken, hsigned, u, hu, hfor, hinv.origin u hu⟩

end Accounts

section Runs

variable [Ring T] [LinearOrder T] [FloorRing T] {P : Platform} {seed : List User} {now : T}

/-- **Access tokens are earned**: each speaks for a user of the table, was signed by a call that had
proved by then to act for this user, and goes back to a login with this user's password. Whoever was
not there at first is a `USER`. -/
theorem auth_tokens_earned {c : Config (auth T P)} (hids : (seed.map User.id).Nodup)
    (hc : (auth T P).Reachable ((auth T P).init (.seeded now seed)) c) :
    ∀ e ∈ c.state.signed, ∃ u ∈ c.state.users, e.2.toJwtClaims.For u ∧
      (u ∈ seed ∨ u.role = .USER) ∧
      (∃ x ∈ c.trace, Signs x e ∧ c.Started x.tid x.call ∧ Earns P x.before x.call u) ∧
      ∃ i dto req, c.Started i (.login dto req) ∧ u.email = dto.email ∧
        P.bcryptCompare (P.passwordPepper ++ dto.password) u.passwordHash = true := by
  intro e he
  have hinv := Accounts.accounts hids hc
  have hstarted := Machine.entry_started hc
  obtain ⟨u, hu, hfor, ⟨x, hx, dto, req, hcall, hlogin⟩, y, hy, hsigns, hearns⟩ :=
    hinv.signed e he
  exact ⟨u, hu, hfor, hinv.origin u hu, ⟨y, hy, hsigns, hstarted y hy, hearns⟩,
    x.tid, dto, req, hcall ▸ hstarted x hx, hlogin⟩

end Runs

/-- An administrator, who was there at first. -/
def sampleAdmin : User := ⟨1, "admin@b.c", "password12", .ADMIN⟩

/-- User 7 registers, logs in, and refreshes; the administrator logs in. -/
def twoSessions : List (Event (auth ℤ sample)) :=
  signedIn ++ rotation 2 ++ rotated 2 41 ++
  .spawn 3 (.login ⟨"admin@b.c", "password12"⟩ {}) ::
  answer 3 [{}, {}, { fresh := 60 }, {}, { secret := "s" }, {}, { fresh := 61 }, {},
    { fresh := 62 }]

/-- Three access tokens, of both users. -/
theorem auth_tokens_earned_three : ∃ c,
    (auth ℤ sample).replay ((auth ℤ sample).init (.seeded 0 [sampleAdmin])) twoSessions = some c ∧
    c.state.signed.map (fun e => (e.2.sub, e.2.role)) = [(1, .ADMIN), (7, .USER), (7, .USER)] ∧
    ∀ e ∈ c.state.signed, ∃ u ∈ c.state.users, e.2.toJwtClaims.For u ∧
      (u ∈ [sampleAdmin] ∨ u.role = .USER) ∧
      (∃ x ∈ c.trace, Signs x e ∧ c.Started x.tid x.call ∧ Earns sample x.before x.call u) ∧
      ∃ i dto req, c.Started i (.login dto req) ∧ u.email = dto.email ∧
        sample.bcryptCompare (sample.passwordPepper ++ dto.password) u.passwordHash = true := by
  obtain ⟨c, hr, hsigned⟩ : ∃ c, (auth ℤ sample).replay
      ((auth ℤ sample).init (.seeded 0 [sampleAdmin])) twoSessions = some c ∧
      c.state.signed.map (fun e => (e.2.sub, e.2.role)) =
        [(1, .ADMIN), (7, .USER), (7, .USER)] := ⟨_, rfl, rfl⟩
  exact ⟨c, hr, hsigned, auth_tokens_earned (by decide) (.of_replay .init hr)⟩

end BoltBet
