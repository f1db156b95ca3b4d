import BoltBet.Identity.Logout

/-!
# What the cookie `refresh_token` does without its secret

`logout` and `refresh` cut the cookie themselves, and touch Redis and the tokens before they look
at the secret, or without looking at it.

* `CookieReadable`: Postgres reads the id that `logout` cuts out of the cookie.
* **`logout_blacklists_iff`**: a logout with a valid access token blacklists it exactly when the
  cookie is readable; otherwise the statement before raises.
* `Shows`: the cookie is an id and the secret of the token with that id.
* **`tokens_untouched_iff`**: a refresh or a logout that does not show a secret leaves the tokens
  alone, however it ends, exactly when its id names no token that it would revoke unseen.
-/

namespace BoltBet

open Async Auth

variable {T : Type} [Ring T] [LinearOrder T] [FloorRing T] {P : Platform} {i : Nat}
  {s s' : AuthStore T}

/-! ## Logout and the access token -/

/-- Postgres reads the id that `logout` cuts out of the cookie, if it asks Postgres at all. -/
def CookieReadable (P : Platform) : Option String → Prop
  | none => True
  | some rawCookie => cookieId rawCookie = "" ∨ (P.uuidOf (cookieId rawCookie)).isSome

/-- **The logout blacklists its token**: with everything available the call ends, and the key is
set for the rest of the token's life. -/
def LogoutBlacklists (P : Platform) (s : AuthStore T) (payload : JwtPayload) (req : Request) :
    Prop :=
  ∀ i (φ : Nat → AuthChoice), ∃ r s',
    (auth T P).finish i (IdentityService.logout payload req) s (fun n => .ok (φ n)) =
      some (r, s') ∧
    s'.blacklist payload.jti = some (s.now + ((payload.exp - ⌊s.now⌋ : Int) : T))

section Logout

variable {φ : Nat → AuthChoice} {req : Request} {payload : JwtPayload}

/-- One operation, and then the rest. -/
theorem finish_op {α : Type} {o : AuthOp T} {f : o.Res → Prog (AuthSig T) α}
    {r : Except AuthErr o.Res} {took : Bool}
    (h : (auth T P).answer i (.ok (φ 0)) o s = some (r, s', took)) :
    (auth T P).finish i (op o >>= f) s (fun n => .ok (φ n)) =
      (auth T P).finish i (Prog.ofExcept r >>= f) s' fun n => .ok (φ (n + 1)) :=
  Machine.finish_perform h

/-- The statement built from the cookie, in front of any program. -/
theorem finish_revokeCookie {α : Type} (f : Unit → Prog (AuthSig T) α) :
    (CookieReadable P req.refreshToken → ∃ s', ∃ ψ : Nat → AuthChoice,
      s'.now = s.now ∧ s'.blacklist = s.blacklist ∧
      (auth T P).finish i (IdentityService.revokeCookie req >>= f) s (fun n => .ok (φ n)) =
        (auth T P).finish i (f ()) s' fun n => .ok (ψ n)) ∧
    (¬ CookieReadable P req.refreshToken →
      (auth T P).finish i (IdentityService.revokeCookie req >>= f) s (fun n => .ok (φ n)) =
        some (.error (.QueryFailedError "invalid input syntax for type uuid"), s)) := by
  unfold IdentityService.revokeCookie
  cases hcookie : req.refreshToken with
  | none => exact ⟨fun _ => ⟨s, φ, rfl, rfl, rfl⟩, fun h => absurd trivial h⟩
  | some raw =>
    by_cases hempty : cookieId raw = ""
    · simp only [hempty, if_true]
      exact ⟨fun _ => ⟨s, φ, rfl, rfl, rfl⟩, fun h => absurd (.inl hempty) h⟩
    · simp only [if_neg hempty]
      cases hid : P.uuidOf (cookieId raw) with
      | none =>
        have hx : (auth T P).answer i (.ok (φ 0)) (.tokenRevoke (cookieId raw)) s =
            some (.error (.QueryFailedError "invalid input syntax for type uuid"), s, false) := by
          simp [Machine.answer, AuthStore.exec, hid, Except.toBool]
        refine ⟨fun h => ?_, fun _ => finish_op hx⟩
        rcases h with h | h
        · exact absurd h hempty
        · exact absurd h (by simp [hid])
      | some id =>
        have hx : (auth T P).answer i (.ok (φ 0)) (.tokenRevoke (cookieId raw)) s =
            some (.ok (), s.revoke (·.id = id), true) := by
          simp [Machine.answer, AuthStore.exec, hid, Except.toBool]
        refine ⟨fun _ => ⟨s.revoke (·.id = id), fun n => φ (n + 1), rfl, rfl, finish_op hx⟩,
          fun h => ?_⟩
        exact absurd (.inr (by simp [hid])) h

/-- The second step, with everything available. -/
theorem finish_blacklist (h : ⌊s.now⌋ < payload.exp) :
    (auth T P).finish i (IdentityService.blacklist payload) s (fun n => .ok (φ n)) =
      some (.ok (), { s with
        blacklist := Function.update s.blacklist payload.jti
          (some (s.now + ((payload.exp - ⌊s.now⌋ : Int) : T))) }) := by
  have httl : 0 < payload.exp - ⌊s.now⌋ := sub_pos.mpr h
  unfold IdentityService.blacklist
  rw [finish_op (o := .clock) rfl]
  simp only [Prog.ofExcept, Prog.ret_bind]
  rw [if_pos httl]
  rfl

variable [IsStrictOrderedRing T]

/-- **A logout with a valid token blacklists it** exactly when the cookie is readable. -/
theorem logout_blacklists_iff (hexp : ⌊s.now⌋ < payload.exp)
    (hvalid : s.blacklisted payload.jti = false) :
    LogoutBlacklists P s payload req ↔ CookieReadable P req.refreshToken := by
  constructor
  · intro h
    by_contra hbad
    obtain ⟨r, s', hr, hset⟩ := h 0 fun _ => {}
    have he := (finish_revokeCookie (i := 0) (s := s) (φ := fun _ => {})
      fun _ => IdentityService.blacklist (T := T) payload).2 hbad
    obtain ⟨-, rfl⟩ := Prod.mk.inj (Option.some.inj (he.symm.trans hr))
    have hpos : (0 : T) < ((payload.exp - ⌊s.now⌋ : Int) : T) :=
      Int.cast_pos.mpr (sub_pos.mpr hexp)
    unfold AuthStore.blacklisted at hvalid
    rw [hset] at hvalid
    exact absurd (lt_add_of_pos_right s.now hpos) (of_decide_eq_false hvalid)
  · intro h i φ
    obtain ⟨s', ψ, hnow, -, hr⟩ :=
      (finish_revokeCookie fun _ => IdentityService.blacklist (T := T) payload).1 h
    refine ⟨_, _, hr.trans (finish_blacklist (hnow ▸ hexp)), ?_⟩
    rw [← hnow]
    exact Function.update_self ..

end Logout

/-- The access token of user 7. -/
def payload20 : JwtPayload := ⟨⟨7, .USER, "free", 20⟩, 0, 900⟩

/-- With a cookie that names a UUID the token is blacklisted. -/
theorem logout_blacklists_forty :
    LogoutBlacklists sample (.empty (0 : ℤ)) payload20 cookie40 :=
  (logout_blacklists_iff (by decide) (by decide)).mpr (.inr (by decide +kernel))

/-- A request with a cookie that nobody set. -/
def cookieXy : Request := { refreshToken := some "xy" }

/-- A cookie without a colon loses its last character; what is left is no UUID, the call throws, and
the token stays valid. -/
theorem logout_leaves_token :
    (auth ℤ sample).finish 0 (IdentityService.logout payload20 cookieXy)
        (.empty 0) (fun _ => .ok {}) =
      some (.error (.QueryFailedError "invalid input syntax for type uuid"), .empty 0) ∧
    ¬ LogoutBlacklists sample (.empty (0 : ℤ)) payload20 cookieXy := by
  have hbad : ¬ CookieReadable sample cookieXy.refreshToken := by
    rintro (h | h)
    · exact absurd h (by decide +kernel)
    · exact absurd h (by decide +kernel)
  have hrun := (finish_revokeCookie (i := 0) (s := .empty (0 : ℤ)) (φ := fun _ => {})
    fun _ => IdentityService.blacklist payload20).2 hbad
  refine ⟨hrun, fun h => ?_⟩
  obtain ⟨r, s', hr, hset⟩ := h 0 fun _ => {}
  obtain ⟨-, rfl⟩ := Prod.mk.inj (Option.some.inj (hrun.symm.trans hr))
  exact absurd hset (by simp [AuthStore.empty])

/-! ## The tokens and the secret -/

/-- A request with the cookie `refresh_token`. -/
inductive TokenRequest where
  | refresh (req : Request)
  | logout (payload : JwtPayload) (req : Request)

namespace TokenRequest

/-- The HTTP request. -/
def http : TokenRequest → Request
  | refresh req => req
  | logout _ req => req

/-- The program of a request; its answer is left out. -/
def body (P : Platform) : TokenRequest → Prog (AuthSig T) Unit
  | refresh req => (fun _ => ()) <$> IdentityService.refresh P req
  | logout payload req => IdentityService.logout payload req

/-- The id names a token that the request would revoke without its secret: `logout` any token,
`refresh` the family of one that is used. -/
def RevokesUnseen (P : Platform) (s : AuthStore T) : TokenRequest → Prop
  | refresh req => ∃ id t, req.presents P = some id ∧ s.token id = some t ∧ t.revoked = false ∧
      t.used = true
  | logout _ req => ∃ raw id, req.refreshToken = some raw ∧ cookieId raw ≠ "" ∧
      P.uuidOf (cookieId raw) = some id ∧ ∃ t ∈ s.refreshTokens, t.id = id ∧ t.revoked = false

end TokenRequest

/-- The cookie is `{id}:{secret}`, with the secret of the token with that id. -/
def Shows (P : Platform) (s : AuthStore T) (req : Request) : Prop :=
  ∃ text secret id t, req.refreshToken.bind cookieParts = some (text, secret) ∧
    P.uuidOf text = some id ∧ s.token id = some t ∧ P.bcryptCompare secret t.tokenHash = true

/-- **The request leaves the tokens alone**, however its operations end, and where it stops. -/
def TokensUntouched (P : Platform) (s : AuthStore T) (request : TokenRequest) : Prop :=
  ∀ i, (auth T P).Always i (fun _ => True) (fun _ s' => s'.refreshTokens = s.refreshTokens)
    (request.body P) s

section Tokens

variable {req : Request}

/-- What a read leaves and answers. -/
theorem always_read {o : AuthOp T} (ho : o.Reads) :
    (auth T P).Always i (fun _ => True) (fun x s' => s' = s ∧
      ∀ a, x = some (.ok a) → ∃ ch, s.exec P i ch o = some (.ok a, s)) (op o) s := by
  refine always_auth_op ⟨rfl, by simp⟩ fun m r s₁ took ha => ?_
  rcases Machine.answer_cases ha with ⟨ch, r₀, hx, hr, -⟩ | ⟨e, rfl, rfl, -⟩
  · obtain rfl : s₁ = s := by
      cases r₀ with
      | error e => exact AuthStore.exec_error hx
      | ok a =>
        cases AuthStore.exec_effect hx with
        | none => rfl
        | _ => exact ho.elim
    refine ⟨rfl, fun a ha => ⟨ch, ?_⟩⟩
    obtain rfl := Option.some.inj ha
    rcases hr with rfl | ⟨e, he⟩
    · exact hx
    · exact absurd he (by simp)
  · exact ⟨rfl, fun a ha => absurd (Option.some.inj ha) (by simp)⟩

/-- What a lookup by the id of a cookie finds. -/
theorem found_of_exec {ch : AuthChoice} {text : String}
    {a : Option (RefreshToken T × Option User)}
    (h : s.exec P i ch (.tokenFindOne text) = some (.ok a, s)) :
    ∃ id, P.uuidOf text = some id ∧ ∀ t u, a = some (t, u) → s.token id = some t := by
  simp only [AuthStore.exec] at h
  split at h
  · exact absurd (Prod.mk.inj (Option.some.inj h)).1 (by simp)
  · rename_i id hid
    obtain rfl := Except.ok.inj (Prod.mk.inj (Option.some.inj h)).1
    refine ⟨id, hid, fun t u htu => ?_⟩
    obtain ⟨t', ht', he⟩ := Option.map_eq_some_iff.mp htu
    obtain ⟨rfl, -⟩ := Prod.mk.inj he
    exact ht'

theorem exchange_untouched {secret : String} {t : RefreshToken T} {user : Option User}
    (hunused : t.revoked = false → t.used = false)
    (hsecret : P.bcryptCompare secret t.tokenHash = false) :
    (auth T P).Always i (fun _ => True) (fun _ s' => s'.refreshTokens = s.refreshTokens)
      (IdentityService.exchange P req secret t user) s := by
  unfold IdentityService.exchange
  split
  · exact Machine.always_throw rfl
  · rename_i hrevoked
    rw [hunused (Bool.not_eq_true _ ▸ hrevoked)]
    simp only [Bool.false_eq_true, if_false]
    refine Machine.always_seq (always_read trivial) (fun now s₁ h₁ => ?_) (fun e s₁ h => h.1 ▸ rfl)
      fun s₁ h => h.1 ▸ rfl
    obtain ⟨rfl, -⟩ := h₁
    split
    · exact Machine.always_throw rfl
    · refine Machine.always_seq (always_read trivial) (fun same s₂ h₂ => ?_)
        (fun e s₂ h => h.1 ▸ rfl) fun s₂ h => h.1 ▸ rfl
      obtain ⟨rfl, hcompare⟩ := h₂
      obtain ⟨ch, hx⟩ := hcompare same rfl
      obtain rfl : P.bcryptCompare secret t.tokenHash = same :=
        Except.ok.inj (Prod.mk.inj (Option.some.inj hx)).1
      rw [hsecret]
      exact Machine.always_throw rfl

theorem refresh_untouched (hno : ¬ Shows P s req)
    (h : ¬ (TokenRequest.refresh req).RevokesUnseen P s) :
    TokensUntouched P s (.refresh req) := by
  intro i
  refine Machine.always_map ?_
  show (auth T P).Always i _ (fun _ s' => s'.refreshTokens = s.refreshTokens) _ s
  unfold IdentityService.refresh
  split
  · exact Machine.always_throw rfl
  · exact Machine.always_throw rfl
  · rename_i raw hraw
    split
    · exact Machine.always_throw rfl
    · rename_i text secret hparts
      have hcookie : req.refreshToken.bind cookieParts = some (text, secret) := by
        rw [hraw, Option.bind_some, hparts]
      refine Machine.always_seq (always_read trivial) (fun found s₁ h₁ => ?_)
        (fun e s₁ h => h.1 ▸ rfl) fun s₁ h => h.1 ▸ rfl
      obtain ⟨rfl, hfound⟩ := h₁
      obtain ⟨ch, hx⟩ := hfound found rfl
      obtain ⟨id, hid, htoken⟩ := found_of_exec hx
      have hpresents : req.presents P = some id := by
        unfold Request.presents
        rw [hcookie, Option.bind_some, hid]
      split
      · exact Machine.always_throw rfl
      · rename_i t user
        have ht := htoken t user rfl
        refine exchange_untouched (fun hrevoked => ?_) ?_
        · by_contra hused
          exact h ⟨id, t, hpresents, ht, hrevoked, Bool.not_eq_false _ ▸ hused⟩
        · by_contra hsecret
          exact hno ⟨text, secret, id, t, hcookie, hid, ht, Bool.not_eq_false _ ▸ hsecret⟩

theorem logout_untouched {payload : JwtPayload}
    (h : ¬ (TokenRequest.logout payload req).RevokesUnseen P s) :
    TokensUntouched P s (.logout payload req) := by
  intro i
  refine Machine.always_seq
    (Q := fun _ (s' : AuthStore T) => s'.refreshTokens = s.refreshTokens) ?_
    (fun _ s₁ h₁ => ?_) (fun e s₁ h => h) fun s₁ h => h
  · unfold IdentityService.revokeCookie
    split
    · exact Machine.always_ret rfl
    · rename_i raw hraw
      split
      · exact Machine.always_ret rfl
      · rename_i hid
        refine always_auth_op (o := .tokenRevoke _) rfl fun m r s₁ took ha => ?_
        rcases Machine.answer_cases ha with ⟨ch, r₀, hx, -, -⟩ | ⟨e, -, rfl, -⟩
        · have hx : s.exec P i ch (.tokenRevoke (cookieId raw)) = some (r₀, s₁) := hx
          cases r₀ with
          | error e => rw [AuthStore.exec_error hx]
          | ok a =>
            obtain ⟨id, hid', rfl⟩ := (AuthStore.exec_effect hx).tokenRevoke_eq
            refine AuthStore.revoke_same fun t ht hp => ?_
            by_contra hr
            exact h ⟨raw, id, hraw, hid, hid', t, ht, of_decide_eq_true hp,
              Bool.not_eq_true _ ▸ hr⟩
        · rfl
  · unfold IdentityService.blacklist
    refine Machine.always_seq (always_read trivial) (fun now s₂ h₂ => ?_)
      (fun e s₂ h => h.1 ▸ h₁) fun s₂ h => h.1 ▸ h₁
    obtain ⟨rfl, -⟩ := h₂
    simp only []
    split
    · refine always_auth_op (o := .blacklistSet ..) h₁ fun m r s₃ took ha => ?_
      rcases Machine.answer_cases ha with ⟨ch, r₀, hx, -, -⟩ | ⟨e, -, rfl, -⟩
      · obtain ⟨-, rfl⟩ := Prod.mk.inj (Option.some.inj hx)
        exact h₁
      · exact h₁
    · exact Machine.always_ret h₁

/-- A used token is shown by its id: its family is revoked. -/
theorem refresh_touches (h : (TokenRequest.refresh req).RevokesUnseen P s) :
    ¬ TokensUntouched P s (.refresh req) := by
  obtain ⟨id, t, hpresents, ht, hrevoked, hused⟩ := h
  obtain ⟨⟨text, secret⟩, hcookie, hid⟩ := Option.bind_eq_some_iff.mp hpresents
  obtain ⟨raw, hraw, hparts⟩ := Option.bind_eq_some_iff.mp hcookie
  intro hall
  have hne : raw ≠ "" := by
    rintro rfl
    have hempty : cookieParts "" = none := by decide +kernel
    exact absurd (hempty.symm.trans hparts) (by simp)
  obtain ⟨k, hbody, hk⟩ : ∃ k, (TokenRequest.refresh req).body P (T := T) =
      op (.tokenFindOne text) >>= k ∧ ∀ stored user, k (some (stored, user)) =
        (fun _ => ()) <$> IdentityService.exchange P req secret stored user := by
    have hrefresh : (TokenRequest.refresh req).body P (T := T) =
        (fun _ => ()) <$> IdentityService.refresh P req := rfl
    rw [hrefresh]
    unfold IdentityService.refresh
    split
    · rename_i h
      exact absurd (hraw.symm.trans h) (by simp)
    · rename_i h
      exact absurd (Option.some.inj (hraw.symm.trans h)) hne
    · rename_i raw' h
      obtain rfl := Option.some.inj (hraw.symm.trans h)
      simp only [hparts, map_bind]
      exact ⟨_, rfl, fun _ _ => rfl⟩
  have hfind : (auth T P).answer 0 (.ok {}) (.tokenFindOne text) s =
      some (.ok (some (t, s.users.find? (·.id = t.userId))), s, true) := by
    simp [Machine.answer, AuthStore.exec, hid, ht, Except.toBool]
  have hrun : (auth T P).finish 0 ((TokenRequest.refresh req).body P) s (fun _ => .ok {}) =
      some (.error (.UnauthorizedException
        "Refresh token reuse detected — all sessions have been revoked"),
        s.revoke (·.familyId = t.familyId)) := by
    rw [hbody, finish_op (φ := fun _ => {}) hfind]
    simp only [Prog.ofExcept, Prog.ret_bind, hk, IdentityService.exchange, hrevoked, hused,
      Bool.false_eq_true, if_false, if_true, map_bind]
    rw [finish_op (φ := fun _ => {}) (o := .familyRevoke t.familyId) rfl]
    rfl
  obtain ⟨n, hruns⟩ := Machine.Runs.of_finish hrun
  exact AuthStore.revoke_changes (AuthStore.token_mem ht) (by simp) hrevoked
    (hall 0 _ _ _ (fun _ _ => trivial) hruns)

theorem logout_touches {payload : JwtPayload}
    (h : (TokenRequest.logout payload req).RevokesUnseen P s) :
    ¬ TokensUntouched P s (.logout payload req) := by
  obtain ⟨raw, id, hraw, hne, hid, t, ht, htid, hrevoked⟩ := h
  intro hall
  have hx : (auth T P).answer 0 (.ok {}) (.tokenRevoke (cookieId raw)) s =
      some (.ok (), s.revoke (·.id = id), true) := by
    simp [Machine.answer, AuthStore.exec, hid, Except.toBool]
  -- the process stops behind the statement
  have hruns : (auth T P).Runs 0 ((TokenRequest.logout payload req).body P) s [.ok {}] none
      (s.revoke (·.id = id)) := by
    unfold TokenRequest.body IdentityService.logout IdentityService.revokeCookie
    simp only [hraw, if_neg hne]
    exact .await hx (.stop ..)
  exact AuthStore.revoke_changes ht (by simpa using htid) hrevoked
    (hall 0 _ _ _ (fun _ _ => trivial) hruns)

/-- **A request without the secret leaves the tokens alone** exactly when its id names no token that
it revokes unseen. -/
theorem tokens_untouched_iff {request : TokenRequest} (hno : ¬ Shows P s request.http) :
    TokensUntouched P s request ↔ ¬ request.RevokesUnseen P s := by
  cases request with
  | refresh req => exact ⟨fun h hr => refresh_touches hr h, refresh_untouched hno⟩
  | logout payload req => exact ⟨fun h hr => logout_touches hr h, logout_untouched⟩

end Tokens

/-- The id of the token 40, and a guess. -/
def guess40 : Request := { refreshToken := some "40:guess" }

/-- After the login of user 7, the token 40 is there with the secret "s", neither used nor
revoked. -/
theorem signedIn_forty : ∃ c,
    (auth ℤ sample).replay ((auth ℤ sample).init (.empty 0)) signedIn = some c ∧
    (c.state.token 40).map (fun t => (t.tokenHash, t.used, t.revoked)) =
      some ("s", false, false) := by
  obtain ⟨c, hr, h⟩ := Machine.exists_of_replay (fun c : Config (auth ℤ sample) =>
    (c.state.token 40).map (fun t => (t.tokenHash, t.used, t.revoked)) = some ("s", false, false))
    (show ((auth ℤ sample).replay ((auth ℤ sample).init (.empty 0)) signedIn).any _ = true by
      decide +kernel)
  exact ⟨c, hr, of_decide_eq_true h⟩

section Forty

variable {s : AuthStore ℤ} {t : RefreshToken ℤ}

theorem guess_shows_nothing (ht : s.token 40 = some t) (hhash : t.tokenHash = "s") :
    ¬ Shows sample s guess40 := by
  rintro ⟨text, secret, id, t', hcookie, hid, ht', hsecret⟩
  have hcut : guess40.refreshToken.bind cookieParts = some ("40", "guess") := by decide +kernel
  obtain ⟨rfl, rfl⟩ := Prod.mk.inj (Option.some.inj (hcut.symm.trans hcookie))
  have hforty : sample.uuidOf "40" = some 40 := by decide +kernel
  obtain rfl := Option.some.inj (hforty.symm.trans hid)
  obtain rfl := Option.some.inj (ht.symm.trans ht')
  rw [hhash] at hsecret
  exact absurd hsecret (by decide)

end Forty

/-- A refresh that guesses the secret of an unused token leaves the tokens alone. -/
theorem tokens_untouched_guess : ∃ c,
    (auth ℤ sample).replay ((auth ℤ sample).init (.empty 0)) signedIn = some c ∧
    (c.state.token 40).isSome ∧ TokensUntouched sample c.state (.refresh guess40) := by
  obtain ⟨c, hr, h⟩ := signedIn_forty
  obtain ⟨t, ht, he⟩ := Option.map_eq_some_iff.mp h
  obtain ⟨hhash, hused, -⟩ := Prod.mk.inj he |>.imp id Prod.mk.inj
  refine ⟨c, hr, by simp [ht], (tokens_untouched_iff (guess_shows_nothing ht hhash)).mpr ?_⟩
  rintro ⟨id, t', hpresents, ht', -, hused'⟩
  have hforty : guess40.presents sample = some 40 := by decide +kernel
  obtain rfl := Option.some.inj (hforty.symm.trans hpresents)
  obtain rfl := Option.some.inj (ht.symm.trans ht')
  exact absurd (hused.symm.trans hused') (by simp)

/-- User 8 logs out with the id of a token of user 7 and a guess, and the token is revoked. -/
theorem guess_revokes : ∃ c,
    (auth ℤ sample).Reachable ((auth ℤ sample).init (.empty 0)) c ∧
    ¬ Shows sample c.state guess40 ∧
    ¬ TokensUntouched sample c.state (.logout ⟨⟨8, .USER, "free", 21⟩, 0, 900⟩ guess40) := by
  obtain ⟨c, hr, h⟩ := signedIn_forty
  obtain ⟨t, ht, he⟩ := Option.map_eq_some_iff.mp h
  obtain ⟨hhash, -, hrevoked⟩ := Prod.mk.inj he |>.imp id Prod.mk.inj
  refine ⟨c, .of_replay .init hr, guess_shows_nothing ht hhash, logout_touches ?_⟩
  exact ⟨"40:guess", 40, rfl, by decide +kernel, by decide +kernel, t,
    AuthStore.token_mem ht, AuthStore.token_id ht, hrevoked⟩

end BoltBet
