import BoltBet.Identity.Tables

/-!
# Which operations an auth call can run

`AuthFootprint call o`: the call may await `o`, whatever the operations before it answered
(`auth_footprint`). Reading and computing is left open to every call. Only `login` and `refresh`
issue tokens, only `refresh` exchanges them, only `logout` blacklists, only a connection joins a
room, and only a notification is emitted.
-/

namespace BoltBet

open Async Auth

/-- What a notification pushes. -/
def NotificationPayload.emits {T : Type} : NotificationPayload → AuthOp T
  | .BET_SETTLED userId betId name result payoutCents =>
    .emitTo userId (.betSettled betId name result payoutCents)
  | .MARKET_UPDATED marketId name status oddsInt =>
    .emit (.marketUpdated marketId name status oddsInt)
  | .MARKET_CREATED marketId name oddsInt => .emit (.marketCreated marketId name oddsInt)

/-- The operations that issue an access token and a refresh token. -/
inductive AuthOp.Issues {T : Type} : AuthOp T → Prop
  | randomUUID : AuthOp.Issues .randomUUID
  | signAsync (claims : JwtClaims) : AuthOp.Issues (.signAsync claims)
  | tokenInsert (d : RefreshTokenDraft T) : AuthOp.Issues (.tokenInsert d)

/-- **The operations an auth call can run.** -/
inductive AuthFootprint {T : Type} : AuthCall → AuthOp T → Prop
  | reads (call : AuthCall) (o : AuthOp T) (h : o.Reads) : AuthFootprint call o
  | userSave (dto : RegisterDto) (d : UserDraft) : AuthFootprint (.register dto) (.userSave d)
  | login (dto : LoginDto) (req : Request) (o : AuthOp T) (h : o.Issues) :
    AuthFootprint (.login dto req) o
  | refresh (req : Request) (o : AuthOp T) (h : o.Issues) : AuthFootprint (.refresh req) o
  | tokenSave (req : Request) (t : RefreshToken T) : AuthFootprint (.refresh req) (.tokenSave t)
  | familyRevoke (req : Request) (f : Uuid) : AuthFootprint (.refresh req) (.familyRevoke f)
  | tokenRevoke (req : Request) (text : String) : AuthFootprint (.logout req) (.tokenRevoke text)
  | blacklistSet (req : Request) (jti : Uuid) (ttl : Int) :
    AuthFootprint (.logout req) (.blacklistSet jti ttl)
  | join (k : Nat) (token : Option String) (u : Uuid) :
    AuthFootprint (.connection k token) (.join k u)
  | disconnect (k : Nat) (token : Option String) :
    AuthFootprint (.connection k token) (.disconnect k)
  | emits (tag : Nat) (p : NotificationPayload) : AuthFootprint (.notification tag p) p.emits
  | ack (tag : Nat) (p : NotificationPayload) : AuthFootprint (.notification tag p) (.ack tag)
  | nack (tag : Nat) (p : NotificationPayload) : AuthFootprint (.notification tag p) (.nack tag)

namespace Auth

variable {T : Type} {R : AuthOp T → Prop}

theorem all_op {o : AuthOp T} (h : R o) : (op o).All R := Prog.All.perform (S := AuthSig T) h

/-- Two outcomes of a check. -/
theorem all_ite {α : Type} {c : Prop} [Decidable c] {p q : Prog (AuthSig T) α} (hp : p.All R)
    (hq : q.All R) : (if c then p else q).All R := by
  split
  · exact hp
  · exact hq

/-- The guard verifies a token and reads the blacklist. -/
theorem all_canActivate (hR : ∀ o : AuthOp T, o.Reads → R o) (isPublic : Bool) (req : Request) :
    (JwtAuthGuard.canActivate isPublic req).All R := by
  unfold JwtAuthGuard.canActivate
  refine all_ite trivial ?_
  split
  · trivial
  · trivial
  · rename_i token _ _
    refine Prog.All.bind (.tryCatch (all_op (hR _ trivial)) fun _ => trivial) fun payload => ?_
    refine Prog.All.map (.bind (all_op (hR _ trivial)) fun found => ?_)
    cases found <;> trivial

/-- A new access token is drawn and signed. -/
theorem all_issueAccessToken (hdraw : R .randomUUID) (hsign : ∀ claims, R (.signAsync claims))
    (user : User) : (IdentityService.issueAccessToken user).All R :=
  Prog.All.bind (all_op hdraw) fun _ => all_op (hsign _)

/-- A new refresh token is drawn, hashed and inserted. -/
theorem all_issueRefreshToken [Ring T] (P : Platform) (hreads : ∀ o : AuthOp T, o.Reads → R o)
    (hR : ∀ o : AuthOp T, o.Issues → R o) (user : User) (req : Request) (f : Option Uuid) :
    (IdentityService.issueRefreshToken (T := T) P user req f).All R := by
  refine Prog.All.bind (all_op (hreads _ trivial)) fun _ => ?_
  refine Prog.All.bind (all_op (hreads _ trivial)) fun _ => ?_
  refine Prog.All.bind ?_ fun _ => ?_
  · cases f with
    | none => exact all_op (hR _ .randomUUID)
    | some f => trivial
  · refine Prog.All.bind (all_op (hreads _ trivial)) fun _ => ?_
    exact Prog.All.bind (all_op (hR _ (.tokenInsert _))) fun _ => trivial

end Auth

/-- **Every call stays in its footprint.** -/
theorem auth_footprint {T : Type} [Ring T] [LinearOrder T] [FloorRing T] (P : Platform)
    (call : AuthCall) : (call.body P : Prog (AuthSig T) _).All (AuthFootprint call) := by
  have hreads : ∀ call (o : AuthOp T), o.Reads → AuthFootprint call o := fun call o => .reads call o
  cases call with
  | register dto =>
    refine Prog.All.map (.bind (all_op (hreads _ _ trivial)) fun found => ?_)
    cases found with
    | some u => trivial
    | none =>
      refine Prog.All.bind (all_op (hreads _ _ trivial)) fun _ => ?_
      exact Prog.All.bind (all_op (.userSave dto _)) fun _ => trivial
  | login dto req =>
    refine Prog.All.map (.bind (all_op (hreads _ _ trivial)) fun found => ?_)
    refine Prog.All.bind (all_op (hreads _ _ trivial)) fun valid => ?_
    split
    · have hissue : ∀ o : AuthOp T, o.Issues → AuthFootprint (.login dto req) o := .login dto req
      refine Prog.All.bind (all_issueAccessToken (hissue _ .randomUUID)
        (fun _ => hissue _ (.signAsync _)) _) fun _ => ?_
      exact Prog.All.bind (all_issueRefreshToken P (hreads _) hissue _ _ _) fun _ => trivial
    · trivial
  | refresh req =>
    refine Prog.All.map ?_
    unfold IdentityService.refresh
    split
    · trivial
    · trivial
    · split
      · trivial
      · refine Prog.All.bind (all_op (hreads _ _ trivial)) fun found => ?_
        split
        · trivial
        · unfold IdentityService.exchange
          refine all_ite trivial (all_ite ?_ ?_)
          · exact Prog.All.bind (all_op (.familyRevoke req _)) fun _ => trivial
          · refine Prog.All.bind (all_op (hreads _ _ trivial)) fun now => all_ite trivial ?_
            refine Prog.All.bind (all_op (hreads _ _ trivial)) fun _ => all_ite ?_ trivial
            refine Prog.All.bind (all_op (.tokenSave req _)) fun _ => ?_
            split
            · trivial
            · have hissue : ∀ o : AuthOp T, o.Issues → AuthFootprint (.refresh req) o :=
                .refresh req
              refine Prog.All.bind (all_issueAccessToken (hissue _ .randomUUID)
                (fun _ => hissue _ (.signAsync _)) _) fun _ => ?_
              exact Prog.All.bind (all_issueRefreshToken P (hreads _) hissue _ _ _) fun _ => trivial
  | logout req =>
    refine Prog.All.map (.bind (all_canActivate (hreads _) false req) fun user => ?_)
    cases user with
    | none => trivial
    | some user =>
      refine Prog.All.bind (.bind ?_ fun _ => ?_) fun _ => trivial
      · unfold IdentityService.revokeCookie
        split
        · trivial
        · exact all_ite trivial (all_op (.tokenRevoke req _))
      · refine Prog.All.bind (all_op (hreads _ _ trivial)) fun now => ?_
        exact all_ite (all_op (.blacklistSet req _ _)) trivial
  | route isPublic req => exact Prog.All.map (all_canActivate (hreads _) isPublic req)
  | connection k token =>
    refine Prog.All.map ?_
    unfold RealtimeGateway.handleConnection
    split
    · exact all_op (.disconnect k _)
    · exact all_op (.disconnect k _)
    · refine Prog.All.bind (.tryCatch (.map (all_op (hreads _ _ trivial))) fun _ => trivial)
        fun verified => ?_
      split
      · exact all_op (.disconnect k _)
      · refine Prog.All.bind (all_op (hreads _ _ trivial)) fun found => ?_
        split
        · exact all_op (.disconnect k _)
        · exact all_op (.join k _ _)
  | notification tag p =>
    refine Prog.All.map (.tryCatch (.bind ?_ fun _ => all_op (.ack tag p)) fun _ =>
      all_op (.nack tag p))
    cases p with
    | BET_SETTLED u b name r c => exact all_op (.emits tag (.BET_SETTLED u b name r c))
    | MARKET_UPDATED m name st odds => exact all_op (.emits tag (.MARKET_UPDATED m name st odds))
    | MARKET_CREATED m name odds => exact all_op (.emits tag (.MARKET_CREATED m name odds))

/-- Only the delivery of a notification pushes, and what the notification says. -/
theorem AuthFootprint.notification_of_push {T : Type} {call : AuthCall} {o : AuthOp T}
    (h : AuthFootprint call o) (ho : (∃ e, o = .emit e) ∨ ∃ u e, o = .emitTo u e) :
    ∃ tag p, call = .notification tag p ∧ o = p.emits := by
  cases h with
  | emits tag p => exact ⟨tag, p, rfl, rfl⟩
  | reads _ _ hreads => rcases ho with ⟨e, rfl⟩ | ⟨u, e, rfl⟩ <;> exact hreads.elim
  | login dto req o h | refresh req o h => rcases ho with ⟨e, rfl⟩ | ⟨u, e, rfl⟩ <;> cases h
  | _ => simp at ho

/-- A settled bet is pushed to its user, by the delivery of its notification. -/
theorem AuthFootprint.notification_of_emitTo {T : Type} {call : AuthCall} {u betId : Uuid}
    {name : String} {result : MarketResult} {payout : Int}
    (h : AuthFootprint (T := T) call (.emitTo u (.betSettled betId name result payout))) :
    ∃ tag, call = .notification tag (.BET_SETTLED u betId name result payout) := by
  obtain ⟨tag, p, rfl, ho⟩ := h.notification_of_push (.inr ⟨_, _, rfl⟩)
  cases p with
  | BET_SETTLED u' betId' name' result' payout' =>
    obtain ⟨rfl, he⟩ := AuthOp.emitTo.inj ho
    obtain ⟨rfl, rfl, rfl, rfl⟩ := GatewayEvent.betSettled.inj he
    exact ⟨tag, rfl⟩
  | MARKET_UPDATED | MARKET_CREATED => exact absurd ho (by simp [NotificationPayload.emits])

/-- A settled bet is never sent to all. -/
theorem AuthFootprint.emit_ne {T : Type} {call : AuthCall} {e : GatewayEvent}
    (h : AuthFootprint (T := T) call (.emit e)) (betId : Uuid) (name : String)
    (result : MarketResult) (payout : Int) :
    e ≠ .betSettled betId name result payout := by
  obtain ⟨tag, p, rfl, ho⟩ := h.notification_of_push (.inl ⟨_, rfl⟩)
  cases p with
  | BET_SETTLED => exact absurd ho (by simp [NotificationPayload.emits])
  | MARKET_UPDATED | MARKET_CREATED =>
    obtain rfl := AuthOp.emit.inj ho
    simp

end BoltBet
