import BoltBet.Async.Link
import BoltBet.Http.Routes
import BoltBet.Identity.Accounts
import BoltBet.Ledger.Requests

/-!
# Who may do what

`served routes` runs authentication and the services side by side: request `i` is for the route
`routes i`, and its call starts when the guards let it pass: `JwtAuthGuard` returned the payload of
its token, and `RolesGuard` admits this payload. Message deliveries start by themselves.

* `ApiCall.ActsFor`: what a call may be started for.
* `Authorized`: every call, bet, ledger row and market, and everything a read shows, has its user
  in the table of users; administrators are among the first users.
* **`served_authorized`**: in every run.
-/

namespace BoltBet

open Async

variable {T : Type} [Ring T] [LinearOrder T] [FloorRing T] {P : Platform}

/-- The payload that the guard attached to request `i`. -/
def passed (c : Config (auth T P)) (i : Nat) : Option JwtPayload :=
  match c.result? i with
  | some (.route false _, .allowed user) => user
  | _ => none

/-- The call of request `i` starts behind both guards. -/
def behindGuards (routes : Nat → Route) (c : Config (auth T P)) : Event api → Prop
  | .spawn _ (.delivery _ _) => True
  | .spawn i call => ∃ user ∈ passed c i,
      (RolesGuard.canActivate (routes i).requiredRoles (some user)).toOption = some true ∧
        (routes i).call user = some call
  | _ => True

instance (routes : Nat → Route) (c : Config (auth T P)) : ∀ e, Decidable (behindGuards routes c e)
  | .spawn _ (.delivery _ _) => inferInstanceAs (Decidable True)
  | .spawn _ (.getBalance _) => inferInstanceAs (Decidable (∃ user ∈ _, _))
  | .spawn _ (.deposit _ _) => inferInstanceAs (Decidable (∃ user ∈ _, _))
  | .spawn _ (.placeBet _ _ _) => inferInstanceAs (Decidable (∃ user ∈ _, _))
  | .spawn _ (.createMarket _) => inferInstanceAs (Decidable (∃ user ∈ _, _))
  | .spawn _ (.suspend _) => inferInstanceAs (Decidable (∃ user ∈ _, _))
  | .spawn _ (.reopen _) => inferInstanceAs (Decidable (∃ user ∈ _, _))
  | .spawn _ (.settle _ _) => inferInstanceAs (Decidable (∃ user ∈ _, _))
  | .run _ _ => inferInstanceAs (Decidable True)
  | .crash _ => inferInstanceAs (Decidable True)
  | .env _ => inferInstanceAs (Decidable True)

/-- **Authentication in front of the services.** -/
def served (T : Type) [Ring T] [LinearOrder T] [FloorRing T] (P : Platform)
    (routes : Nat → Route) : Link (auth T P) api where
  left _ _ _ := True
  right c _ e := behindGuards routes c e

instance (routes : Nat → Route) (c : Config (auth T P)) (d : Config api) :
    ∀ e, Decidable ((served T P routes).left c d e) := fun _ => inferInstanceAs (Decidable True)

instance (routes : Nat → Route) (c : Config (auth T P)) (d : Config api) :
    ∀ e, Decidable ((served T P routes).right c d e) :=
  fun e => inferInstanceAs (Decidable (behindGuards routes c e))

/-- **What a call may be started for**: its own user, or an administrator. -/
def ApiCall.ActsFor (u : User) : ApiCall → Prop
  | .getBalance userId => userId = u.id
  | .deposit userId _ => userId = u.id
  | .placeBet userId role _ => userId = u.id ∧ role = u.role
  | .delivery .. => False
  | _ => u.role = .ADMIN

/-- Request `i` showed an access token of this user. -/
def Presents (c : Config (auth T P)) (i : Nat) (u : User) : Prop :=
  ∃ req token p, c.Returned i (.route false req) (.allowed (some p)) ∧
    JwtAuthGuard.extractToken req.authorization = some token ∧ (token, p) ∈ c.state.signed ∧
    p.toJwtClaims.For u

/-- **Everything is done for a user of the table.** -/
structure Authorized (seed : List User) (routes : Nat → Route) (c : Config (auth T P))
    (d : Config api) : Prop where
  calls : ∀ i call, d.Started i call → (∃ tag payload, call = .delivery tag payload) ∨
    ∃ u ∈ c.state.users, call.ActsFor u ∧ Presents c i u
  bets : ∀ b ∈ d.state.bets, ∃ u ∈ c.state.users, u.id = b.userId ∧ u.role ≠ .ADMIN
  ledger : ∀ tx ∈ d.state.wallet.walletTransactions, ∃ u ∈ c.state.users, u.id = tx.userId
  markets : ∀ id, (d.state.markets id).isSome → ∃ u ∈ seed, u.role = .ADMIN
  reads : ∀ i user, passed c i = some user → ∃ u ∈ c.state.users, user.toJwtClaims.For u ∧
    ∀ tables reply, (routes i).read tables user = some (.ok reply) →
      (∀ dto ∈ reply.betsShown, ∃ bet ∈ tables.bets.rows, dto = bet.toDto ∧
        (bet.userId = u.id ∨ u.role = .ADMIN ∧ u ∈ seed)) ∧
      ∀ dto ∈ reply.transactionsShown, ∃ tx ∈ tables.transactions.rows,
        dto = toTransactionDto tx ∧ tx.userId = u.id

namespace Access

/-! ## What the services do on whose behalf -/

section Services

variable {d : Config api}

/-- A call by an administrator. -/
def OfAdmin : ApiCall → Prop
  | .createMarket _ | .suspend _ | .reopen _ | .settle _ _ => True
  | _ => False

/-- An administrator's `placeBet` does nothing. -/
theorem role_of_waits (hd : api.Reachable (api.init .empty) d) {i : Nat} {u : Uuid} {role : Role}
    {dto : PlaceBetDto} {o : ApiOp} (hw : d.Waits i (.placeBet u role dto) o) : role ≠ .ADMIN := by
  have hbody : ∀ call : ApiCall, call.body.All fun _ => ∀ u role dto,
      call = .placeBet u role dto → role ≠ .ADMIN := by
    intro call
    by_cases h : ∃ u role dto, call = .placeBet u role dto ∧ role = .ADMIN
    · obtain ⟨u, role, dto, rfl, rfl⟩ := h
      trivial
    · exact (Prog.all_true _).mono fun _ _ u role dto hcall hrole => h ⟨u, role, dto, hcall, hrole⟩
  exact Machine.waits_all hbody hd hw u role dto rfl

/-- Bets and markets, with the calls behind them. -/
structure Behind (w : World api) : Prop where
  bets : ∀ b ∈ w.state.bets, ∃ x ∈ w.trace, ∃ role dto,
    x.call = .placeBet b.userId role dto ∧ role ≠ .ADMIN
  markets : ∀ id, (w.state.markets id).isSome → ∃ x ∈ w.trace, OfAdmin x.call

theorem Behind.same {s s' : Store} {l : List (Entry api)} (h : Behind ⟨s, l⟩)
    (hsame : s.SameTables s') : Behind ⟨s', l⟩ :=
  ⟨fun b hb => h.bets b (hsame.bets ▸ hb), fun id hid => h.markets id (hsame.markets ▸ hid)⟩

theorem behind_exec {i : Nat} {call : ApiCall} {o : ApiOp} {r : Except Err o.Res} {w' : World api}
    (hd : api.Reachable (api.init .empty) d) (hw : d.Waits i call o)
    (hx : api.Exec i call o d.toWorld r w') (h : Behind d.toWorld) : Behind w' := by
  obtain ⟨took, htr⟩ := hx.entry
  have hle : d.trace ⊆ w'.trace := htr ▸ List.subset_cons_self ..
  have hhead : (⟨i, call, o, took, d.state⟩ : Entry api) ∈ w'.trace :=
    htr ▸ List.mem_cons_self
  obtain ⟨ch, he⟩ := api_exec_effect hx
  have hfoot : Footprint call o := Machine.waits_all body_footprint hd hw
  constructor
  · intro b hb
    rcases he.bet_before hb with ⟨b₀, hb₀, hsame⟩ | ⟨draft, rfl, -, rfl⟩
    · obtain ⟨x, hx, role, dto, hcall, hrole⟩ := h.bets b₀ hb₀
      exact ⟨x, hle hx, role, dto, hsame.userId ▸ hcall, hrole⟩
    · cases hfoot with
      | betSave u role dto m => exact ⟨_, hhead, role, dto, rfl, role_of_waits hd hw⟩
  · intro id hid
    have hold : (d.state.markets id).isSome → ∃ x ∈ w'.trace, OfAdmin x.call := by
      intro hid
      obtain ⟨x, hx, hcall⟩ := h.markets id hid
      exact ⟨x, hle hx, hcall⟩
    rcases he.markets_cases with hsame | ⟨draft, rfl, -, -⟩ | ⟨m, rfl, -⟩
    · exact hold (hsame ▸ hid)
    · cases hfoot with
      | marketCreate dto => exact ⟨_, hhead, trivial⟩
    · cases hfoot <;> exact ⟨_, hhead, trivial⟩

theorem behind (hd : api.Reachable (api.init .empty) d) : Behind d.toWorld :=
  hd.follow (J := Behind) ⟨by simp [Machine.init, Store.empty], by simp [Machine.init, Store.empty]⟩
    (fun _ _ _ _ hst h => h.same (start_tables hst)) (fun _ _ _ _ hv h => h.same (env_tables hv))
    fun hd _ hw _ hx h => behind_exec hd hw hx h

end Services

/-! ## The guards -/

variable {routes : Nat → Route} {c c' : Config (auth T P)} {d d' : Config api} {i : Nat}
  {user : JwtPayload} {call : ApiCall}

theorem passed_eq_some : passed c i = some user ↔
    ∃ req, c.Returned i (.route false req) (.allowed (some user)) := by
  simp only [Config.returned_iff]
  constructor
  · intro h
    unfold passed at h
    split at h
    · rename_i req user' hr
      exact ⟨req, h ▸ hr⟩
    · exact absurd h (by simp)
  · rintro ⟨req, hr⟩
    unfold passed
    rw [hr]

/-- The call of request `i` passed both guards. -/
def Admitted (routes : Nat → Route) (c : Config (auth T P)) (i : Nat) (call : ApiCall) : Prop :=
  ∃ user, passed c i = some user ∧
    RolesGuard.canActivate (routes i).requiredRoles (some user) = .ok true ∧
    (routes i).call user = some call

theorem admitted_of_behindGuards (h : behindGuards routes c (.spawn i call)) :
    (∃ tag payload, call = .delivery tag payload) ∨ Admitted routes c i call := by
  cases call with
  | delivery tag payload => exact .inl ⟨tag, payload, rfl⟩
  | _ =>
    obtain ⟨user, huser, hpass, hcall⟩ := h
    refine .inr ⟨user, huser, ?_, hcall⟩
    generalize RolesGuard.canActivate _ _ = r at hpass
    cases r with
    | error e => exact absurd hpass (by simp [Except.toOption])
    | ok b => exact congrArg Except.ok (Option.some.inj hpass)

theorem admitted_step {e : Event (auth T P)} (hs : (auth T P).step c e = some c')
    (h : Admitted routes c i call) : Admitted routes c' i call := by
  obtain ⟨user, huser, h⟩ := h
  obtain ⟨req, hr⟩ := passed_eq_some.mp huser
  exact ⟨user, passed_eq_some.mpr ⟨req, Machine.returned_step hs hr⟩, h⟩

/-- **A call that passed both guards may be started for its user.** -/
theorem actsFor_of_admitted {u : User} (hfor : user.toJwtClaims.For u)
    (hpass : RolesGuard.canActivate (routes i).requiredRoles (some user) = .ok true)
    (hcall : (routes i).call user = some call) : call.ActsFor u := by
  obtain ⟨hsub, hrole, -⟩ := hfor
  have hadmin : (routes i).requiredRoles = some [.ADMIN] → u.role = .ADMIN := by
    intro hroles
    rw [hroles] at hpass
    have := RolesGuard.role_of_canActivate (by simp) hpass
    exact hrole.symm.trans (List.mem_singleton.mp this)
  generalize routes i = route at hcall hadmin
  cases route with
  | getBalance | deposit =>
    obtain rfl := Option.some.inj hcall
    exact hsub
  | placeBet dto =>
    obtain rfl := Option.some.inj hcall
    exact ⟨hsub, hrole⟩
  | create | suspend | settle | reopen =>
    obtain rfl := Option.some.inj hcall
    exact hadmin rfl
  | _ => exact absurd hcall (by simp [Route.call])

/-! ## Every run -/

variable {seed : List User} {now : T}

/-- Every call that started passed both guards. -/
theorem admitted (h : (served T P routes).Reach ((auth T P).init (.seeded now seed))
    (api.init .empty) c d) (hstart : d.Started i call) :
    (∃ tag payload, call = .delivery tag payload) ∨ Admitted routes c i call := by
  refine h.follow (I := fun _ => True) (K := fun _ => True) (J := fun c d => ∀ i call,
      d.Started i call →
        (∃ tag payload, call = ApiCall.delivery tag payload) ∨ Admitted routes c i call)
    (fun _ => trivial) (fun _ => trivial) (fun i call hstart => ?_)
    (fun _ _ ih _ hs i call hstart => ?_) (fun _ _ _ ih hok hs i call hstart => ?_) i call hstart
  · obtain ⟨p, b, hp⟩ := hstart
    exact absurd hp (by simp [Machine.init])
  · exact (ih i call hstart).imp_right (admitted_step hs)
  · rcases (Machine.started_iff hs).mp hstart with hstart | rfl
    · exact ih i call hstart
    · exact admitted_of_behindGuards hok

/-- A user who is not a `USER` was there at first. -/
theorem seeded_of_admin {u : User} (horigin : u ∈ seed ∨ u.role = .USER)
    (hrole : u.role = .ADMIN) : u ∈ seed := by
  refine horigin.resolve_right fun huser => ?_
  rw [hrole] at huser
  exact absurd huser (by simp)

section Run

variable (hids : (seed.map User.id).Nodup)
  (h : (served T P routes).Reach ((auth T P).init (.seeded now seed)) (api.init .empty) c d)
include hids h

/-- A payload that the guard attached is that of a token of a user. -/
theorem user_of_passed (hpass : passed c i = some user) : ∃ u ∈ c.state.users,
    user.toJwtClaims.For u ∧ (u ∈ seed ∨ u.role = .USER) ∧ Presents c i u := by
  obtain ⟨req, hr⟩ := passed_eq_some.mp hpass
  obtain ⟨token, htoken, hsigned, u, hu, hfor, horigin⟩ :=
    Accounts.user_of_allowed hids h.fst hr
  exact ⟨u, hu, hfor, horigin, req, token, user, hr, htoken, hsigned, hfor⟩

/-- Every request is made for a user. -/
theorem user_of_started (hstart : d.Started i call) :
    (∃ tag payload, call = .delivery tag payload) ∨
      ∃ u ∈ c.state.users, call.ActsFor u ∧ (u ∈ seed ∨ u.role = .USER) ∧ Presents c i u := by
  rcases admitted h hstart with hdelivery | ⟨user, huser, hpass, hcall⟩
  · exact .inl hdelivery
  · obtain ⟨u, hu, hfor, horigin, hshows⟩ := user_of_passed hids h huser
    exact .inr ⟨u, hu, actsFor_of_admitted hfor hpass hcall, horigin, hshows⟩

/-- The call of an executed operation that no delivery runs was made for a user. -/
theorem user_of_entry {x : Entry api} (hx : x ∈ d.trace)
    (hne : ∀ tag payload, x.call ≠ .delivery tag payload) :
    ∃ u ∈ c.state.users, x.call.ActsFor u ∧ (u ∈ seed ∨ u.role = .USER) := by
  rcases user_of_started hids h (Machine.entry_started h.snd x hx) with
    ⟨tag, payload, hcall⟩ | ⟨u, hu, hacts, horigin, -⟩
  · exact absurd hcall (hne tag payload)
  · exact ⟨u, hu, hacts, horigin⟩

theorem bets_owned {b : Bet} (hb : b ∈ d.state.bets) :
    ∃ u ∈ c.state.users, u.id = b.userId ∧ u.role ≠ .ADMIN := by
  obtain ⟨x, hx, role, dto, hcall, hrole⟩ := (behind h.snd).bets b hb
  obtain ⟨u, hu, hacts, -⟩ := user_of_entry hids h hx (by simp [hcall])
  rw [hcall] at hacts
  obtain ⟨hid, rfl⟩ : b.userId = u.id ∧ role = u.role := hacts
  exact ⟨u, hu, hid.symm, hrole⟩

theorem ledger_owned {tx : WalletTransaction} (htx : tx ∈ d.state.wallet.walletTransactions) :
    ∃ u ∈ c.state.users, u.id = tx.userId := by
  obtain ⟨xs, hxs⟩ := Requests.behind h.snd
  obtain ⟨x, hx, -, hasks⟩ := hxs.leaves htx
  have hown : (∀ tag payload, x.call ≠ .delivery tag payload) →
      ∃ u ∈ c.state.users, x.call.ActsFor u ∧ (u ∈ seed ∨ u.role = .USER) :=
    user_of_entry hids h hx
  unfold ApiCall.AsksFor at hasks
  generalize x.call = call, tx.userId = userId, tx.type = type, tx.amountCents = amountCents,
    tx.referenceId = referenceId at hasks hown
  cases hasks with
  | deposit userId dto =>
    obtain ⟨u, hu, hid, -⟩ := hown (by simp)
    exact ⟨u, hu, Eq.symm hid⟩
  | stake userId role dto hrole =>
    obtain ⟨u, hu, ⟨hid, -⟩, -⟩ := hown (by simp)
    exact ⟨u, hu, hid.symm⟩
  | payout m b hb =>
    obtain ⟨u, hu, hid, -⟩ := bets_owned hids h hb.1
    exact ⟨u, hu, hid⟩

theorem admin_of_market {id : Uuid} (hid : (d.state.markets id).isSome) :
    ∃ u ∈ seed, u.role = .ADMIN := by
  obtain ⟨x, hx, hadmin⟩ := (behind h.snd).markets id hid
  have hown := user_of_entry hids h hx
  generalize x.call = call at hadmin hown
  obtain ⟨u, -, hrole, horigin⟩ : ∃ u ∈ c.state.users, u.role = .ADMIN ∧
      (u ∈ seed ∨ u.role = .USER) := by
    cases call with
    | createMarket | suspend | reopen | settle => exact hown (by simp)
    | _ => exact hadmin.elim
  exact ⟨u, seeded_of_admin horigin hrole, hrole⟩

theorem reads_scoped (hpass : passed c i = some user) : ∃ u ∈ c.state.users,
    user.toJwtClaims.For u ∧ ∀ tables reply, (routes i).read tables user = some (.ok reply) →
      (∀ dto ∈ reply.betsShown, ∃ bet ∈ tables.bets.rows, dto = bet.toDto ∧
        (bet.userId = u.id ∨ u.role = .ADMIN ∧ u ∈ seed)) ∧
      ∀ dto ∈ reply.transactionsShown, ∃ tx ∈ tables.transactions.rows,
        dto = toTransactionDto tx ∧ tx.userId = u.id := by
  obtain ⟨u, hu, hfor, horigin, -⟩ := user_of_passed hids h hpass
  refine ⟨u, hu, hfor, fun tables reply hread => ?_⟩
  obtain ⟨hsub, hrole, -⟩ := hfor
  obtain ⟨hbets, htxs⟩ := Reply.rows_of_read hread
  refine ⟨fun dto hdto => ?_, fun dto hdto => ?_⟩
  · obtain ⟨bet, hbet, hdto, howner⟩ := hbets dto hdto
    refine ⟨bet, hbet, hdto, ?_⟩
    rcases howner with howner | hadmin
    · exact .inl (howner.trans hsub)
    · have hadmin' : u.role = .ADMIN := hrole.symm.trans hadmin
      exact .inr ⟨hadmin', seeded_of_admin horigin hadmin'⟩
  · obtain ⟨tx, htx, hdto, howner⟩ := htxs dto hdto
    exact ⟨tx, htx, hdto, howner.trans hsub⟩

end Run

end Access

open Access in
/-- **Everything is done for a user of the table**, in every run behind the guards: nobody acts for
another user, administrators place no bets, and only the first users are administrators. -/
theorem served_authorized {seed : List User} {now : T} {routes : Nat → Route}
    {c : Config (auth T P)} {d : Config api} (hids : (seed.map User.id).Nodup)
    (h : (served T P routes).Reach ((auth T P).init (.seeded now seed)) (api.init .empty) c d) :
    Authorized seed routes c d where
  calls _ _ hstart := (user_of_started hids h hstart).imp_right fun ⟨u, hu, hacts, _, hshows⟩ =>
    ⟨u, hu, hacts, hshows⟩
  bets _ hb := bets_owned hids h hb
  ledger _ htx := ledger_owned hids h htx
  markets _ hid := admin_of_market hids h hid
  reads _ _ hpass := reads_scoped hids h hpass

/-- Request 10 opens a market, 11 deposits, and 12 bets. -/
def sampleRoutes (i : Nat) : Route :=
  if i = 10 then .create ⟨9, "Man City to win by two", 245, by decide, by decide⟩
  else if i = 11 then .deposit tenDollars
  else .placeBet ⟨50, 130, 2, by decide, by decide⟩

/-- The guard lets request `i` with this access token pass. -/
def guarded (i : Nat) (token : String) : List (Event (auth ℤ sample)) :=
  .spawn i (.route false { authorization := some ("Bearer " ++ token) }) :: answer i [{}, {}]

/-- What they ask of the services. -/
def openAndBet : List (Event api) :=
  .spawn 10 (.createMarket ⟨9, "Man City to win by two", 245, by decide, by decide⟩) ::
  .run 10 (.ok { fresh := 50 }) :: .run 10 (.ok {}) ::
  .spawn 11 (.deposit 7 tenDollars) :: proceed 11 2 ++
  .spawn 12 (.placeBet 7 .USER ⟨50, 130, 2, by decide, by decide⟩) :: proceed 12 8

/-- The administrator opens a market; user 7 deposits and bets. -/
def sampleDay : List (Event (auth ℤ sample) ⊕ Event api) :=
  (twoSessions ++ guarded 10 "60" ++ guarded 11 "20" ++ guarded 12 "20").map .inl ++
    openAndBet.map .inr

/-- A market, a bet and two ledger rows. -/
theorem served_authorized_day : ∃ c d,
    Link.replay (auth ℤ sample) api ((auth ℤ sample).init (.seeded 0 [sampleAdmin]))
      (api.init .empty) sampleDay = some (c, d) ∧
    d.state.bets.map Bet.userId = [7] ∧ d.state.wallet.walletTransactions.length = 2 ∧
    (d.state.markets 50).isSome ∧ Authorized [sampleAdmin] sampleRoutes c d := by
  obtain ⟨c, d, hr, hbets, hrows, hmarket⟩ : ∃ c d,
      Link.replay (auth ℤ sample) api ((auth ℤ sample).init (.seeded 0 [sampleAdmin]))
        (api.init .empty) sampleDay = some (c, d) ∧
      d.state.bets.map Bet.userId = [7] ∧ d.state.wallet.walletTransactions.length = 2 ∧
      (d.state.markets 50).isSome := ⟨_, _, rfl, rfl, rfl, rfl⟩
  have hallows : (served ℤ sample sampleRoutes).Allows
      ((auth ℤ sample).init (.seeded 0 [sampleAdmin])) (api.init .empty) sampleDay := by decide
  exact ⟨c, d, hr, hbets, hrows, hmarket,
    served_authorized (by decide) (.of_replay .init hr hallows)⟩

end BoltBet
