import BoltBet.Api.Machine
import BoltBet.Identity.Machine
import BoltBet.Listing.Queries

/-!
# The routes and their guards

The routes of `WalletController.ts`, `BettingController.ts` and `MarketController.ts`, with the
parameters that their pipes admitted, and `RolesGuard.ts`. None of these routes is `@Public()`. A
`status` that is no market status, which Postgres refuses, is left out.

* `Route.call`: the service call of a route that writes; `getBalance` may create a wallet.
* `Route.read`: the answer of a route that only reads.
* `Reply.rows_of_read`: a read shows a user no rows of others, unless the user is an `ADMIN`.
-/

namespace BoltBet

open Async

/-- A route, with its parameters. -/
inductive Route where
  | getBalance
  | deposit (dto : DepositDto)
  | getTransactions (page limit : Int)
  | placeBet (dto : PlaceBetDto)
  | getBets (page limit : Int)
  | getBetById (id : Uuid)
  | list (page limit : Int) (status : Option MarketStatus)
  | getMarket (id : Uuid)
  | create (dto : CreateMarketDto)
  | suspend (id : Uuid)
  | settle (id : Uuid) (result : MarketResult)
  | reopen (id : Uuid)

/-- `@Roles(…)`. -/
def Route.requiredRoles : Route → Option (List Role)
  | .create _ => some [.ADMIN]
  | .suspend _ => some [.ADMIN]
  | .settle .. => some [.ADMIN]
  | .reopen _ => some [.ADMIN]
  | _ => none

/-- `canActivate` of `RolesGuard`. -/
def RolesGuard.canActivate (requiredRoles : Option (List Role)) (user : Option JwtPayload) :
    Except Err Bool :=
  match requiredRoles with
  | none => .ok true
  | some [] => .ok true
  | some requiredRoles =>
    match user with
    | none => .ok false
    | some user =>
      if user.role ∈ requiredRoles then .ok true
      else .error (.ForbiddenException "Insufficient permissions")

/-- The service call of a route. -/
def Route.call (user : JwtPayload) : Route → Option ApiCall
  | .getBalance => some (.getBalance user.sub)
  | .deposit dto => some (.deposit user.sub dto)
  | .placeBet dto => some (.placeBet user.sub user.role dto)
  | .create dto => some (.createMarket dto)
  | .suspend id => some (.suspend id)
  | .settle id result => some (.settle id result)
  | .reopen id => some (.reopen id)
  | _ => none

/-- The tables that the reads see, each with the order its query sees. -/
structure ReadTables where
  transactions : TransactionTable
  bets : BetTable
  markets : MarketTable
  seenTransactions : List WalletTransaction
  seenBets : List Bet
  seenMarkets : List Market

/-- What a read answers. -/
inductive Reply where
  | transactions (dto : TransactionListResponseDto)
  | bets (dto : BetListResponseDto)
  | bet (dto : BetResponseDto)
  | markets (dto : MarketListResponseDto)
  | market (dto : MarketResponseDto)

/-- `Math.min(limit, 100)`. -/
def safeLimit (limit : Int) : Int := min limit 100

/-- The answer of a route that only reads. -/
def Route.read (tables : ReadTables) (user : JwtPayload) : Route → Option (Except Err Reply)
  | .getTransactions page limit =>
    some (.transactions <$> WalletService.getTransactions tables.transactions
      tables.seenTransactions user.sub page (safeLimit limit))
  | .getBets page limit =>
    some (.bets <$>
      BettingService.getBets tables.bets tables.seenBets user.sub page (safeLimit limit))
  | .getBetById id =>
    some (.bet <$> BettingService.getBetById tables.bets user.sub user.role id)
  | .list page limit status =>
    some (.markets <$>
      MarketService.list tables.markets tables.seenMarkets status page (safeLimit limit))
  | .getMarket id => some (.market <$> MarketService.getMarket tables.markets id)
  | _ => none

/-- The bets that an answer shows. -/
def Reply.betsShown : Reply → List BetResponseDto
  | .bets dto => dto.bets
  | .bet dto => [dto]
  | _ => []

/-- The ledger rows that an answer shows. -/
def Reply.transactionsShown : Reply → List TransactionResponseDto
  | .transactions dto => dto.transactions
  | _ => []

/-- The roles guard lets a user pass who has one of the roles. -/
theorem RolesGuard.role_of_canActivate {roles : List Role} {user : JwtPayload} (h : roles ≠ [])
    (hpass : canActivate (some roles) (some user) = .ok true) : user.role ∈ roles := by
  cases roles with
  | nil => exact absurd rfl h
  | cons role roles =>
    simp only [canActivate] at hpass
    split at hpass
    · assumption
    · exact absurd hpass (by simp)

/-- The rows of a query match its `where`. -/
theorem mem_of_findAndCount {Row : Type} [DecidableEq Row] {createdAt : Row → Nat}
    {found seen rows : List Row} {skip take : Int} {total : Nat} {row : Row}
    (h : findAndCount createdAt found seen skip take = .ok (rows, total)) (hrow : row ∈ rows) :
    row ∈ found := by
  unfold findAndCount limited at h
  split at h
  · exact absurd h (by simp)
  split at h
  · exact absurd h (by simp)
  obtain ⟨rfl, -⟩ := Prod.mk.inj (Except.ok.inj h)
  refine (Listing.orders_ordered createdAt found seen).perm.mem_iff.mp ?_
  split at hrow
  · exact List.mem_of_mem_drop hrow
  · exact List.mem_of_mem_drop (List.mem_of_mem_take hrow)

/-- A read that wraps what its service answers. -/
theorem ok_of_map {α : Type} {x : Except Err α} {f : α → Reply} {reply : Reply}
    (h : some (f <$> x) = some (.ok reply)) : ∃ a, x = .ok a ∧ reply = f a := by
  cases x with
  | error e => exact absurd h (by simp [Functor.map, Except.map])
  | ok a => exact ⟨a, rfl, (Except.ok.inj (Option.some.inj h)).symm⟩

/-- The rows that a query answers. -/
theorem ok_of_found {Row α : Type} {x : Except Err (List Row × Nat)} {f : List Row × Nat → α}
    {a : α} (h : x.map f = .ok a) : ∃ rows total, x = .ok (rows, total) ∧ a = f (rows, total) := by
  cases x with
  | error e => exact absurd h (by simp [Except.map])
  | ok found => exact ⟨found.1, found.2, rfl, (Except.ok.inj h).symm⟩

/-- **A read shows a user no rows of others**, unless the user is an `ADMIN`. -/
theorem Reply.rows_of_read {tables : ReadTables} {user : JwtPayload} {route : Route} {reply : Reply}
    (h : route.read tables user = some (.ok reply)) :
    (∀ dto ∈ reply.betsShown, ∃ bet ∈ tables.bets.rows, dto = bet.toDto ∧
      (bet.userId = user.sub ∨ user.role = .ADMIN)) ∧
    ∀ dto ∈ reply.transactionsShown, ∃ tx ∈ tables.transactions.rows, dto = toTransactionDto tx ∧
      tx.userId = user.sub := by
  cases route with
  | getTransactions page limit =>
    obtain ⟨list, hlist, rfl⟩ := ok_of_map h
    obtain ⟨rows, total, hrows, rfl⟩ := ok_of_found hlist
    refine ⟨fun dto hdto => absurd hdto (by simp [betsShown]), fun dto hdto => ?_⟩
    obtain ⟨tx, htx, rfl⟩ := List.mem_map.mp hdto
    obtain ⟨hmem, huser⟩ := List.mem_filter.mp (mem_of_findAndCount hrows htx)
    exact ⟨tx, hmem, rfl, of_decide_eq_true huser⟩
  | getBets page limit =>
    obtain ⟨list, hlist, rfl⟩ := ok_of_map h
    obtain ⟨rows, total, hrows, rfl⟩ := ok_of_found hlist
    refine ⟨fun dto hdto => ?_, fun dto hdto => absurd hdto (by simp [transactionsShown])⟩
    obtain ⟨bet, hbet, rfl⟩ := List.mem_map.mp hdto
    obtain ⟨hmem, huser⟩ := List.mem_filter.mp (mem_of_findAndCount hrows hbet)
    exact ⟨bet, hmem, rfl, .inl (of_decide_eq_true huser)⟩
  | getBetById id =>
    obtain ⟨dto, hdto, rfl⟩ := ok_of_map h
    refine ⟨fun shown hshown => ?_, fun shown hshown => absurd hshown (by simp [transactionsShown])⟩
    obtain rfl := List.mem_singleton.mp hshown
    unfold BettingService.getBetById at hdto
    split at hdto
    · exact absurd hdto (by simp)
    · rename_i bet hfind
      split at hdto
      · exact absurd hdto (by simp)
      · rename_i hallowed
        refine ⟨bet, List.mem_of_find?_eq_some hfind, (Except.ok.inj hdto).symm, ?_⟩
        by_cases howner : bet.userId = user.sub
        · exact .inl howner
        · exact .inr (by_contra fun hrole => hallowed ⟨howner, hrole⟩)
  | list page limit status =>
    obtain ⟨list, -, rfl⟩ := ok_of_map h
    exact ⟨fun dto hdto => absurd hdto (by simp [betsShown]),
      fun dto hdto => absurd hdto (by simp [transactionsShown])⟩
  | getMarket id =>
    obtain ⟨dto, -, rfl⟩ := ok_of_map h
    exact ⟨fun dto hdto => absurd hdto (by simp [betsShown]),
      fun dto hdto => absurd hdto (by simp [transactionsShown])⟩
  | getBalance | deposit | placeBet | create | suspend | settle | reopen =>
    exact absurd h (by simp [Route.read])

end BoltBet
