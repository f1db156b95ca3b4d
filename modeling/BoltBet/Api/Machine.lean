import BoltBet.Settlement.Worker

/-!
# The API under load

`api` runs any number of requests and message deliveries over one `Store`, one operation at a
time. Any operation may fail or lose its answer, and any call may crash where it is suspended.

The surroundings (`ApiEnv`) may drop an idempotency key (its TTL, or an eviction), take back an
unacknowledged message and queue it again, and store a published message twice.
-/

namespace BoltBet

open Async

/-- A request of a client, or the delivery of a message. -/
inductive ApiCall where
  | getBalance (userId : Uuid)
  | deposit (userId : Uuid) (dto : DepositDto)
  | placeBet (userId : Uuid) (userRole : Role) (dto : PlaceBetDto)
  | createMarket (dto : CreateMarketDto)
  | suspend (marketId : Uuid)
  | reopen (marketId : Uuid)
  | settle (marketId : Uuid) (result : MarketResult)
  | delivery (tag : Nat) (payload : BetPlacementPayload)
  deriving DecidableEq

/-- What a call answers. -/
inductive ApiReply where
  | balance (dto : BalanceResponseDto)
  | transaction (dto : TransactionResponseDto)
  | bet (dto : BetResponseDto)
  | market (dto : MarketResponseDto)
  | handled

/-- The program of a call. -/
def ApiCall.body : ApiCall → Prog ApiSig ApiReply
  | .getBalance userId => .balance <$> Api.wallet (WalletService.getBalance userId)
  | .deposit userId dto => .transaction <$> Api.wallet (WalletService.deposit userId dto)
  | .placeBet userId userRole dto => .bet <$> BettingService.placeBet userId userRole dto
  | .createMarket dto => .market <$> MarketService.createMarket dto
  | .suspend marketId => .market <$> MarketService.updateStatus marketId .SUSPENDED
  | .reopen marketId => .market <$> MarketService.updateStatus marketId .OPEN
  | .settle marketId result => .market <$> MarketService.settle marketId result
  | .delivery tag payload => do
    SettlementWorker.consume tag payload
    return .handled

/-- Delivering takes the message from the queue; a request needs nothing to start. -/
def ApiCall.start : ApiCall → Store → Option Store
  | .delivery tag payload, s =>
    if payload ∈ s.betPlacement ∧ tag = s.deliveries then
      some { s with
        betPlacement := s.betPlacement.erase payload
        unacked := (tag, payload) :: s.unacked
        deliveries := tag + 1 }
    else none
  | _, s => some s

/-- The steps of Redis and RabbitMQ alone. -/
inductive ApiEnv where
  | expire (userId clientMutationId : Uuid)
  | redeliver (tag : Nat) (payload : BetPlacementPayload)
  | duplicate (payload : BetPlacementPayload)

/-- One step of Redis or RabbitMQ. -/
def ApiEnv.step : ApiEnv → Store → Option Store
  | .expire userId clientMutationId, s => some (s.setIdempotency userId clientMutationId none)
  | .redeliver tag payload, s =>
    if (tag, payload) ∈ s.unacked then
      some { s with
        unacked := s.unacked.erase (tag, payload)
        betPlacement := payload :: s.betPlacement }
    else none
  | .duplicate payload, s =>
    if payload ∈ s.betPlacement then some { s with betPlacement := payload :: s.betPlacement }
    else none

/-- **The API.** -/
abbrev api : Machine ApiSig where
  Call := ApiCall
  Out := ApiReply
  State := Store
  Choice := ApiChoice
  Env := ApiEnv
  body := ApiCall.body
  start := ApiCall.start
  exec _ ch o s := some (s.exec ch o)
  env := ApiEnv.step

/-! ## Small runs -/

/-- Thread `i` runs its next `n` operations, none of which fails. -/
def proceed (i n : Nat) : List (Event api) := List.replicate n (.run i (.ok {}))

/-- A deposit of 10 dollars. -/
def tenDollars : DepositDto := ⟨1000, 1, by decide, by decide⟩

/-- User 7 deposits them, and market 50 opens at these odds. -/
def openAt (oddsInt : Int) (min : 101 ≤ oddsInt) : List (Event api) :=
  .spawn 0 (.deposit 7 tenDollars) :: proceed 0 2 ++
  [.spawn 1 (.createMarket ⟨9, "Man City to win", oddsInt, by decide, min⟩),
   .run 1 (.ok { fresh := 50 }), .run 1 (.ok {})]

/-- The market opens at odds 2.40. -/
def openMarket : List (Event api) := openAt 240 (by decide)

/-- User 7 bets on market 50, with this stake and mutation id. -/
def betOn50 (stakeCents : Int) (clientMutationId : Uuid) (min : 100 ≤ stakeCents)
    (max : stakeCents ≤ 1000000) : ApiCall :=
  .placeBet 7 .USER ⟨50, stakeCents, clientMutationId, min, max⟩

/-- The same, with the least stake. -/
def bet100 (clientMutationId : Uuid) : ApiCall :=
  betOn50 100 clientMutationId (by decide) (by decide)

end BoltBet
