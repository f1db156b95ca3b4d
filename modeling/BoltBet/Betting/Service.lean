import BoltBet.Market.Service

/-!
# `BettingService.ts`

`placeBet`, `transitionStatus` and `isTerminalState` as programs; `getBets` and `getBetById`, which
only read the replica, are in `Listing/Queries.lean`.
-/

namespace BoltBet.BettingService

open Async Api

/-- `Math.floor(stakeCents * oddsInt / 100)`: the product is below 2^53, so the double quotient
has the floor of the exact one. -/
def payout (stakeCents oddsInt : Int) : Int := stakeCents * oddsInt / 100

/-- The row `placeBet` inserts. -/
def newBet (userId : Uuid) (dto : PlaceBetDto) (market : Market) : BetDraft where
  userId := userId
  marketId := dto.marketId
  marketName := market.name
  oddsInt := market.oddsInt
  stakeCents := dto.stakeCents
  payoutCents := payout dto.stakeCents market.oddsInt
  status := .PENDING
  referenceId := dto.clientMutationId

/-- The message `placeBet` publishes. -/
def placementOf (bet : Bet) : BetPlacementPayload where
  betId := bet.id
  userId := bet.userId
  marketId := bet.marketId
  oddsInt := bet.oddsInt
  stakeCents := bet.stakeCents
  payoutCents := bet.payoutCents

/-- Steps 2 to 7 of `placeBet`: there is no bet of this mutation id yet. -/
def placeNewBet (userId : Uuid) (dto : PlaceBetDto) : Prog ApiSig BetResponseDto := do
  let market ← MarketService.assertMarketOpen dto.marketId
  let _ ← wallet (WalletService.debit userId dto.stakeCents dto.clientMutationId
    (some s!"Bet on market {market.name}"))
  let bet ← betSave (newBet userId dto market)
  redisSet userId dto.clientMutationId bet.id
  publishBetPlacement (placementOf bet)
  return bet.toDto

/-- The database lookup of `placeBet`, then a new bet. -/
def lookupOrPlace (userId : Uuid) (dto : PlaceBetDto) : Prog ApiSig BetResponseDto := do
  match ← betFindByReference userId dto.clientMutationId with
  | some existingBet => return existingBet.toDto
  | none => placeNewBet userId dto

/-- `placeBet`. -/
def placeBet (userId : Uuid) (userRole : Role) (dto : PlaceBetDto) :
    Prog ApiSig BetResponseDto := do
  if userRole = .ADMIN then
    .throw (.ForbiddenException "Admin accounts cannot place bets")
  else
    match ← redisGet userId dto.clientMutationId with
    | some cachedBetId =>
      match ← betFindById cachedBetId with
      | some cached => return cached.toDto
      | none => lookupOrPlace userId dto
    | none => lookupOrPlace userId dto

/-- `transitionStatus`. -/
def transitionStatus (betId : Uuid) (newStatus : BetStatus) : Prog ApiSig Unit := do
  match ← betFindById betId with
  | none => .throw (.NotFoundException s!"Bet {betId} not found")
  | some bet =>
    if newStatus ∈ ALLOWED_TRANSITIONS bet.status then betUpdate betId newStatus
    else
      .throw (.UnprocessableEntityException
        s!"Cannot transition bet from {bet.status} to {newStatus}")

/-- `isTerminalState`. -/
def isTerminalState (betId : Uuid) : Prog ApiSig Bool := do
  match ← betFindById betId with
  | none => return false
  | some bet => return decide (bet.status ∈ TERMINAL_STATES)

end BoltBet.BettingService
