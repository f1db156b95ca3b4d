import BoltBet.Api.Store

/-!
# `MarketService.ts`

`createMarket`, `assertMarketOpen`, `updateStatus` and `settle` as programs; `list` and `getMarket`,
which only read, are in `Listing/Queries.lean`. Logging is dropped.
-/

namespace BoltBet.MarketService

open Async Api

/-- `createMarket`. -/
def createMarket (dto : CreateMarketDto) : Prog ApiSig MarketResponseDto := do
  let saved ← marketCreate {
    eventId := dto.eventId, name := dto.name, oddsInt := dto.oddsInt, status := .OPEN }
  publishNotification (.MARKET_CREATED saved.id saved.name saved.oddsInt)
  return saved.toDto

/-- `getMarketById`. -/
def getMarketById (marketId : Uuid) : Prog ApiSig Market := do
  match ← marketFindOne marketId with
  | some market => return market
  | none => .throw (.NotFoundException s!"Market {marketId} not found")

/-- `assertMarketOpen`. -/
def assertMarketOpen (marketId : Uuid) : Prog ApiSig Market := do
  let market ← getMarketById marketId
  if market.status ≠ .OPEN then
    .throw (.UnprocessableEntityException
      s!"Market {marketId} is {market.status} — bets are not accepted")
  else return market

/-- `updateStatus`. -/
def updateStatus (marketId : Uuid) (status : MarketStatus) : Prog ApiSig MarketResponseDto := do
  let market ← getMarketById marketId
  if market.status = .SETTLED then
    .throw (.UnprocessableEntityException "Cannot change status of a settled market")
  else
    let saved ← marketSave { market with status }
    publishNotification (.MARKET_UPDATED saved.id saved.name saved.status saved.oddsInt)
    return saved.toDto

/-- The description of a payout. -/
def payoutDescription (marketName : String) : String :=
  s!"Payout for winning bet on market \"{marketName}\""

/-- The payout of a bet, of a WIN only. -/
def creditPayout (market : Market) (result : MarketResult) (bet : Bet) : Prog ApiSig Unit :=
  match result with
  | .WIN => do
    let _ ← wallet (WalletService.credit bet.userId bet.payoutCents bet.id
      (some (payoutDescription market.name)))
    return ()
  | .LOSS => return ()

/-- The body of the loop of `settle`: an error is logged and the loop goes on. -/
def settleBet (market : Market) (result : MarketResult) (bet : Bet) : Prog ApiSig Unit :=
  Prog.tryCatch (do
    creditPayout market result bet
    betUpdate bet.id .SETTLED
    publishNotification (.BET_SETTLED bet.userId bet.id market.name result
      (if result = .WIN then bet.payoutCents else 0)))
    fun _ => return ()

/-- `settle`. -/
def settle (marketId : Uuid) (result : MarketResult) : Prog ApiSig MarketResponseDto := do
  let market ← getMarketById marketId
  if market.status = .SETTLED then
    .throw (.UnprocessableEntityException "Market is already SETTLED")
  else
    let acceptedBets ← betFind marketId .ACCEPTED
    acceptedBets.forM (settleBet market result)
    let saved ← marketSave { market with status := .SETTLED }
    publishNotification (.MARKET_UPDATED saved.id saved.name saved.status saved.oddsInt)
    return saved.toDto

end BoltBet.MarketService
