import BoltBet.Betting.Service

/-!
# `SettlementWorker.ts`

The handler of a `bet_placement` message, and the consumer of `RabbitmqService.ts` around it.
-/

namespace BoltBet.SettlementWorker

open Async Api BettingService

/-- The inner `try` of `handleMessage`: whether the message has been acked already. -/
def accept (tag : Nat) (betId : Uuid) : Prog ApiSig Bool :=
  Prog.tryCatch (do
    transitionStatus betId .ACCEPTED
    return false)
    fun _ => do
      if ← isTerminalState betId then
        ack tag
        return true
      else .throw (.Error s!"Failed to transition bet {betId} to ACCEPTED")

/-- `handleMessage`. -/
def handleMessage (tag : Nat) (payload : BetPlacementPayload) : Prog ApiSig Unit :=
  Prog.tryCatch (do
    if ← accept tag payload.betId then return () else ack tag)
    fun _ => nack tag

/-- The callback of `createBetPlacementConsumer`: nack whatever the handler lets escape. -/
def consume (tag : Nat) (payload : BetPlacementPayload) : Prog ApiSig Unit :=
  (handleMessage tag payload).tryCatch fun _ => nack tag

end BoltBet.SettlementWorker
