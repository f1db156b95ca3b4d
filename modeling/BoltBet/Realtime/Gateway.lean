import BoltBet.Identity.Service

/-!
# `RealtimeGateway.ts` and `NotificationWorker.ts`

`handleConnection`, what the gateway pushes, and `handleMessage` as programs. `handleDisconnect`
only logs.
-/

namespace BoltBet

open Async Auth

namespace RealtimeGateway

variable {T : Type}

/-- The blacklist check and the join of `handleConnection`. -/
def joinRoom (socket : Nat) (payload : JwtPayload) : Prog (AuthSig T) Unit := do
  match ← op (.blacklistGet payload.jti) with
  | some _ => op (.disconnect socket)
  | none => op (.join socket payload.sub)

/-- `handleConnection`; a token that does not verify only closes the socket. -/
def handleConnection (socket : Nat) (token : Option String) : Prog (AuthSig T) Unit := do
  match token with
  | none => op (.disconnect socket)
  | some "" => op (.disconnect socket)
  | some token =>
    let verified ← (some <$> op (.verifyAsync token)).tryCatch fun _ => .ret none
    match verified with
    | none => op (.disconnect socket)
    | some payload => joinRoom socket payload

/-- `pushBetSettled`. -/
def pushBetSettled (userId betId : Uuid) (marketName : String) (result : MarketResult)
    (payoutCents : Int) : Prog (AuthSig T) Unit :=
  op (.emitTo userId (.betSettled betId marketName result payoutCents))

/-- `pushMarketCreated`. -/
def pushMarketCreated (marketId : Uuid) (name : String) (oddsInt : Int) :
    Prog (AuthSig T) Unit :=
  op (.emit (.marketCreated marketId name oddsInt))

/-- `pushMarketUpdated`. -/
def pushMarketUpdated (marketId : Uuid) (name : String) (status : MarketStatus)
    (oddsInt : Int) : Prog (AuthSig T) Unit :=
  op (.emit (.marketUpdated marketId name status oddsInt))

end RealtimeGateway

namespace NotificationWorker

variable {T : Type}

/-- What a notification pushes. -/
def push : NotificationPayload → Prog (AuthSig T) Unit
  | .BET_SETTLED userId betId marketName result payoutCents =>
    RealtimeGateway.pushBetSettled userId betId marketName result payoutCents
  | .MARKET_UPDATED marketId name status oddsInt =>
    RealtimeGateway.pushMarketUpdated marketId name status oddsInt
  | .MARKET_CREATED marketId name oddsInt =>
    RealtimeGateway.pushMarketCreated marketId name oddsInt

/-- `handleMessage`. -/
def handleMessage (tag : Nat) (payload : NotificationPayload) : Prog (AuthSig T) Unit :=
  (do
    push payload
    op (.ack tag)).tryCatch fun _ => op (.nack tag)

end NotificationWorker

end BoltBet
