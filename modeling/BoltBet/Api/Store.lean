import BoltBet.Betting.Types
import BoltBet.Market.Types
import BoltBet.Wallet.Service

/-!
# The stores behind the API

The Postgres tables, the Redis idempotency keys and the RabbitMQ queues that the services share,
and every operation a service awaits on them (`ApiOp`, answered by `Store.exec`).

* Each operation is one statement in a transaction of its own; `applyTransaction` is one operation
  (`Wallet/Atomic.lean`).
* Postgres rejects a bet whose id or `referenceId` exists, and values beyond an `integer` column.
  Rows come back in any order (`ApiChoice.rows`).
* A delivered message is unacknowledged until its handler acks or nacks it; `nack(msg, false,
  false)` dead-letters it. Acking a message that was taken back does nothing.
-/

namespace BoltBet

open Async

/-- What the infrastructure chooses while it runs an operation. -/
structure ApiChoice extends WalletChoice where
  rows : List Bet := []

/-- The state shared by all services. -/
structure Store where
  wallet : WalletDb
  markets : Uuid → Option Market
  bets : List Bet
  /-- `idempotency:bet:{userId}:{clientMutationId}`. -/
  idempotency : Uuid → Uuid → Option Uuid
  /-- The queue `bet_placement`. -/
  betPlacement : List BetPlacementPayload
  /-- Delivered messages that are neither acked nor nacked, by delivery tag. -/
  unacked : List (Nat × BetPlacementPayload)
  /-- The number of deliveries so far: the next delivery tag. -/
  deliveries : Nat
  /-- The queue `bet_placement_dead_letter`. -/
  deadLetter : List BetPlacementPayload
  /-- Everything ever published to the queue `notifications`. -/
  notifications : List NotificationPayload

/-- The operations the services await. -/
inductive ApiOp where
  | wallet (o : WalletOp)
  /-- `redisService.ephemeral.get(idempotencyKey)`. -/
  | redisGet (userId clientMutationId : Uuid)
  /-- `redisService.ephemeral.set(idempotencyKey, betId, 'EX', IDEMPOTENCY_TTL)`. -/
  | redisSet (userId clientMutationId betId : Uuid)
  /-- `betRepo.findOne({ where: { id } })`. -/
  | betFindById (id : Uuid)
  /-- `betRepo.findOne({ where: { userId, referenceId } })`. -/
  | betFindByReference (userId referenceId : Uuid)
  /-- `betRepo.find({ where: { marketId, status } })`. -/
  | betFind (marketId : Uuid) (status : BetStatus)
  /-- `betRepo.save(betRepo.create(…))`. -/
  | betSave (bet : BetDraft)
  /-- `betRepo.update({ id }, { status })`. -/
  | betUpdate (id : Uuid) (status : BetStatus)
  /-- `marketRepo.findOne({ where: { id } })`. -/
  | marketFindOne (id : Uuid)
  /-- `marketRepo.save(marketRepo.create(…))`. -/
  | marketCreate (market : MarketDraft)
  /-- `marketRepo.save(market)` of a market read before. -/
  | marketSave (market : Market)
  | publishBetPlacement (payload : BetPlacementPayload)
  | publishNotification (payload : NotificationPayload)
  | ack (tag : Nat)
  | nack (tag : Nat)
  deriving DecidableEq

/-- What an operation answers. -/
abbrev ApiOp.Res : ApiOp → Type
  | .wallet o => o.Res
  | .redisGet .. => Option Uuid
  | .betFindById _ => Option Bet
  | .betFindByReference .. => Option Bet
  | .betFind .. => List Bet
  | .betSave _ => Bet
  | .marketFindOne _ => Option Market
  | .marketCreate _ => Market
  | .marketSave _ => Market
  | _ => Unit

/-- The signature of the services. -/
abbrev ApiSig : Sig Err := ⟨ApiOp, ApiOp.Res⟩

namespace Api

def wallet {α : Type} (p : Prog WalletSig α) : Prog ApiSig α :=
  p.expand fun o => .perform (S := ApiSig) (.wallet o)

theorem wallet_bind {α β : Type} (p : Prog WalletSig α) (f : α → Prog WalletSig β) :
    wallet (p >>= f) = wallet p >>= fun a => wallet (f a) := Prog.expand_bind ..

theorem wallet_perform (o : WalletOp) :
    wallet (.perform (S := WalletSig) o) = .perform (S := ApiSig) (.wallet o) :=
  Prog.expand_perform ..

/-- `debit` as operations of the store. -/
theorem wallet_debit (u : Uuid) (a : Int) (ref : Uuid) (d : Option String) :
    wallet (WalletService.debit u a ref d) = (do
      match ← Prog.perform (S := ApiSig) (.wallet (.query (.txFindOne u ref (some .DEBIT)))) with
      | some existing => return toTransactionDto existing
      | none => Prog.perform (S := ApiSig) (.wallet
          (.applyTransaction u .DEBIT a (some ref) (d.getD "Bet placement")))) := by
  unfold WalletService.debit WalletService.txFindOne
  rw [wallet_bind, wallet_perform]
  refine bind_congr fun existing => ?_
  cases existing with
  | some tx => rfl
  | none => exact wallet_perform _

/-- `credit` as operations of the store. -/
theorem wallet_credit (u : Uuid) (a : Int) (ref : Uuid) (d : Option String) :
    wallet (WalletService.credit u a ref d) = (do
      match ← Prog.perform (S := ApiSig) (.wallet (.query (.txFindOne u ref (some .CREDIT)))) with
      | some existing => return toTransactionDto existing
      | none => Prog.perform (S := ApiSig) (.wallet
          (.applyTransaction u .CREDIT a (some ref) (d.getD "Bet settlement payout")))) := by
  unfold WalletService.credit WalletService.txFindOne
  rw [wallet_bind, wallet_perform]
  refine bind_congr fun existing => ?_
  cases existing with
  | some tx => rfl
  | none => exact wallet_perform _

def redisGet (userId clientMutationId : Uuid) : Prog ApiSig (Option Uuid) :=
  .perform (S := ApiSig) (.redisGet userId clientMutationId)

def redisSet (userId clientMutationId betId : Uuid) : Prog ApiSig Unit :=
  .perform (S := ApiSig) (.redisSet userId clientMutationId betId)

def betFindById (id : Uuid) : Prog ApiSig (Option Bet) := .perform (S := ApiSig) (.betFindById id)

def betFindByReference (userId referenceId : Uuid) : Prog ApiSig (Option Bet) :=
  .perform (S := ApiSig) (.betFindByReference userId referenceId)

def betFind (marketId : Uuid) (status : BetStatus) : Prog ApiSig (List Bet) :=
  .perform (S := ApiSig) (.betFind marketId status)

def betSave (bet : BetDraft) : Prog ApiSig Bet := .perform (S := ApiSig) (.betSave bet)

def betUpdate (id : Uuid) (status : BetStatus) : Prog ApiSig Unit :=
  .perform (S := ApiSig) (.betUpdate id status)

def marketFindOne (id : Uuid) : Prog ApiSig (Option Market) :=
  .perform (S := ApiSig) (.marketFindOne id)

def marketCreate (market : MarketDraft) : Prog ApiSig Market :=
  .perform (S := ApiSig) (.marketCreate market)

def marketSave (market : Market) : Prog ApiSig Market :=
  .perform (S := ApiSig) (.marketSave market)

def publishBetPlacement (payload : BetPlacementPayload) : Prog ApiSig Unit :=
  .perform (S := ApiSig) (.publishBetPlacement payload)

def publishNotification (payload : NotificationPayload) : Prog ApiSig Unit :=
  .perform (S := ApiSig) (.publishNotification payload)

def ack (tag : Nat) : Prog ApiSig Unit := .perform (S := ApiSig) (.ack tag)

def nack (tag : Nat) : Prog ApiSig Unit := .perform (S := ApiSig) (.nack tag)

end Api

namespace Store

def empty : Store where
  wallet := .empty
  markets _ := none
  bets := []
  idempotency _ _ := none
  betPlacement := []
  unacked := []
  deliveries := 0
  deadLetter := []
  notifications := []

/-- The bet with an id. -/
def bet (s : Store) (id : Uuid) : Option Bet := s.bets.find? (·.id = id)

/-- The bet of a client mutation id. -/
def betOf (s : Store) (userId referenceId : Uuid) : Option Bet :=
  s.bets.find? fun b => b.userId = userId ∧ b.referenceId = referenceId

/-- The bets of a market in a status. -/
def betsIn (s : Store) (marketId : Uuid) (status : BetStatus) : List Bet :=
  s.bets.filter fun b => b.marketId = marketId ∧ b.status = status

/-- Write the status of a bet. -/
def setStatus (s : Store) (now : Nat) (id : Uuid) (status : BetStatus) : Store :=
  { s with bets := s.bets.map fun b =>
      if b.id = id then { b with status, updatedAt := now } else b }

/-- Write a market row. -/
def setMarket (s : Store) (market : Market) : Store :=
  { s with markets := Function.update s.markets market.id (some market) }

/-- The row `marketRepo.save(entity)` leaves. -/
def savedMarket (s : Store) (now : Nat) (entity : Market) : Market :=
  match s.markets entity.id with
  | some row => Market.save now row entity
  | none => entity

/-- Append a bet. -/
def addBet (s : Store) (b : Bet) : Store := { s with bets := s.bets ++ [b] }

/-- Write or drop an idempotency key. -/
def setIdempotency (s : Store) (userId clientMutationId : Uuid) (betId : Option Uuid) : Store :=
  { s with idempotency := fun u m =>
      if u = userId ∧ m = clientMutationId then betId else s.idempotency u m }

/-- Why Postgres rejects a bet, if it does. -/
def rejectsBet (s : Store) (id : Uuid) (d : BetDraft) : Option Err :=
  if !(fitsInteger d.oddsInt && fitsInteger d.stakeCents && fitsInteger d.payoutCents) then
    some (.QueryFailedError "integer out of range")
  else if s.bets.any (·.id = id) then some (.QueryFailedError "duplicate key value: bets.id")
  else if s.bets.any (·.referenceId = d.referenceId) then
    some (.QueryFailedError "duplicate key value: bets.referenceId")
  else none

/-- **One operation.** -/
def exec (ch : ApiChoice) (o : ApiOp) (s : Store) : Except Err o.Res × Store :=
  match o with
  | .wallet o =>
    let x := WalletDb.exec ch.toWalletChoice o s.wallet
    (x.1, { s with wallet := x.2 })
  | .redisGet userId clientMutationId => (.ok (s.idempotency userId clientMutationId), s)
  | .redisSet userId clientMutationId betId =>
    (.ok (), s.setIdempotency userId clientMutationId (some betId))
  | .betFindById id => (.ok (s.bet id), s)
  | .betFindByReference userId referenceId => (.ok (s.betOf userId referenceId), s)
  | .betFind marketId status =>
    let found := s.betsIn marketId status
    (.ok (if ch.rows.Perm found then ch.rows else found), s)
  | .betSave d =>
    match s.rejectsBet ch.fresh d with
    | some e => (.error e, s)
    | none =>
      (.ok (d.row ch.fresh ch.now), s.addBet (d.row ch.fresh ch.now))
  | .betUpdate id status => (.ok (), s.setStatus ch.now id status)
  | .marketFindOne id => (.ok (s.markets id), s)
  | .marketCreate d =>
    if !fitsInteger d.oddsInt then (.error (.QueryFailedError "integer out of range"), s)
    else if (s.markets ch.fresh).isSome then
      (.error (.QueryFailedError "duplicate key value: markets.id"), s)
    else
      (.ok (d.row ch.fresh ch.now), s.setMarket (d.row ch.fresh ch.now))
  | .marketSave entity =>
    (.ok (s.savedMarket ch.now entity), s.setMarket (s.savedMarket ch.now entity))
  | .publishBetPlacement payload =>
    (.ok (), { s with betPlacement := s.betPlacement ++ [payload] })
  | .publishNotification payload =>
    (.ok (), { s with notifications := s.notifications ++ [payload] })
  | .ack tag => (.ok (), { s with unacked := s.unacked.filter (·.1 ≠ tag) })
  | .nack tag =>
    (.ok (), { s with
      unacked := s.unacked.filter (·.1 ≠ tag)
      deadLetter := s.deadLetter ++ (s.unacked.filter (·.1 = tag)).map Prod.snd })

end Store

end BoltBet
