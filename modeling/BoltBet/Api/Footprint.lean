import BoltBet.Api.Machine

/-!
# Which operations a call can run

`Footprint call o`: the call may await `o`, whatever the operations before it answered
(`body_footprint`). What no call may run, nobody does: only `placeBet` inserts bets, only a
delivery and `settle` write their status, only `settle` with WIN credits.
-/

namespace BoltBet

open Async

/-- **The operations a call can run.** -/
inductive Footprint : ApiCall → ApiOp → Prop
  | replicaFind (u : Uuid) :
    Footprint (.getBalance u) (.wallet (.query (.walletReplicaFindOne u)))
  | walletCreate (u : Uuid) : Footprint (.getBalance u) (.wallet (.query (.walletCreate u)))
  | depositFind (u : Uuid) (dto : DepositDto) :
    Footprint (.deposit u dto) (.wallet (.query (.txFindOne u dto.clientMutationId none)))
  | deposit (u : Uuid) (dto : DepositDto) : Footprint (.deposit u dto) (.wallet
      (.applyTransaction u .DEPOSIT dto.amountCents (some dto.clientMutationId) "Deposit"))
  | redisGet (u : Uuid) (role : Role) (dto : PlaceBetDto) :
    Footprint (.placeBet u role dto) (.redisGet u dto.clientMutationId)
  | betFindCached (u : Uuid) (role : Role) (dto : PlaceBetDto) (id : Uuid) :
    Footprint (.placeBet u role dto) (.betFindById id)
  | betFindByReference (u : Uuid) (role : Role) (dto : PlaceBetDto) :
    Footprint (.placeBet u role dto) (.betFindByReference u dto.clientMutationId)
  | placeFindMarket (u : Uuid) (role : Role) (dto : PlaceBetDto) :
    Footprint (.placeBet u role dto) (.marketFindOne dto.marketId)
  | debitFind (u : Uuid) (role : Role) (dto : PlaceBetDto) : Footprint (.placeBet u role dto)
      (.wallet (.query (.txFindOne u dto.clientMutationId (some .DEBIT))))
  | debit (u : Uuid) (role : Role) (dto : PlaceBetDto) (d : String) :
    Footprint (.placeBet u role dto) (.wallet
      (.applyTransaction u .DEBIT dto.stakeCents (some dto.clientMutationId) d))
  | betSave (u : Uuid) (role : Role) (dto : PlaceBetDto) (m : Market) :
    Footprint (.placeBet u role dto) (.betSave (BettingService.newBet u dto m))
  | redisSet (u : Uuid) (role : Role) (dto : PlaceBetDto) (id : Uuid) :
    Footprint (.placeBet u role dto) (.redisSet u dto.clientMutationId id)
  | publishBetPlacement (u : Uuid) (role : Role) (dto : PlaceBetDto) (b : Bet) :
    Footprint (.placeBet u role dto) (.publishBetPlacement (BettingService.placementOf b))
  | marketCreate (dto : CreateMarketDto) :
    Footprint (.createMarket dto) (.marketCreate ⟨dto.eventId, dto.name, dto.oddsInt, .OPEN⟩)
  | marketCreated (dto : CreateMarketDto) (m : Market) :
    Footprint (.createMarket dto) (.publishNotification (.MARKET_CREATED m.id m.name m.oddsInt))
  | suspendFind (id : Uuid) : Footprint (.suspend id) (.marketFindOne id)
  | suspendSave (id : Uuid) (m : Market) :
    Footprint (.suspend id) (.marketSave { m with status := .SUSPENDED })
  | suspended (id : Uuid) (m : Market) : Footprint (.suspend id)
      (.publishNotification (.MARKET_UPDATED m.id m.name m.status m.oddsInt))
  | reopenFind (id : Uuid) : Footprint (.reopen id) (.marketFindOne id)
  | reopenSave (id : Uuid) (m : Market) :
    Footprint (.reopen id) (.marketSave { m with status := .OPEN })
  | reopened (id : Uuid) (m : Market) : Footprint (.reopen id)
      (.publishNotification (.MARKET_UPDATED m.id m.name m.status m.oddsInt))
  | settleFind (id : Uuid) (r : MarketResult) : Footprint (.settle id r) (.marketFindOne id)
  | betFind (id : Uuid) (r : MarketResult) : Footprint (.settle id r) (.betFind id .ACCEPTED)
  | creditFind (id : Uuid) (b : Bet) : Footprint (.settle id .WIN)
      (.wallet (.query (.txFindOne b.userId b.id (some .CREDIT))))
  | credit (id : Uuid) (b : Bet) (d : String) : Footprint (.settle id .WIN)
      (.wallet (.applyTransaction b.userId .CREDIT b.payoutCents (some b.id) d))
  | settleBet (id : Uuid) (r : MarketResult) (b : Bet) :
    Footprint (.settle id r) (.betUpdate b.id .SETTLED)
  | betSettled (id : Uuid) (r : MarketResult) (b : Bet) (name : String) :
    Footprint (.settle id r) (.publishNotification (.BET_SETTLED b.userId b.id name r
      (if r = .WIN then b.payoutCents else 0)))
  | settleSave (id : Uuid) (r : MarketResult) (m : Market) :
    Footprint (.settle id r) (.marketSave { m with status := .SETTLED })
  | settled (id : Uuid) (r : MarketResult) (m : Market) : Footprint (.settle id r)
      (.publishNotification (.MARKET_UPDATED m.id m.name m.status m.oddsInt))
  | deliveryFind (tag : Nat) (p : BetPlacementPayload) :
    Footprint (.delivery tag p) (.betFindById p.betId)
  | accept (tag : Nat) (p : BetPlacementPayload) :
    Footprint (.delivery tag p) (.betUpdate p.betId .ACCEPTED)
  | ack (tag : Nat) (p : BetPlacementPayload) : Footprint (.delivery tag p) (.ack tag)
  | nack (tag : Nat) (p : BetPlacementPayload) : Footprint (.delivery tag p) (.nack tag)

namespace Api

/-- An operation, as the program that awaits it. -/
theorem all_op {P : ApiOp → Prop} {o : ApiOp} (h : P o) :
    (Prog.perform (S := ApiSig) o).All P := Prog.All.perform (S := ApiSig) h

/-- A wallet program runs its operations as wallet operations. -/
theorem all_wallet {α : Type} {P : ApiOp → Prop} {p : Prog WalletSig α}
    (h : p.All fun o => P (.wallet o)) : (Api.wallet p).All P :=
  Prog.All.expand (S := WalletSig) h fun _ ho => all_op ho

/-- The shape of `deposit`, `debit` and `credit`. -/
theorem all_lookup_then {P : WalletOp → Prop} {u ref : Uuid} {t : Option TransactionType}
    {t' : TransactionType} {a : Int} {desc : String}
    {f : WalletTransaction → TransactionResponseDto} (hq : P (.query (.txFindOne u ref t)))
    (ha : P (.applyTransaction u t' a (some ref) desc)) :
    (do
      match ← WalletService.txFindOne u ref t with
      | some existing => return f existing
      | none => WalletService.applyTransaction u t' a (some ref) desc :
      Prog WalletSig _).All P := by
  refine Prog.All.bind (Prog.All.perform (S := WalletSig) hq) fun existing => ?_
  cases existing with
  | some tx => trivial
  | none => exact Prog.All.perform (S := WalletSig) ha

/-- A market is read, or the call ends. -/
theorem all_getMarketById {P : ApiOp → Prop} {id : Uuid} (h : P (.marketFindOne id)) :
    (MarketService.getMarketById id).All P := by
  refine Prog.All.bind (all_op h) fun m => ?_
  cases m <;> trivial

/-- A market is read and checked, or the call ends. -/
theorem all_assertMarketOpen {P : ApiOp → Prop} {id : Uuid} (h : P (.marketFindOne id)) :
    (MarketService.assertMarketOpen id).All P := by
  refine Prog.All.bind (all_getMarketById h) fun m => ?_
  split <;> trivial

end Api

open Api

theorem placeBet_footprint (u : Uuid) (role : Role) (dto : PlaceBetDto) :
    (BettingService.placeBet u role dto).All (Footprint (.placeBet u role dto)) := by
  have hplace : (BettingService.lookupOrPlace u dto).All (Footprint (.placeBet u role dto)) := by
    refine Prog.All.bind (all_op (.betFindByReference u role dto)) fun existing => ?_
    cases existing with
    | some b => trivial
    | none =>
      refine Prog.All.bind (all_assertMarketOpen (.placeFindMarket u role dto)) fun m => ?_
      refine Prog.All.bind (all_wallet (all_lookup_then (.debitFind u role dto)
        (.debit u role dto _))) fun _ => ?_
      refine Prog.All.bind (all_op (.betSave u role dto m)) fun b => ?_
      refine Prog.All.bind (all_op (.redisSet u role dto b.id)) fun _ => ?_
      exact Prog.All.bind (all_op (.publishBetPlacement u role dto b)) fun _ => trivial
  unfold BettingService.placeBet
  split
  · trivial
  · refine Prog.All.bind (all_op (.redisGet u role dto)) fun cached => ?_
    cases cached with
    | none => exact hplace
    | some id =>
      refine Prog.All.bind (all_op (.betFindCached u role dto id)) fun b => ?_
      cases b with
      | some b => trivial
      | none => exact hplace

/-- The payout of a bet. -/
theorem all_creditPayout {P : ApiOp → Prop} {r : MarketResult} {m : Market} {b : Bet}
    (hfind : r = .WIN → P (.wallet (.query (.txFindOne b.userId b.id (some .CREDIT)))))
    (hcredit : r = .WIN →
      ∀ d, P (.wallet (.applyTransaction b.userId .CREDIT b.payoutCents (some b.id) d))) :
    (MarketService.creditPayout m r b).All P := by
  cases r with
  | WIN =>
    exact Prog.All.bind (all_wallet (all_lookup_then (hfind rfl) (hcredit rfl _))) fun _ => trivial
  | LOSS => trivial

/-- One round of the loop of `settle`. -/
theorem all_settleBet {P : ApiOp → Prop} {r : MarketResult} {m : Market} {b : Bet}
    (hfind : r = .WIN → P (.wallet (.query (.txFindOne b.userId b.id (some .CREDIT)))))
    (hcredit : r = .WIN →
      ∀ d, P (.wallet (.applyTransaction b.userId .CREDIT b.payoutCents (some b.id) d)))
    (hupdate : P (.betUpdate b.id .SETTLED))
    (hpub : P (.publishNotification (.BET_SETTLED b.userId b.id m.name r
      (if r = .WIN then b.payoutCents else 0)))) :
    (MarketService.settleBet m r b).All P :=
  Prog.All.tryCatch (.bind (all_creditPayout hfind hcredit) fun _ =>
    .bind (all_op hupdate) fun _ => all_op hpub) fun _ => trivial

theorem settleBet_footprint (id : Uuid) (r : MarketResult) (m : Market) (b : Bet) :
    (MarketService.settleBet m r b).All (Footprint (.settle id r)) :=
  all_settleBet (fun h => h ▸ .creditFind id b) (fun h d => h ▸ .credit id b d)
    (.settleBet id r b) (.betSettled id r b m.name)

theorem settle_footprint (id : Uuid) (r : MarketResult) :
    (MarketService.settle id r).All (Footprint (.settle id r)) := by
  refine Prog.All.bind (all_getMarketById (.settleFind id r)) fun m => ?_
  split
  · trivial
  · refine Prog.All.bind (all_op (.betFind id r)) fun bets => ?_
    refine Prog.All.bind (Prog.All.forM fun b _ => settleBet_footprint id r m b) fun _ => ?_
    refine Prog.All.bind (all_op (.settleSave id r m)) fun saved => ?_
    exact Prog.All.bind (all_op (.settled id r saved)) fun _ => trivial

theorem delivery_footprint (tag : Nat) (p : BetPlacementPayload) :
    (SettlementWorker.consume tag p).All (Footprint (.delivery tag p)) := by
  have htransition : (BettingService.transitionStatus p.betId .ACCEPTED).All
      (Footprint (.delivery tag p)) := by
    refine Prog.All.bind (all_op (.deliveryFind tag p)) fun b => ?_
    cases b with
    | none => trivial
    | some b =>
      dsimp only
      split
      · exact all_op (.accept tag p)
      · trivial
  have hterminal : (BettingService.isTerminalState p.betId).All (Footprint (.delivery tag p)) := by
    refine Prog.All.bind (all_op (.deliveryFind tag p)) fun b => ?_
    cases b <;> trivial
  refine Prog.All.tryCatch (.tryCatch (.bind (.tryCatch (.bind htransition fun _ => trivial)
    fun _ => .bind hterminal fun t => ?_) fun acked => ?_) fun _ => all_op (.nack tag p))
    fun _ => all_op (.nack tag p)
  · cases t with
    | true => exact Prog.All.bind (all_op (.ack tag p)) fun _ => trivial
    | false => trivial
  · cases acked with
    | true => trivial
    | false => exact all_op (.ack tag p)

/-- **A call runs nothing outside its footprint.** -/
theorem body_footprint (call : ApiCall) : call.body.All (Footprint call) := by
  have hupdate : ∀ {P : ApiOp → Prop} {id : Uuid} {st : MarketStatus}, P (.marketFindOne id) →
      (∀ m : Market, P (.marketSave { m with status := st })) →
      (∀ m : Market, P (.publishNotification (.MARKET_UPDATED m.id m.name m.status m.oddsInt))) →
      (MarketService.updateStatus id st).All P := by
    intro P id st hfind hsave hpub
    refine Prog.All.bind (all_getMarketById hfind) fun m => ?_
    split
    · trivial
    · refine Prog.All.bind (all_op (hsave m)) fun saved => ?_
      exact Prog.All.bind (all_op (hpub saved)) fun _ => trivial
  cases call with
  | getBalance u =>
    refine Prog.All.map (all_wallet (.bind (.bind (Prog.All.perform (S := WalletSig)
      (.replicaFind u)) fun w => ?_) fun _ => trivial))
    cases w with
    | some w => trivial
    | none => exact Prog.All.perform (S := WalletSig) (.walletCreate u)
  | deposit u dto =>
    exact Prog.All.map (all_wallet (all_lookup_then (.depositFind u dto) (.deposit u dto)))
  | placeBet u role dto => exact (placeBet_footprint u role dto).map
  | createMarket dto =>
    refine Prog.All.map (.bind (all_op (.marketCreate dto)) fun saved => ?_)
    exact Prog.All.bind (all_op (.marketCreated dto saved)) fun _ => trivial
  | suspend id => exact (hupdate (.suspendFind id) (.suspendSave id) (.suspended id)).map
  | reopen id => exact (hupdate (.reopenFind id) (.reopenSave id) (.reopened id)).map
  | settle id r => exact (settle_footprint id r).map
  | delivery tag p => exact (delivery_footprint tag p).bind fun _ => trivial

end BoltBet
