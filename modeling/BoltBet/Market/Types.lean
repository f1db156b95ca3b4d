import BoltBet.Wallet.Types

/-!
# Market rows, requests, responses and notifications

`MarketEntity.ts`, `MarketTypes.ts`, the DTOs of the market endpoints, and the messages of the
`notifications` queue (`NotificationPayload` in `NotificationWorker.ts`).
-/

namespace BoltBet

/-- `MarketStatus`. -/
inductive MarketStatus where
  | OPEN
  | SUSPENDED
  | SETTLED
  deriving DecidableEq, Repr

/-- The value of a `MarketStatus`. -/
def MarketStatus.toString : MarketStatus → String
  | .OPEN => "OPEN"
  | .SUSPENDED => "SUSPENDED"
  | .SETTLED => "SETTLED"

instance : ToString MarketStatus := ⟨MarketStatus.toString⟩

/-- `MarketResult`. -/
inductive MarketResult where
  | WIN
  | LOSS
  deriving DecidableEq, Repr

/-- A row of `markets`. -/
structure Market where
  id : Uuid
  eventId : Uuid
  name : String
  oddsInt : Int
  status : MarketStatus
  createdAt : Nat
  updatedAt : Nat
  deriving DecidableEq, Repr

/-- `CreateMarketDto`. -/
structure CreateMarketDto where
  eventId : Uuid
  name : String
  oddsInt : Int
  maxLength : name.length ≤ 255
  min : 101 ≤ oddsInt
  deriving DecidableEq

/-- `marketRepo.create(…)`: a market without its generated columns. -/
structure MarketDraft where
  eventId : Uuid
  name : String
  oddsInt : Int
  status : MarketStatus
  deriving DecidableEq, Repr

/-- The inserted row of a draft. -/
def MarketDraft.row (d : MarketDraft) (id : Uuid) (now : Nat) : Market where
  id := id
  eventId := d.eventId
  name := d.name
  oddsInt := d.oddsInt
  status := d.status
  createdAt := now
  updatedAt := now

/-- `MarketResponseDto`. -/
structure MarketResponseDto where
  id : Uuid
  eventId : Uuid
  name : String
  oddsInt : Int
  oddsDisplay : String
  status : MarketStatus
  createdAt : Nat
  updatedAt : Nat
  deriving DecidableEq, Repr

/-- `NotificationPayload`. -/
inductive NotificationPayload where
  | BET_SETTLED (userId betId : Uuid) (marketName : String) (result : MarketResult)
      (payoutCents : Int)
  | MARKET_UPDATED (marketId : Uuid) (name : String) (status : MarketStatus) (oddsInt : Int)
  | MARKET_CREATED (marketId : Uuid) (name : String) (oddsInt : Int)
  deriving DecidableEq, Repr

/-- `MarketService.toDto`. -/
def Market.toDto (market : Market) : MarketResponseDto where
  id := market.id
  eventId := market.eventId
  name := market.name
  oddsInt := market.oddsInt
  oddsDisplay := formatOdds market.oddsInt
  status := market.status
  createdAt := market.createdAt
  updatedAt := market.updatedAt

/-- The row after `marketRepo.save(entity)` found `row`: every column that differs is written
back; `updatedAt` moves when something else was written and the entity's copy is current. -/
def Market.save (now : Nat) (row entity : Market) : Market :=
  if entity = row then row
  else if entity.updatedAt = row.updatedAt then { entity with updatedAt := now }
  else entity

theorem Market.save_cases (now : Nat) (row entity : Market) :
    Market.save now row entity = entity ∨
      Market.save now row entity = { entity with updatedAt := now } := by
  unfold save
  by_cases h : entity = row
  · rw [if_pos h]
    exact .inl h.symm
  · rw [if_neg h]
    by_cases hcurrent : entity.updatedAt = row.updatedAt
    · exact .inr (if_pos hcurrent)
    · exact .inl (if_neg hcurrent)

@[simp] theorem Market.save_id (now : Nat) (row entity : Market) :
    (Market.save now row entity).id = entity.id := by
  rcases save_cases now row entity with h | h <;> rw [h]

@[simp] theorem Market.save_status (now : Nat) (row entity : Market) :
    (Market.save now row entity).status = entity.status := by
  rcases save_cases now row entity with h | h <;> rw [h]

@[simp] theorem Market.save_oddsInt (now : Nat) (row entity : Market) :
    (Market.save now row entity).oddsInt = entity.oddsInt := by
  rcases save_cases now row entity with h | h <;> rw [h]

end BoltBet
