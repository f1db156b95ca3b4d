import BoltBet.Wallet.Types

/-!
# Bet rows, requests, responses and messages

`BetEntity.ts`, `BettingTypes.ts` and the DTOs of the betting endpoints. The column `deletedAt` is
left out: no code sets it.
-/

namespace BoltBet

/-- `BetStatus`. -/
inductive BetStatus where
  | PENDING
  | ACCEPTED
  | SETTLED
  | VOID
  | CANCELLED
  deriving DecidableEq, Repr

/-- The value of a `BetStatus`. -/
def BetStatus.toString : BetStatus → String
  | .PENDING => "PENDING"
  | .ACCEPTED => "ACCEPTED"
  | .SETTLED => "SETTLED"
  | .VOID => "VOID"
  | .CANCELLED => "CANCELLED"

instance : ToString BetStatus := ⟨BetStatus.toString⟩

/-- `ALLOWED_TRANSITIONS`. -/
def ALLOWED_TRANSITIONS : BetStatus → List BetStatus
  | .PENDING => [.ACCEPTED, .VOID, .CANCELLED]
  | .ACCEPTED => [.SETTLED, .VOID, .CANCELLED]
  | .SETTLED => []
  | .VOID => []
  | .CANCELLED => []

/-- `TERMINAL_STATES`. -/
def TERMINAL_STATES : List BetStatus := [.SETTLED, .VOID, .CANCELLED]

/-- The terminal states are those without a way out. -/
theorem mem_terminalStates_iff (st : BetStatus) :
    st ∈ TERMINAL_STATES ↔ ALLOWED_TRANSITIONS st = [] := by
  cases st <;> decide

/-- `Role`. -/
inductive Role where
  | USER
  | VIP_USER
  | ADMIN
  deriving DecidableEq, Repr

/-- A row of `bets`. -/
structure Bet where
  id : Uuid
  userId : Uuid
  marketId : Uuid
  marketName : String
  oddsInt : Int
  stakeCents : Int
  payoutCents : Int
  status : BetStatus
  referenceId : Uuid
  createdAt : Nat
  updatedAt : Nat
  deriving DecidableEq, Repr

/-- `betRepo.create(…)`: a bet without its generated columns. -/
structure BetDraft where
  userId : Uuid
  marketId : Uuid
  marketName : String
  oddsInt : Int
  stakeCents : Int
  payoutCents : Int
  status : BetStatus
  referenceId : Uuid
  deriving DecidableEq, Repr

/-- The inserted row of a draft. -/
def BetDraft.row (d : BetDraft) (id : Uuid) (now : Nat) : Bet where
  id := id
  userId := d.userId
  marketId := d.marketId
  marketName := d.marketName
  oddsInt := d.oddsInt
  stakeCents := d.stakeCents
  payoutCents := d.payoutCents
  status := d.status
  referenceId := d.referenceId
  createdAt := now
  updatedAt := now

/-- `b'` is `b` after any number of status updates. -/
def Bet.Same (b b' : Bet) : Prop := b' = { b with status := b'.status, updatedAt := b'.updatedAt }

namespace Bet.Same

variable {b b₁ b₂ : Bet}

theorem refl (b : Bet) : b.Same b := rfl

theorem trans (h : b.Same b₁) (h' : b₁.Same b₂) : b.Same b₂ := by
  unfold Bet.Same at *
  rw [h', h]

/-- What no status update changes. -/
theorem congr {α : Type} (f : Bet → α)
    (hf : ∀ b st now, f { b with status := st, updatedAt := now } = f b) (h : b.Same b₁) :
    f b₁ = f b := by
  unfold Bet.Same at h
  rw [h, hf]

theorem id (h : b.Same b₁) : b₁.id = b.id := h.congr Bet.id fun _ _ _ => rfl

theorem userId (h : b.Same b₁) : b₁.userId = b.userId := h.congr Bet.userId fun _ _ _ => rfl

theorem marketId (h : b.Same b₁) : b₁.marketId = b.marketId :=
  h.congr Bet.marketId fun _ _ _ => rfl

theorem stakeCents (h : b.Same b₁) : b₁.stakeCents = b.stakeCents :=
  h.congr Bet.stakeCents fun _ _ _ => rfl

theorem payoutCents (h : b.Same b₁) : b₁.payoutCents = b.payoutCents :=
  h.congr Bet.payoutCents fun _ _ _ => rfl

theorem referenceId (h : b.Same b₁) : b₁.referenceId = b.referenceId :=
  h.congr Bet.referenceId fun _ _ _ => rfl

theorem createdAt (h : b.Same b₁) : b₁.createdAt = b.createdAt :=
  h.congr Bet.createdAt fun _ _ _ => rfl

end Bet.Same

/-- `PlaceBetDto`. -/
structure PlaceBetDto where
  marketId : Uuid
  stakeCents : Int
  clientMutationId : Uuid
  min : 100 ≤ stakeCents
  max : stakeCents ≤ 1000000

instance : DecidableEq PlaceBetDto := fun a b =>
  decidable_of_iff (a.marketId = b.marketId ∧ a.stakeCents = b.stakeCents ∧
    a.clientMutationId = b.clientMutationId) (by cases a; cases b; simp)

/-- `BetResponseDto`. -/
structure BetResponseDto where
  id : Uuid
  marketId : Uuid
  marketName : String
  oddsInt : Int
  oddsDisplay : String
  stakeCents : Int
  stakeDisplay : String
  payoutCents : Int
  payoutDisplay : String
  status : BetStatus
  referenceId : Uuid
  createdAt : Nat
  updatedAt : Nat
  deriving DecidableEq, Repr

/-- `BetPlacementPayload`. -/
structure BetPlacementPayload where
  betId : Uuid
  userId : Uuid
  marketId : Uuid
  oddsInt : Int
  stakeCents : Int
  payoutCents : Int
  deriving DecidableEq, Repr

/-- `BettingService.toDto`. -/
def Bet.toDto (bet : Bet) : BetResponseDto where
  id := bet.id
  marketId := bet.marketId
  marketName := bet.marketName
  oddsInt := bet.oddsInt
  oddsDisplay := formatOdds bet.oddsInt
  stakeCents := bet.stakeCents
  stakeDisplay := formatCents bet.stakeCents
  payoutCents := bet.payoutCents
  payoutDisplay := formatCents bet.payoutCents
  status := bet.status
  referenceId := bet.referenceId
  createdAt := bet.createdAt
  updatedAt := bet.updatedAt

end BoltBet
