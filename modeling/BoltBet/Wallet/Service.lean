import BoltBet.Async.Pool
import BoltBet.Wallet.Types

/-!
# `WalletService.ts`

`deposit`, `debit`, `credit` and `getBalance` as programs over the operations they await. Here
`applyTransaction` is one operation, answered by its specification `WalletDb.applyAtomic`;
`Statements.lean` has its statements, and `Atomic.lean` shows that they amount to this operation.
`getTransactions` is in `Listing/Queries.lean`.

The infrastructure chooses (`WalletChoice`) the generated ids, the clock, which row a `findOne`
without an order returns, and what the replica has seen.
-/

namespace BoltBet

open Async

/-- What the database chooses while it runs a statement of the wallet tables. -/
structure WalletChoice where
  fresh : Uuid := 0
  freshWallet : Uuid := 0
  now : Nat := 0
  pick : Nat := 0
  replica : Option Wallet := none

/-- Some element of `l`, chosen by `pick`; `none` only when there is none. -/
def pickOne {α : Type} (pick : Nat) (l : List α) : Option α := l[pick]? <|> l.head?

theorem pickOne_mem {α : Type} {pick : Nat} {l : List α} {a : α} (h : pickOne pick l = some a) :
    a ∈ l := by
  unfold pickOne at h
  cases hp : l[pick]? with
  | none => rw [hp] at h; exact List.mem_of_head? h
  | some b => rw [hp] at h; exact Option.some.inj h ▸ List.mem_of_getElem? hp

theorem pickOne_eq_none {α : Type} {pick : Nat} {l : List α} (h : pickOne pick l = none) :
    l = [] := by
  unfold pickOne at h
  cases hp : l[pick]? with
  | none => rw [hp] at h; exact List.head?_eq_none_iff.mp h
  | some b => rw [hp] at h; exact absurd h (by simp)

/-- The statements of the wallet service that run in a transaction of their own. -/
inductive WalletQuery where
  /-- `txRepo.findOne({ where: { userId, referenceId, type? } })`. -/
  | txFindOne (userId referenceId : Uuid) (type : Option TransactionType)
  /-- `walletReplicaRepo.findOne({ where: { userId } })`. -/
  | walletReplicaFindOne (userId : Uuid)
  /-- `walletRepo.save(walletRepo.create({ userId, balanceCents: 0 }))`. -/
  | walletCreate (userId : Uuid)
  deriving DecidableEq

/-- The operations of the wallet service. -/
inductive WalletOp where
  | query (q : WalletQuery)
  | applyTransaction (userId : Uuid) (type : TransactionType) (amountCents : Int)
      (referenceId : Option Uuid) (description : String)
  deriving DecidableEq

/-- What a query answers. -/
abbrev WalletQuery.Res : WalletQuery → Type
  | .txFindOne .. => Option WalletTransaction
  | .walletReplicaFindOne .. => Option Wallet
  | .walletCreate .. => Wallet

/-- What an operation answers. -/
abbrev WalletOp.Res : WalletOp → Type
  | .query q => q.Res
  | .applyTransaction .. => TransactionResponseDto

/-- The signature of the wallet service. -/
abbrev WalletSig : Sig Err := ⟨WalletOp, WalletOp.Res⟩

/-- A row matches the `where` of a `txFindOne`; without a type every type matches. -/
def WalletTransaction.Matches (userId referenceId : Uuid) (type : Option TransactionType)
    (tx : WalletTransaction) : Prop :=
  tx.userId = userId ∧ tx.referenceId = some referenceId ∧ ∀ t ∈ type, tx.type = t

instance (userId referenceId : Uuid) (type : Option TransactionType) :
    DecidablePred (WalletTransaction.Matches userId referenceId type) :=
  fun _ => inferInstanceAs (Decidable (_ ∧ _ ∧ _))

namespace WalletService

/-! ## The awaited operations -/

def txFindOne (userId referenceId : Uuid) (type : Option TransactionType) :
    Prog WalletSig (Option WalletTransaction) :=
  .perform (S := WalletSig) (.query (.txFindOne userId referenceId type))

def walletReplicaFindOne (userId : Uuid) : Prog WalletSig (Option Wallet) :=
  .perform (S := WalletSig) (.query (.walletReplicaFindOne userId))

def walletCreate (userId : Uuid) : Prog WalletSig Wallet :=
  .perform (S := WalletSig) (.query (.walletCreate userId))

def applyTransaction (userId : Uuid) (type : TransactionType) (amountCents : Int)
    (referenceId : Option Uuid) (description : String) : Prog WalletSig TransactionResponseDto :=
  .perform (S := WalletSig) (.applyTransaction userId type amountCents referenceId description)

/-! ## The service -/

/-- `getOrCreateWallet`. -/
def getOrCreateWallet (userId : Uuid) : Prog WalletSig Wallet := do
  match ← walletReplicaFindOne userId with
  | some wallet => return wallet
  | none => walletCreate userId

/-- `getBalance`. -/
def getBalance (userId : Uuid) : Prog WalletSig BalanceResponseDto := do
  let wallet ← getOrCreateWallet userId
  return { balanceCents := wallet.balanceCents, balanceDisplay := formatCents wallet.balanceCents }

/-- `deposit`: its lookup has no type, so a row of any type answers it. -/
def deposit (userId : Uuid) (dto : DepositDto) : Prog WalletSig TransactionResponseDto := do
  match ← txFindOne userId dto.clientMutationId none with
  | some existing => return toTransactionDto existing
  | none => applyTransaction userId .DEPOSIT dto.amountCents (some dto.clientMutationId) "Deposit"

/-- `debit`. -/
def debit (userId : Uuid) (amountCents : Int) (referenceId : Uuid) (description : Option String) :
    Prog WalletSig TransactionResponseDto := do
  match ← txFindOne userId referenceId (some .DEBIT) with
  | some existing => return toTransactionDto existing
  | none =>
    applyTransaction userId .DEBIT amountCents (some referenceId)
      (description.getD "Bet placement")

/-- `credit`. -/
def credit (userId : Uuid) (amountCents : Int) (referenceId : Uuid) (description : Option String) :
    Prog WalletSig TransactionResponseDto := do
  match ← txFindOne userId referenceId (some .CREDIT) with
  | some existing => return toTransactionDto existing
  | none =>
    applyTransaction userId .CREDIT amountCents (some referenceId)
      (description.getD "Bet settlement payout")

end WalletService

/-! ## The operations on the tables -/

namespace WalletDb

/-- The message of the 422 a debit beyond the balance throws. -/
def insufficientBalance (balanceCents amountCents : Int) : Err :=
  .UnprocessableEntityException
    s!"Insufficient balance: have {balanceCents} cents, need {amountCents} cents"

/-- The new balance, or the error of a debit beyond the balance. -/
def newBalance (type : TransactionType) (balanceCents amountCents : Int) : Except Err Int :=
  match type with
  | .DEBIT =>
    if balanceCents < amountCents then .error (insufficientBalance balanceCents amountCents)
    else .ok (balanceCents - amountCents)
  | _ => .ok (balanceCents + amountCents)

/-- **What `applyTransaction` is for**: in one step, move the balance of the user's wallet (a new
one starts at 0) and record it, or change nothing and throw. -/
def applyAtomic (ch : WalletChoice) (db : WalletDb) (userId : Uuid) (type : TransactionType)
    (amountCents : Int) (referenceId : Option Uuid) (description : String) :
    Except Err TransactionResponseDto × WalletDb :=
  let wallet := (db.wallets userId).getD ⟨ch.freshWallet, 0⟩
  match newBalance type wallet.balanceCents amountCents with
  | .error e => (.error e, db)
  | .ok balanceCents =>
    if fitsInteger balanceCents && fitsInteger amountCents then
      let tx : WalletTransaction := {
        id := ch.fresh, walletId := wallet.id, userId, type, amountCents,
        balanceAfterCents := balanceCents, referenceId, description := some description,
        createdAt := ch.now }
      (.ok (toTransactionDto tx),
        (db.setWallet userId { wallet with balanceCents }).addTx tx)
    else (.error (.QueryFailedError "integer out of range"), db)

/-- One query. The unique index on `userId` rejects a second wallet. -/
def execQuery (ch : WalletChoice) (q : WalletQuery) (db : WalletDb) :
    Except Err q.Res × WalletDb :=
  match q with
  | .txFindOne userId referenceId type =>
    (.ok (pickOne ch.pick (db.walletTransactions.filter (·.Matches userId referenceId type))), db)
  | .walletReplicaFindOne _ => (.ok ch.replica, db)
  | .walletCreate userId =>
    match db.wallets userId with
    | some _ => (.error (.QueryFailedError "duplicate key value: wallets.userId"), db)
    | none => (.ok ⟨ch.freshWallet, 0⟩, db.setWallet userId ⟨ch.freshWallet, 0⟩)

/-- One operation. -/
def exec (ch : WalletChoice) (o : WalletOp) (db : WalletDb) : Except Err o.Res × WalletDb :=
  match o with
  | .query q => db.execQuery ch q
  | .applyTransaction userId type amountCents referenceId description =>
    db.applyAtomic ch userId type amountCents referenceId description

end WalletDb

/-! ## Concurrent calls -/

/-- A call of the wallet service. Debits and credits come from other services of the process, with
a positive amount. -/
inductive WalletCall where
  | getBalance (userId : Uuid)
  | deposit (userId : Uuid) (dto : DepositDto)
  | debit (userId : Uuid) (amountCents : Int) (positive : 0 < amountCents) (referenceId : Uuid)
      (description : Option String)
  | credit (userId : Uuid) (amountCents : Int) (positive : 0 < amountCents) (referenceId : Uuid)
      (description : Option String)

/-- What a call of the wallet service returns. -/
inductive WalletReply where
  | balance (dto : BalanceResponseDto)
  | transaction (dto : TransactionResponseDto)

/-- The program of a call. -/
def WalletCall.body : WalletCall → Prog WalletSig WalletReply
  | .getBalance userId => .balance <$> WalletService.getBalance userId
  | .deposit userId dto => .transaction <$> WalletService.deposit userId dto
  | .debit userId amountCents _ referenceId description =>
    .transaction <$> WalletService.debit userId amountCents referenceId description
  | .credit userId amountCents _ referenceId description =>
    .transaction <$> WalletService.credit userId amountCents referenceId description

/-- Any number of wallet calls, each `applyTransaction` one step. -/
abbrev walletPool : Machine WalletSig where
  Call := WalletCall
  Out := WalletReply
  State := WalletDb
  Choice := WalletChoice
  Env := Empty
  body := WalletCall.body
  start _ db := some db
  exec _ ch o db := some (WalletDb.exec ch o db)
  env := nofun

end BoltBet
